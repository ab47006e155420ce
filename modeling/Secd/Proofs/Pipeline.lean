import Secd.Proofs.Listings
import Secd.Proofs.Requests

/-!
The program fed with its own output. Words are printed one on a line, and these lines are read as
the very same words by any command with room for them, the extremes of the range and no words at
all included:

      source ── asm ──▶ 1 \n 7 \n 0 \n ── run ──▶ 7
                                        ── disasm ──▶ 0: LDC 7 \n 2: HALT
-/

namespace Secd

/-! ### Words and their lines -/

namespace Bytecode

open Text

theorem not_isBlank_of_mem_render {w : Word} {c : Char} (mem : c ∈ w.render.toList) :
    isBlank c = false := by
  have solid := ((Listing.printed_render w).2 c mem).1
  rw [Assembly.isSeparator, Bool.or_eq_false_iff] at solid
  exact solid.1

/-- The first line holds one token, and nothing else. -/
theorem tokens_render_cons (w : Word) (words : List Word) :
    tokens (render (w :: words)).toList = w.render.toList :: tokens (render words).toList := by
  have line : (render (w :: words)).toList =
      w.render.toList ++ '\n' :: (render words).toList := by
    simp [render, unlines]
  have solid : ∀ c ∈ w.render.toList, isBlank c = false := fun c => not_isBlank_of_mem_render
  have gap : ∀ c ∈ ['\n'], isBlank c = true := List.forall_mem_singleton.2 rfl
  have apart : ∀ c ∈ ('\n' :: (render words).toList).head?, isBlank c = true := by
    rintro _ ⟨⟩
    rfl
  rw [line, tokens, fields_solid_append (Listing.printed_render w).1 solid apart]
  exact congrArg _ (fields_gap_append gap)

/-- The tokens of printed words are the numerals of the words. -/
theorem tokens_render (words : List Word) :
    tokens (render words).toList = words.map fun w => w.render.toList := by
  induction words with
  | nil => rfl
  | cons w words ih => rw [tokens_render_cons, ih, List.map_cons]

theorem decodeUtf8?_encodeUtf8 (text : String) :
    decodeUtf8? (encodeUtf8 text) = some text.toList := by
  obtain ⟨bytes, same, decoded⟩ := Source.exists_bytes_of_text (Source.text_encodeUtf8 text)
  cases same
  exact decoded

/-- Printed words that find room are read as themselves. -/
theorem read_render {words : List Word} {capacity : Nat} (fits : words.length ≤ capacity) :
    ∃ report, read (.bytes (encodeUtf8 (render words))) ⟨capacity, #[]⟩ =
      .ok report ⟨capacity, words.toArray⟩ := by
  refine read_fresh_of_literals (decodeUtf8?_encodeUtf8 _) ?_
  rw [tokens_render, List.take_of_length_le (by simpa using fits), List.forall₂_map_left_iff,
    List.forall₂_same]
  exact fun w _ => w.literal_render

end Bytecode

/-! ### Answers that are fed back -/

namespace Cli

namespace Response

variable {r : Response} {ending : Except Trap Value}

theorem render_line_inj {n k : Word} (same : n.render ++ "\n" = k.render ++ "\n") : n = k := by
  have chars : n.render.toList = k.render.toList := by
    have lines := congrArg String.toList same
    rw [String.toList_append, String.toList_append] at lines
    exact List.append_cancel_right lines
  have read := n.parse_render
  rw [chars, k.parse_render] at read
  cases read
  rfl

/-- A result is answered if and only if it is the result. -/
theorem Tells.result_iff (told : r.Tells ending) (n : Word) :
    (r.status = 0 ∧ r.stdout = n.render ++ "\n") ↔ ending = .ok (.int n) := by
  rcases ending with trap | k | cell
  · refine iff_of_false (fun ⟨success, _⟩ => ?_) nofun
    rw [told.1] at success
    cases success
  · constructor
    · rintro ⟨-, same⟩
      rw [told.2] at same
      rw [render_line_inj same]
    · rintro ⟨⟩
      exact told
  · refine iff_of_false (fun ⟨success, _⟩ => ?_) nofun
    rw [told] at success
    cases success

theorem Tells.status_eq_one (told : r.Tells ending) (noResult : ∀ n, ending ≠ .ok (.int n)) :
    r.status = 1 := by
  rcases ending with trap | n | cell
  · exact told.1
  · exact absurd rfl (noResult n)
  · exact told

end Response

namespace Invocation

variable {inv : Invocation} {o : Options} {caps : Capacities} {source : Source} {words : List Word}

/-- What can be assembled is answered by the lines of its words. -/
theorem Asks.respond_assemble {text : String} (asks : inv.Asks .assemble o caps source)
    (isText : source.text = .ok text) (assembled : Assembly.assemble text = .ok words) :
    inv.respond = ⟨0, Bytecode.render words, []⟩ := by
  rw [asks.respond_eq, perform, asks.capacities]
  simp only [asks.input, assemble, isText, assembled]
  rfl

/-- Code that can be read is answered by its listing, one entry on a line. -/
theorem Asks.respond_disassemble {report : Bytecode.Report}
    (asks : inv.Asks .disassemble o caps source) (reservable : caps.Reservable)
    (read : Bytecode.read source ⟨caps.code, #[]⟩ = .ok report ⟨caps.code, words.toArray⟩) :
    inv.respond.status = 0 ∧
      inv.respond.stdout = Text.unlines ((Listing.ofWords words).map Listing.Entry.render) := by
  rw [asks.respond_eq, perform, asks.capacities]
  simp only [asks.input]
  rw [withCode_of_read reservable read]
  exact ⟨rfl, rfl⟩

/-- To a program that asks for a machine of these capacities, the bytes stand for the words: it can
be asked, and it answers by the result of the words, or by the entries of their listing. -/
structure StandsFor (bytes : List UInt8) (words : List Word) (caps : Capacities) : Prop where
  asked : ∀ command, ∃ (inv : Invocation) (o : Options), inv.Asks command o caps (.bytes bytes)
  result : ∀ (inv : Invocation) (o : Options), inv.Asks .run o caps (.bytes bytes) → ∀ n : Word,
    (inv.respond.status = 0 ∧ inv.respond.stdout = n.render ++ "\n") ↔
      Machine.execute words.toArray caps = .ok (.int n)
  noResult : ∀ (inv : Invocation) (o : Options), inv.Asks .run o caps (.bytes bytes) →
    (∀ n : Word, Machine.execute words.toArray caps ≠ .ok (.int n)) → inv.respond.status = 1
  listing : ∀ (inv : Invocation) (o : Options), inv.Asks .disassemble o caps (.bytes bytes) →
    inv.respond.status = 0 ∧
      inv.respond.stdout = Text.unlines ((Listing.ofWords words).map Listing.Entry.render)

theorem standsFor_render (reservable : caps.Reservable) (positive : caps.Positive)
    (fits : words.length ≤ caps.code) :
    StandsFor (Text.encodeUtf8 (Bytecode.render words)) words caps := by
  obtain ⟨report, read⟩ := Bytecode.read_render fits
  have told (inv : Invocation) (o : Options)
      (asks : inv.Asks .run o caps (.bytes (Text.encodeUtf8 (Bytecode.render words)))) :
      inv.respond.Tells (Machine.execute words.toArray caps) :=
    asks.tells reservable (by simpa using fits) read
  refine ⟨fun command => ?_, ?_, ?_, ?_⟩
  · have noFiles : FileSystem := fun _ => .error .notFound
    exact ⟨_, _, asks_sizeFlags reservable positive command _ noFiles ⟨none, none⟩⟩
  · exact fun inv o asks => (told inv o asks).result_iff
  · exact fun inv o asks => (told inv o asks).status_eq_one
  · exact fun inv o asks => asks.respond_disassemble reservable read

/-- Printed words are read as themselves where there is room for them. So the output of an assembly
stands for the words of the assembly. -/
theorem reads_what_is_printed :
    (∀ (words : List Word) (capacity : Nat), words.length ≤ capacity →
      Segment.code.reserve capacity = .ok () →
        ∃ report, Bytecode.load capacity (.bytes (Text.encodeUtf8 (Bytecode.render words))) =
          .ok (⟨capacity, words.toArray⟩, report)) ∧
    ∀ (inv : Invocation) o caps source text words, inv.Asks .assemble o caps source →
      source.text = .ok text → Assembly.assemble text = .ok words → inv.respond.status = 0 ∧
        ∀ caps : Capacities, caps.Reservable → caps.Positive → words.length ≤ caps.code →
          StandsFor (Text.encodeUtf8 inv.respond.stdout) words caps := by
  constructor
  · intro words capacity fits reserved
    obtain ⟨report, read⟩ := Bytecode.read_render fits
    refine ⟨report, ?_⟩
    rw [Bytecode.load, Code.empty?_eq reserved]
    simp only [read]
  · intro inv o caps source text words asks isText assembled
    rw [asks.respond_assemble isText assembled]
    exact ⟨rfl, fun caps reservable positive fits => standsFor_render reservable positive fits⟩

/-- The least word is printed, and read into code that it fills up, to be run or to be listed. -/
theorem reads_what_is_printed_at_the_limits :
    let text : String := "LDC -9223372036854775808\nHALT"
    let words : List Word := [1, -9223372036854775808, 0]
    let inv : Invocation := ⟨["asm"], Text.encodeUtf8 text, fun _ => .error .notFound, ⟨none, none⟩⟩
    let caps : Capacities := { code := 3 }
    inv.Asks .assemble {} {} (.bytes inv.stdin) ∧ Source.text (.bytes inv.stdin) = .ok text ∧
      Assembly.assemble text = .ok words ∧ caps.Reservable ∧ caps.Positive ∧
      words.length ≤ caps.code ∧
      (∃ report, Bytecode.load 3 (.bytes (Text.encodeUtf8 (Bytecode.render words))) =
        .ok (⟨3, words.toArray⟩, report)) ∧
      StandsFor (Text.encodeUtf8 inv.respond.stdout) words caps ∧
      (∃ (run : Invocation) (o : Options),
        run.Asks .run o caps (.bytes (Text.encodeUtf8 inv.respond.stdout)) ∧
          run.respond.status = 0 ∧ run.respond.stdout = "-9223372036854775808\n") ∧
      ∃ (list : Invocation) (o : Options),
        list.Asks .disassemble o caps (.bytes (Text.encodeUtf8 inv.respond.stdout)) ∧
          list.respond.status = 0 ∧
          list.respond.stdout = "    0: LDC -9223372036854775808\n    2: HALT\n" := by
  have request : Request.parse? ["asm"] = some (.perform .assemble {}) := by decide +kernel
  have assembled : Assembly.assemble "LDC -9223372036854775808\nHALT" =
      .ok [1, -9223372036854775808, 0] := rfl
  have reservable : Capacities.Reservable { code := 3 } := by
    intro segment
    cases segment <;> rfl
  have positive : Capacities.Positive { code := 3 } := by
    intro segment
    cases segment <;> decide
  have ending : Machine.execute #[1, -9223372036854775808, 0] { code := 3 } =
      .ok (.int (-9223372036854775808)) := by
    have fits : (#[1, -9223372036854775808, 0] : Array Word).size ≤ 3 := Nat.le_refl 3
    rw [reservable.execute_eq fits, Machine.run_eq]
    change Machine.ending (Machine.run _ _) = _
    rw [Machine.run_eq]
    rfl
  have listing : Text.unlines ((Listing.ofWords [1, -9223372036854775808, 0]).map
      Listing.Entry.render) = "    0: LDC -9223372036854775808\n    2: HALT\n" := by cbv
  intro text words inv caps
  have asks : inv.Asks .assemble {} {} (.bytes inv.stdin) := ⟨request, rfl, rfl⟩
  have isText : Source.text (.bytes inv.stdin) = .ok text := Source.text_encodeUtf8 text
  obtain ⟨loads, answers⟩ := reads_what_is_printed
  obtain ⟨-, feeds⟩ := answers inv _ _ _ _ _ asks isText assembled
  have standsFor := feeds caps reservable positive (Nat.le_refl 3)
  obtain ⟨run, o, runs⟩ := standsFor.asked .run
  obtain ⟨success, output⟩ := (standsFor.result run o runs _).2 ending
  obtain ⟨list, o', lists⟩ := standsFor.asked .disassemble
  obtain ⟨success', output'⟩ := standsFor.listing list o' lists
  exact ⟨asks, isText, assembled, reservable, positive, Nat.le_refl 3,
    loads words 3 (Nat.le_refl 3) rfl, standsFor, ⟨run, o, runs, success, output⟩,
    list, o', lists, success', output'.trans listing⟩

end Invocation

end Cli

end Secd
