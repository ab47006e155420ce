import Secd.Listing
import Secd.Proofs.Assembling
import Secd.Proofs.Printing

/-!
Listings lose nothing. Whatever the words, the entries of their listing are those words again, piece
by piece. If all pieces are instructions, then the lines of the listing without their addresses are
source for the very same words; a line of data is source for nothing.

         words          1 7 99            6 5 8 0
         entries        LDC 7 │ .word 99  SEL 5 8 │ HALT
         source again   no                6 5 8 0
-/

namespace Secd

namespace Listing

/-! ### The entries of any words -/

/-- The entry is an instruction with all of its operands, or a single word of data. -/
def Entry.Whole (e : Entry) : Prop :=
  match e.op with
  | some op => e.operands.length = op.operandCount
  | none => e.operands.length = 1

/-- The entries are decoded from the words, one after the other, the first of them at an address. -/
inductive Lists : Nat → List Word → List Entry → Prop where
  | nil (address : Nat) : Lists address [] []
  | cons {address : Nat} {word : Word} {words rest : List Word} {e : Entry} {entries : List Entry}
      (decoded : decode address word words = (e, rest))
      (more : Lists (address + e.words.length) rest entries) :
      Lists address (word :: words) (e :: entries)

theorem exists_lists (listing : Array Entry) (address : Nat) (words : List Word) :
    ∃ entries, (entriesFrom listing address words).toList = listing.toList ++ entries ∧
      Lists address words entries := by
  fun_induction entriesFrom listing address words with
  | case1 listing address => exact ⟨[], (List.append_nil _).symm, .nil address⟩
  | case2 listing address word words decoded ih =>
    obtain ⟨entries, same, lists⟩ := ih
    refine ⟨decoded.1 :: entries, ?_, .cons rfl lists⟩
    rw [same, Array.toList_push, List.append_assoc, List.singleton_append]

theorem lists_ofWords (words : List Word) : Lists 0 words (ofWords words) := by
  obtain ⟨entries, same, lists⟩ := exists_lists #[] 0 words
  rw [ofWords, same]
  exact lists

/-- An entry is whole, has the address at which decoding began, and keeps the words it covers. -/
theorem decode_spec {address : Nat} {word : Word} {words rest : List Word} {e : Entry}
    (decoded : decode address word words = (e, rest)) :
    e.address = address ∧ e.Whole ∧ e.words ++ rest = word :: words := by
  rcases decode_cases address word words with h | ⟨op, operands, rest', rfl, rfl, length, h⟩
  · rw [h, Prod.mk.injEq] at decoded
    obtain ⟨rfl, rfl⟩ := decoded
    exact ⟨rfl, rfl, rfl⟩
  · rw [h, Prod.mk.injEq] at decoded
    obtain ⟨rfl, rfl⟩ := decoded
    exact ⟨rfl, length, rfl⟩

variable {address : Nat} {words : List Word} {entries : List Entry}

theorem Lists.flatMap_words (lists : Lists address words entries) :
    entries.flatMap Entry.words = words := by
  induction lists with
  | nil => rfl
  | cons decoded more ih => rw [List.flatMap_cons, ih, (decode_spec decoded).2.2]

theorem ofWords_eq_nil_iff : ofWords words = [] ↔ words = [] := by
  have lists := lists_ofWords words
  constructor
  · intro none
    rw [none] at lists
    exact lists.flatMap_words.symm
  · rintro rfl
    generalize ofWords [] = entries at lists
    cases lists
    rfl

theorem Lists.whole (lists : Lists address words entries) : ∀ e ∈ entries, e.Whole := by
  induction lists with
  | nil => exact List.forall_mem_nil _
  | cons decoded more ih => exact List.forall_mem_cons.2 ⟨(decode_spec decoded).2.1, ih⟩

/-- An entry stands behind the words of the entries before it. -/
theorem Lists.address_eq (lists : Lists address words entries) {front back : List Entry}
    {e : Entry} (parts : entries = front ++ e :: back) :
    e.address = address + (front.flatMap Entry.words).length := by
  induction lists generalizing front with
  | nil => simp at parts
  | cons decoded more ih =>
    cases front with
    | nil =>
      cases parts
      exact (decode_spec decoded).1
    | cons first front =>
      rw [List.cons_append, List.cons.injEq] at parts
      obtain ⟨rfl, parts⟩ := parts
      rw [ih parts, List.flatMap_cons, List.length_append, Nat.add_assoc]

/-! ### Lines without addresses -/

/-- What follows the first colon that has a blank behind it. -/
def afterColumn : List Char → List Char
  | [] => []
  | c :: cs => if c = ':' ∧ cs.head? = some ' ' then cs.tail else afterColumn cs

/-- The line of an entry without its address. -/
def Entry.source (e : Entry) : String := String.ofList (afterColumn e.render.toList)

/-- The listing as a text, without the column of addresses. -/
def source (words : List Word) : String := "\n".intercalate ((ofWords words).map Entry.source)

theorem afterColumn_append {column : List Char} (noColon : ':' ∉ column) (cs : List Char) :
    afterColumn (column ++ ':' :: ' ' :: cs) = cs := by
  induction column with
  | nil => simp [afterColumn]
  | cons c column ih =>
    rw [List.mem_cons, not_or] at noColon
    have other : c ≠ ':' := fun same => noColon.1 same.symm
    rw [List.cons_append, afterColumn, if_neg fun h => other h.1, ih noColon.2]

theorem colon_not_mem_column (width n : Nat) : ':' ∉ (Entry.column width n).toList := by
  rw [Entry.column, String.toList_ofList, List.leftpad]
  intro mem
  rcases List.mem_append.1 mem with blank | digit
  · exact absurd (List.eq_of_mem_replicate blank) (by decide)
  · exact absurd ((isDigits_repr n).2 ':' digit) (by decide)

theorem Entry.source_eq_body (e : Entry) : e.source = e.body := by
  have line : e.render = Entry.column 5 e.address ++ ": " ++ e.body := by
    unfold Entry.render
    rfl
  have chars : e.render.toList =
      (Entry.column 5 e.address).toList ++ ':' :: ' ' :: e.body.toList := by
    rw [line]
    simp
  rw [Entry.source, chars, afterColumn_append (colon_not_mem_column 5 e.address),
    String.ofList_toList]

/-- The pieces of text in the line of an entry. -/
def Entry.texts (e : Entry) : List (List Char) :=
  match e.op with
  | some op => op.mnemonic.toList :: e.operands.map fun w => w.render.toList
  | none => ".word".toList :: (e.operands.take 1).map fun w => w.render.toList

theorem Entry.toList_body (e : Entry) : e.body.toList = [' '].intercalate e.texts := by
  obtain ⟨address, _ | op, operands⟩ := e
  · rw [Entry.body, String.toList_intercalate, List.map_cons, List.map_map]
    rfl
  · rw [Entry.body, String.toList_intercalate, List.map_cons, List.map_map]
    rfl

/-- The character stands inside a field of source. -/
def Printed (c : Char) : Prop :=
  Assembly.isSeparator c = false ∧ c ≠ ':' ∧ c ≠ ';' ∧ c ≠ '#'

instance (c : Char) : Decidable (Printed c) :=
  inferInstanceAs (Decidable (Assembly.isSeparator c = false ∧ c ≠ ':' ∧ c ≠ ';' ∧ c ≠ '#'))

theorem printed_of_bounds {c : Char} (low : 45 ≤ c.toNat) (high : c.toNat ≤ 122)
    (noColon : c.toNat ≠ 58) (noSemicolon : c.toNat ≠ 59) : Printed c := by
  have other (d : Char) (differs : c.toNat ≠ d.toNat) : c ≠ d := fun same => differs (same ▸ rfl)
  have blank : Text.isBlank c = false := by
    simp [Text.isBlank, Text.blankRanges]
    omega
  refine ⟨?_, other ':' noColon, other ';' noSemicolon, other '#' ?_⟩
  · rw [Assembly.isSeparator, blank, Bool.false_or, beq_eq_false_iff_ne]
    refine other ',' ?_
    change c.toNat ≠ 44
    omega
  · change c.toNat ≠ 35
    omega

theorem printed_of_isDigit {c : Char} (digit : c.isDigit = true) : Printed c := by
  simp only [Char.isDigit, Bool.and_eq_true, decide_eq_true_eq, ge_iff_le,
    UInt32.le_iff_toNat_le] at digit
  change 48 ≤ c.toNat ∧ c.toNat ≤ 57 at digit
  apply printed_of_bounds <;> omega

theorem printed_of_isUpper {c : Char} (capital : c.isUpper = true) : Printed c := by
  simp only [Char.isUpper, decide_eq_true_eq, ge_iff_le, UInt32.le_iff_toNat_le] at capital
  change 65 ≤ c.toNat ∧ c.toNat ≤ 90 at capital
  apply printed_of_bounds <;> omega

theorem printed_render (w : Word) :
    w.render.toList ≠ [] ∧ ∀ c ∈ w.render.toList, Printed c := by
  obtain ⟨nonempty, chars⟩ := w.literal_render.chars
  refine ⟨nonempty, fun c mem => ?_⟩
  rcases chars c mem with rfl | rfl | digit
  · decide
  · decide
  · exact printed_of_isDigit digit

theorem Entry.printed_texts (e : Entry) :
    ∀ text ∈ e.texts, text ≠ [] ∧ ∀ c ∈ text, Printed c := by
  obtain ⟨address, _ | op, operands⟩ := e
  · refine List.forall_mem_cons.2 ⟨⟨by simp, ?_⟩, List.forall_mem_map.2 fun w _ => ?_⟩
    · have chars : ".word".toList = ['.', 'w', 'o', 'r', 'd'] := rfl
      rw [chars]
      simp only [List.forall_mem_cons]
      refine ⟨?_, ?_, ?_, ?_, ?_, List.forall_mem_nil _⟩ <;> apply printed_of_bounds <;> decide
    · exact printed_render w
  · refine List.forall_mem_cons.2 ⟨⟨?_, fun c mem => ?_⟩, List.forall_mem_map.2 fun w _ => ?_⟩
    · cases op <;> decide
    · exact printed_of_isUpper (Assembly.isUpper_of_mem_mnemonic op c mem)
    · exact printed_render w

/-- A line of a listing consists of its pieces of text and the blanks between them. -/
theorem Entry.fields_body (e : Entry) :
    Text.fields Assembly.isSeparator e.body.toList = e.texts := by
  rw [e.toList_body]
  refine Text.fields_intercalate (by decide) fun text mem => ?_
  obtain ⟨nonempty, printed⟩ := e.printed_texts text mem
  exact ⟨nonempty, fun c mem => (printed c mem).1⟩

theorem Entry.chars_body (e : Entry) : ∀ c ∈ e.body.toList, c = ' ' ∨ Printed c := by
  intro c mem
  rw [e.toList_body] at mem
  rcases Text.eq_or_mem_of_mem_intercalate mem with blank | ⟨text, among, here⟩
  · exact .inl blank
  · exact .inr ((e.printed_texts text among).2 c here)

variable {e : Entry}

theorem Entry.not_mem_body {c : Char} (notBlank : c ≠ ' ') (notPrinted : ¬ Printed c) (e : Entry) :
    c ∉ e.body.toList := fun mem => (e.chars_body c mem).elim notBlank notPrinted

/-! ### Lines that are source -/

open Assembly (Line Reads Cut Stands Contributes Encodes Valid assemble)

/-- An entry as a line of source. -/
def Entry.line (e : Entry) : Line where
  labels := []
  instruction := e.op.map fun op => ⟨op, e.operands.map fun w => w.render.toList⟩

theorem Entry.cut_body (e : Entry) : Cut e.body.toList e.body.toList := by
  refine ⟨[], (List.append_nil _).symm, fun c mem => ⟨?_, ?_⟩, nofun⟩
  · rintro rfl
    exact e.not_mem_body (by decide) (by decide) mem
  · rintro rfl
    exact e.not_mem_body (by decide) (by decide) mem

/-- The line of an instruction is source for that instruction. -/
theorem Entry.reads_body (whole : e.Whole) (isCode : e.op ≠ none) :
    Reads e.body.toList e.line := by
  have fields := Text.fields_eq_iff.1 e.fields_body
  obtain ⟨address, _ | op, operands⟩ := e
  · exact absurd rfl isCode
  · refine .instruction fields (Assembly.spells_iff.2 ?_) ?_
    · cases op <;> rfl
    · rw [List.length_map]
      exact whole

theorem Entry.contributes (isCode : e.op ≠ none) (lines : List Line) :
    Contributes lines e.line e.words := by
  obtain ⟨address, _ | op, operands⟩ := e
  · exact absurd rfl isCode
  · refine .instruction [] ?_
    rw [List.forall₂_map_left_iff, List.forall₂_same]
    exact fun w _ => .literal w.literal_render

/-- The name of data is no mnemonic. -/
theorem Entry.not_reads_body (isData : e.op = none) (line : Line) : ¬ Reads e.body.toList line := by
  intro reads
  have noColon : ':' ∉ e.body.toList := e.not_mem_body (by decide) (by decide)
  have fields := e.fields_body
  obtain ⟨address, op, operands⟩ := e
  subst isData
  generalize String.toList _ = body at *
  cases reads with
  | nothing separates =>
    rw [Text.fields_of_gap separates] at fields
    cases fields
  | instruction found spells count =>
    rw [found.fields_eq] at fields
    cases fields
    have spelled := Assembly.spells_iff.1 spells
    cases spelled
  | label => exact noColon (by simp)

theorem splitOn_source (words : List Word) (nonempty : words ≠ []) :
    (source words).toList.splitOn '\n' = (ofWords words).map fun e => e.body.toList := by
  have rows : (source words).toList =
      ['\n'].intercalate ((ofWords words).map fun e => e.body.toList) := by
    rw [source, String.toList_intercalate, List.map_map]
    simp only [Function.comp_def, Entry.source_eq_body]
    rfl
  rw [rows, List.splitOn_intercalate]
  · rw [List.forall_mem_map]
    exact fun e _ => e.not_mem_body (by decide) (by decide)
  · rwa [ne_eq, List.map_eq_nil_iff, ofWords_eq_nil_iff]

/-- A listing of nothing but instructions is source for its words. -/
theorem assemble_source (allCode : ∀ e ∈ ofWords words, e.op ≠ none) :
    assemble (source words) = .ok words := by
  by_cases empty : words = []
  · rw [source, ofWords_eq_nil_iff.2 empty, empty]
    rfl
  · have lists := lists_ofWords words
    let lines : List Line := (ofWords words).map Entry.line
    have encodes : Encodes lines words := by
      refine ⟨(ofWords words).map Entry.words, ?_, ?_⟩
      · rw [List.forall₂_map_left_iff, List.forall₂_map_right_iff, List.forall₂_same]
        exact fun e mem => e.contributes (allCode e mem) lines
      · rw [← List.flatMap_def, lists.flatMap_words]
    have valid : Valid (source words) lines := by
      refine ⟨?_, ?_, Assembly.exists_encodes_iff.1 ⟨words, encodes⟩⟩
      · rw [splitOn_source words empty, List.forall₂_map_left_iff, List.forall₂_map_right_iff,
          List.forall₂_same]
        exact fun e mem => ⟨_, e.cut_body, e.reads_body (lists.whole e mem) (allCode e mem)⟩
      · have none : lines.flatMap Line.labels = [] := by
          rw [List.flatMap_eq_nil_iff, List.forall_mem_map]
          exact fun e _ => rfl
        rw [none]
        exact List.nodup_nil
    exact Assembly.assemble_of_valid valid encodes

/-- A listing with a word of data is no source. -/
theorem assemble_source_ne_ok (mem : e ∈ ofWords words) (isData : e.op = none)
    (words' : List Word) : assemble (source words) ≠ .ok words' := by
  intro assembled
  have nonempty : words ≠ [] := by
    rw [ne_eq, ← ofWords_eq_nil_iff]
    exact List.ne_nil_of_mem mem
  obtain ⟨lines, valid, -⟩ := Assembly.exists_lines_of_assemble assembled
  have reads := valid.reads
  rw [splitOn_source words nonempty, List.forall₂_map_left_iff] at reads
  obtain ⟨line, -, body, cut, read⟩ := Assembly.exists_mem_left reads.flip e mem
  rw [← Assembly.uncomment_eq_iff.2 cut, Assembly.uncomment_eq_iff.2 e.cut_body] at read
  exact e.not_reads_body isData line read

/-- The entries of a listing are its words, each entry at the number of words before it; and the
lines without their addresses are source for the words if all of them are instructions, and for
nothing if one is not. -/
theorem lossless_and_reassembles (words : List Word) :
    ((ofWords words).flatMap Entry.words = words ∧ (∀ e ∈ ofWords words, e.Whole) ∧
      ∀ front e back, ofWords words = front ++ e :: back →
        e.address = (front.flatMap Entry.words).length) ∧
      ((∀ e ∈ ofWords words, e.op ≠ none) → assemble (source words) = .ok words) ∧
      ((∃ e ∈ ofWords words, e.op = none) → ∃ error, assemble (source words) = .error error) := by
  have lists := lists_ofWords words
  refine ⟨⟨lists.flatMap_words, lists.whole, fun front e back parts => ?_⟩, assemble_source, ?_⟩
  · rw [lists.address_eq parts, Nat.zero_add]
  · rintro ⟨e, mem, isData⟩
    cases assembled : assemble (source words) with
    | error error => exact ⟨error, rfl⟩
    | ok words' => exact absurd assembled (assemble_source_ne_ok mem isData words')

/-- A branch with both of its targets is source for itself; without the second one it is data. -/
theorem reassembles_unless_cut_short :
    assemble (source [6, 5, 8, 0]) = .ok [6, 5, 8, 0] ∧
      ofWords [6, 5] = [⟨0, none, [6]⟩, ⟨1, some .mul, []⟩] ∧
      ∃ error, assemble (source [6, 5]) = .error error := by
  have whole : ofWords [6, 5, 8, 0] = [⟨0, some .sel, [5, 8]⟩, ⟨3, some .halt, []⟩] := by cbv
  have cut : ofWords [6, 5] = [⟨0, none, [6]⟩, ⟨1, some .mul, []⟩] := by cbv
  refine ⟨(lossless_and_reassembles [6, 5, 8, 0]).2.1 ?_, cut, ?_⟩
  · rw [whole]
    decide
  · refine (lossless_and_reassembles [6, 5]).2.2 ⟨⟨0, none, [6]⟩, ?_, rfl⟩
    rw [cut]
    exact List.mem_cons_self

end Listing

end Secd
