import Mathlib.Data.List.Forall2
import Secd.Effect.Outcome
import Secd.Proofs.Statements

/-!
The assembler accepts exactly its language and encodes it as the grammar says. Lines are laid out
one after the other, so the layout covers one more of them at each step:

      lines laid out        lines left
      ├── covered ─────┤ line ├── … ──┤
                       └ address = extent of the covered lines

A layout that covers all lines knows what every operand stands for, and the second pass writes just
that. The first pass counts words that the second one has yet to write; that the two agree is what
makes the address of a label the place where the next instruction starts.
-/

namespace Secd.Assembly

open Effect (exists_ok_of_bind)

theorem mapM_eq_ok_iff {ε α β : Type} {f : α → Except ε β} {xs : List α} {ys : List β} :
    xs.mapM f = .ok ys ↔ List.Forall₂ (fun x y => f x = .ok y) xs ys := by
  induction xs generalizing ys with
  | nil => cases ys <;> simp [pure, Except.pure]
  | cons x xs ih =>
    rw [List.mapM_cons]
    constructor
    · intro h
      obtain ⟨y, first, h⟩ := exists_ok_of_bind h
      obtain ⟨ys, others, h⟩ := exists_ok_of_bind h
      cases h
      exact .cons first (ih.1 others)
    · intro h
      cases h with
      | cons first others =>
        rw [first, ih.2 others]
        rfl

theorem exists_forall₂_iff {α β : Type} {R : α → β → Prop} {xs : List α} :
    (∃ ys, List.Forall₂ R xs ys) ↔ ∀ x ∈ xs, ∃ y, R x y := by
  induction xs with
  | nil => simp
  | cons x xs ih =>
    rw [List.forall_mem_cons, ← ih]
    constructor
    · rintro ⟨_, _ | ⟨first, others⟩⟩
      exact ⟨⟨_, first⟩, _, others⟩
    · rintro ⟨⟨y, first⟩, ys, others⟩
      exact ⟨y :: ys, .cons first others⟩

theorem exists_mem_left {α β : Type} {R : α → β → Prop} {xs : List α} {ys : List β}
    (related : List.Forall₂ R xs ys) : ∀ y ∈ ys, ∃ x ∈ xs, R x y := by
  induction related with
  | nil => exact List.forall_mem_nil _
  | @cons x y xs ys first _ ih =>
    refine List.forall_mem_cons.2 ⟨⟨x, List.mem_cons_self, first⟩, fun z mem => ?_⟩
    obtain ⟨x', mem', h⟩ := ih z mem
    exact ⟨x', List.mem_cons_of_mem x mem', h⟩

/-! ### What is read -/

/-- The statement is read without error, and as the line. -/
def Means (s : Statement) (line : Line) : Prop :=
  s.labels = line.labels ∧ s.body = .ok line.instruction

instance (s : Statement) (line : Line) : Decidable (Means s line) :=
  inferInstanceAs (Decidable (s.labels = line.labels ∧ s.body = .ok line.instruction))

/-- No operand of the line contains a colon. -/
def Line.ColonFree (line : Line) : Prop :=
  ∀ i ∈ line.instruction, ∀ operand ∈ i.operands, ':' ∉ operand

theorem reads_of_means {number : Nat} {cs : List Char} {line : Line}
    (means : Means (Statement.ofLine number cs) line) : ∃ body, Cut cs body ∧ Reads body line := by
  obtain ⟨labels, body⟩ := means
  have reads := Statement.reads_of_ofLine body
  rwa [labels] at reads

theorem means_of_reads {cs : List Char} {line : Line} (number : Nat) (free : line.ColonFree)
    (reads : ∃ body, Cut cs body ∧ Reads body line) : Means (Statement.ofLine number cs) line := by
  rw [Statement.ofLine_of_reads number reads free]
  exact ⟨rfl, rfl⟩

theorem forall₂_reads {rows : List (List Char)} {number : Nat} {lines : List Line}
    (means : List.Forall₂ Means
      ((rows.zipIdx number).map fun (cs, line) => Statement.ofLine line cs) lines) :
    List.Forall₂ (fun cs line => ∃ body, Cut cs body ∧ Reads body line) rows lines := by
  induction rows generalizing number lines with
  | nil =>
    cases means
    exact .nil
  | cons cs rows ih =>
    rw [List.zipIdx_cons, List.map_cons] at means
    cases means with
    | cons first others => exact .cons (reads_of_means first) (ih others)

theorem forall₂_means {rows : List (List Char)} {lines : List Line} (number : Nat)
    (reads : List.Forall₂ (fun cs line => ∃ body, Cut cs body ∧ Reads body line) rows lines)
    (free : ∀ line ∈ lines, line.ColonFree) :
    List.Forall₂ Means ((rows.zipIdx number).map fun (cs, line) => Statement.ofLine line cs)
      lines := by
  induction reads generalizing number with
  | nil => exact .nil
  | cons first _ ih =>
    obtain ⟨here, free⟩ := List.forall_mem_cons.1 free
    rw [List.zipIdx_cons, List.map_cons]
    exact .cons (means_of_reads number here first) (ih (number + 1) free)

theorem Reads.labelName {cs : List Char} {line : Line} (reads : Reads cs line) :
    ∀ label ∈ line.labels, LabelName label := by
  induction reads with
  | nothing => exact List.forall_mem_nil _
  | instruction => exact List.forall_mem_nil _
  | label _ name _ _ ih => exact List.forall_mem_cons.2 ⟨name, ih⟩

/-- All labels that the lines define have the names of labels. -/
def NamesLabels (lines : List Line) : Prop :=
  ∀ line ∈ lines, ∀ label ∈ line.labels, LabelName label

theorem namesLabels_of_reads {rows : List (List Char)} {lines : List Line}
    (reads : List.Forall₂ (fun cs line => ∃ body, Cut cs body ∧ Reads body line) rows lines) :
    NamesLabels lines := by
  intro line mem
  obtain ⟨_, -, _, -, reads⟩ := exists_mem_left reads line mem
  exact reads.labelName

/-! ### Where labels are defined -/

theorem NamesLabels.of_places {lines : List Line} {label : Name} {address : Nat}
    (names : NamesLabels lines) (places : Places lines label address) : LabelName label := by
  obtain ⟨before, line, after, rfl, mem, -⟩ := places
  exact names line List.mem_append_cons_self label mem

theorem exists_places_iff {lines : List Line} {label : Name} :
    (∃ address, Places lines label address) ↔ label ∈ lines.flatMap Line.labels := by
  rw [List.mem_flatMap]
  constructor
  · rintro ⟨_, before, line, after, rfl, mem, rfl⟩
    exact ⟨line, List.mem_append_cons_self, mem⟩
  · rintro ⟨line, memLine, mem⟩
    obtain ⟨before, after, rfl⟩ := List.append_of_mem memLine
    exact ⟨extent before, before, line, after, rfl, mem, rfl⟩

theorem places_concat_iff {lines : List Line} {line : Line} {label : Name} {address : Nat} :
    Places (lines ++ [line]) label address ↔
      Places lines label address ∨ label ∈ line.labels ∧ address = extent lines := by
  constructor
  · rintro ⟨before, line', after, parts, mem, rfl⟩
    rcases List.eq_nil_or_concat after with rfl | ⟨after, last, rfl⟩
    · obtain ⟨rfl, same⟩ := List.append_inj' parts rfl
      cases same
      exact .inr ⟨mem, rfl⟩
    · rw [List.concat_eq_append, ← List.cons_append, ← List.append_assoc] at parts
      exact .inl ⟨before, line', after, (List.append_inj' parts rfl).1, mem, rfl⟩
  · rintro (⟨before, line', after, rfl, mem, rfl⟩ | ⟨mem, rfl⟩)
    · exact ⟨before, line', after ++ [line], by simp, mem, rfl⟩
    · exact ⟨lines, line, [], rfl, mem, rfl⟩

theorem extent_concat (lines : List Line) (line : Line) :
    extent (lines ++ [line]) = extent lines + line.size := by
  induction lines with
  | nil => exact Nat.add_comm _ _
  | cons first lines ih =>
    change first.size + extent (lines ++ [line]) = first.size + extent lines + line.size
    rw [ih, Nat.add_assoc]

/-! ### Defining labels -/

namespace Layout

variable {layout layout' : Layout} {label : Name} {labels : List Name}

/-- The layout in which a label stands for the address of the next instruction. -/
def mark (layout : Layout) (label : Name) : Layout :=
  { layout with labels := (label, layout.address) :: layout.labels }

theorem address?_mark (layout : Layout) (label name : Name) :
    (layout.mark label).address? name =
      if name = label then some layout.address else layout.address? name := by
  rw [address?, mark, List.lookup_cons]
  by_cases same : name = label
  · rw [if_pos same, same, beq_self_eq_true]
  · rw [if_neg same, beq_false_of_ne same]
    rfl

/-- Names are fresh after one of them is marked if they were before, and are all others. -/
theorem fresh_mark_iff :
    (∀ name ∈ labels, (layout.mark label).address? name = none) ↔
      label ∉ labels ∧ ∀ name ∈ labels, layout.address? name = none := by
  simp only [address?_mark]
  constructor
  · intro fresh
    refine ⟨fun mem => ?_, fun name mem => ?_⟩
    · have marked := fresh label mem
      rw [if_pos rfl] at marked
      cases marked
    · have unmarked := fresh name mem
      split at unmarked
      · cases unmarked
      · exact unmarked
  · rintro ⟨other, fresh⟩ name mem
    rw [if_neg (ne_of_mem_of_not_mem mem other)]
    exact fresh name mem

theorem address_marks (layout : Layout) (labels : List Name) :
    (labels.foldl mark layout).address = layout.address := by
  induction labels generalizing layout with
  | nil => rfl
  | cons label labels ih => exact ih (layout.mark label)

theorem address?_marks (layout : Layout) (labels : List Name) (name : Name) :
    (labels.foldl mark layout).address? name =
      if name ∈ labels then some layout.address else layout.address? name := by
  induction labels generalizing layout with
  | nil => rfl
  | cons label labels ih =>
    rw [List.foldl_cons, ih, address?_mark, mark]
    by_cases later : name ∈ labels
    · rw [if_pos later, if_pos (List.mem_cons_of_mem _ later)]
    · by_cases here : name = label <;> simp [later, here]

theorem foldlM_define_eq_ok_iff {number : Nat} :
    labels.foldlM (define number) layout = .ok layout' ↔
      (labels.Nodup ∧ ∀ label ∈ labels, layout.address? label = none) ∧
        layout' = labels.foldl mark layout := by
  induction labels generalizing layout with
  | nil =>
    simp [pure, Except.pure, eq_comm]
  | cons label labels ih =>
    rw [List.foldlM_cons, define]
    cases known : layout.address? label with
    | some address =>
      refine iff_of_false nofun ?_
      rintro ⟨⟨-, fresh⟩, -⟩
      rw [fresh label List.mem_cons_self] at known
      cases known
    | none =>
      change labels.foldlM (define number) (layout.mark label) = _ ↔ _
      rw [ih, fresh_mark_iff, List.foldl_cons, List.nodup_cons, List.forall_mem_cons]
      tauto

/-! ### Layouts that cover lines -/

/-- The layout is that of the lines, none of which defines a label that is defined already. -/
structure Covers (layout : Layout) (lines : List Line) : Prop where
  address : layout.address = extent lines
  labels : ∀ label address, layout.address? label = some address ↔ Places lines label address
  unique : (lines.flatMap Line.labels).Nodup

theorem covers_empty : empty.Covers [] where
  address := rfl
  labels := by
    refine fun label address => iff_of_false nofun ?_
    rintro ⟨before, line, after, parts, -, -⟩
    simp at parts
  unique := List.nodup_nil

variable {s : Statement} {line : Line} {lines : List Line}

theorem Covers.fresh_iff (covers : layout.Covers lines) :
    layout.address? label = none ↔ label ∉ lines.flatMap Line.labels := by
  rw [← exists_places_iff, not_exists, Option.eq_none_iff_forall_ne_some]
  exact forall_congr' fun address => not_congr (covers.labels label address)

theorem place_eq_map (means : Means s line) :
    place layout s = (line.labels.foldlM (define s.line) layout).map
      fun marked => { marked with address := marked.address + line.size } := by
  obtain ⟨sameLabels, sameBody⟩ := means
  obtain ⟨labels, instruction⟩ := line
  rw [place, sameLabels, sameBody]
  cases instruction <;> cases labels.foldlM (define s.line) layout <;> rfl

theorem place_eq_ok_iff (means : Means s line) :
    place layout s = .ok layout' ↔
      (line.labels.Nodup ∧ ∀ label ∈ line.labels, layout.address? label = none) ∧
        layout' = { line.labels.foldl mark layout with address := layout.address + line.size } := by
  rw [place_eq_map means, map_eq_ok_iff]
  simp only [foldlM_define_eq_ok_iff]
  constructor
  · rintro ⟨_, ⟨fresh, rfl⟩, rfl⟩
    rw [address_marks]
    exact ⟨fresh, rfl⟩
  · rintro ⟨fresh, rfl⟩
    refine ⟨_, ⟨fresh, rfl⟩, ?_⟩
    rw [address_marks]

theorem exists_means_of_place (h : layout.place s = .ok layout') : ∃ line, Means s line := by
  obtain ⟨marked, -, h⟩ := exists_ok_of_bind h
  cases body : s.body with
  | error problem =>
    rw [body] at h
    cases h
  | ok instruction => exact ⟨⟨s.labels, instruction⟩, rfl, body⟩

/-- The labels of one more line can be defined if no label is defined twice. -/
theorem Covers.nodup_concat_iff (covers : layout.Covers lines) :
    ((lines ++ [line]).flatMap Line.labels).Nodup ↔
      line.labels.Nodup ∧ ∀ label ∈ line.labels, layout.address? label = none := by
  simp only [covers.fresh_iff, List.flatMap_append, List.flatMap_singleton, List.nodup_append]
  constructor
  · rintro ⟨-, nodup, apart⟩
    exact ⟨nodup, fun label mem earlier => apart label earlier label mem rfl⟩
  · rintro ⟨nodup, fresh⟩
    refine ⟨covers.unique, nodup, fun label earlier other mem same => ?_⟩
    exact fresh other mem (same ▸ earlier)

/-- Laying out one more line keeps the layout that of the lines. -/
theorem Covers.place (covers : layout.Covers lines) (means : Means s line)
    (h : layout.place s = .ok layout') : layout'.Covers (lines ++ [line]) := by
  obtain ⟨fresh, rfl⟩ := (place_eq_ok_iff means).1 h
  refine ⟨?_, fun label address => ?_, covers.nodup_concat_iff.2 fresh⟩
  · rw [extent_concat, ← covers.address]
  · -- a label is defined here or before, never both, so the order of definitions does not matter
    change (line.labels.foldl mark layout).address? label = some address ↔ _
    rw [address?_marks, places_concat_iff, ← covers.labels, covers.address]
    by_cases mem : label ∈ line.labels
    · simp [mem, fresh.2 label mem, eq_comm]
    · simp [mem]

theorem Covers.exists_place (covers : layout.Covers lines) (means : Means s line)
    (unique : ((lines ++ [line]).flatMap Line.labels).Nodup) :
    ∃ layout', layout.place s = .ok layout' :=
  ⟨_, (place_eq_ok_iff means).2 ⟨covers.nodup_concat_iff.1 unique, rfl⟩⟩

/-- Laying out a text takes lines without errors, and ends with the layout of them all. -/
theorem Covers.run {statements : List Statement} (covers : layout.Covers lines)
    (h : statements.foldlM Layout.place layout = .ok layout') :
    ∃ more, List.Forall₂ Means statements more ∧ layout'.Covers (lines ++ more) := by
  induction statements generalizing layout lines with
  | nil =>
    cases h
    exact ⟨[], .nil, by rwa [List.append_nil]⟩
  | cons s statements ih =>
    rw [List.foldlM_cons] at h
    obtain ⟨next, placed, h⟩ := exists_ok_of_bind h
    obtain ⟨line, means⟩ := exists_means_of_place placed
    obtain ⟨more, others, covers⟩ := ih (covers.place means placed) h
    rw [List.append_assoc] at covers
    exact ⟨line :: more, .cons means others, covers⟩

theorem Covers.exists_run {statements : List Statement} {more : List Line}
    (covers : layout.Covers lines) (means : List.Forall₂ Means statements more)
    (unique : ((lines ++ more).flatMap Line.labels).Nodup) :
    ∃ layout', statements.foldlM Layout.place layout = .ok layout' ∧
      layout'.Covers (lines ++ more) := by
  induction means generalizing layout lines with
  | nil => exact ⟨layout, rfl, by rwa [List.append_nil]⟩
  | @cons s line statements more means _ ih =>
    -- the next line joins those that are laid out
    rw [List.append_cons] at unique ⊢
    have first : ((lines ++ [line]).flatMap Line.labels).Nodup := by
      rw [List.flatMap_append] at unique
      exact unique.of_append_left
    obtain ⟨next, placed⟩ := covers.exists_place means first
    obtain ⟨layout', h, covers⟩ := ih (covers.place means placed) unique
    refine ⟨layout', ?_, covers⟩
    rw [List.foldlM_cons, placed]
    exact h

/-! ### Words -/

theorem Covers.resolve_eq_ok_iff {number : Nat} {operand : Name} {word : Word}
    (covers : layout.Covers lines)
    (names : NamesLabels lines) :
    layout.resolve number operand = .ok word ↔ Stands lines operand word := by
  unfold resolve
  constructor
  · intro h
    split at h
    · rename_i parsed
      cases h
      exact .literal (Word.parse_eq_ok_iff.1 parsed)
    · split at h
      · rename_i known
        cases h
        exact .label ((covers.labels _ _).1 known)
      · cases h
  · intro stands
    cases stands with
    | literal literal => rw [Word.parse_eq_ok_iff.2 literal]
    | label places =>
      -- numerals are tried first, which keeps no label from being found
      cases parsed : Word.parse operand with
      | ok value =>
        exact absurd (Word.parse_eq_ok_iff.1 parsed) (names.of_places places).not_literal
      | error problem => simp only [(covers.labels _ _).2 places]

theorem Covers.encode_eq_ok_iff {words : List Word} (covers : layout.Covers lines)
    (names : NamesLabels lines) (means : Means s line) :
    layout.encode s = .ok words ↔ Contributes lines line words := by
  obtain ⟨labels, instruction⟩ := line
  unfold encode
  rw [means.2]
  cases instruction with
  | none =>
    constructor
    · rintro ⟨⟩
      exact .nothing labels
    · rintro ⟨⟩
      rfl
  | some i =>
    obtain ⟨op, operands⟩ := i
    constructor
    · intro h
      obtain ⟨values, resolved, h⟩ := exists_ok_of_bind h
      cases h
      refine .instruction labels ((mapM_eq_ok_iff.1 resolved).imp fun operand value => ?_)
      exact (covers.resolve_eq_ok_iff names).1
    · rintro ⟨⟩
      rename_i values stand
      have resolved : operands.mapM (layout.resolve s.line) = .ok values :=
        mapM_eq_ok_iff.2 (stand.imp fun operand value => (covers.resolve_eq_ok_iff names).2)
      simp only [resolved]
      rfl

/-- The second pass writes the words of the lines, and nothing else. -/
theorem Covers.mapM_encode_eq_ok_iff {statements : List Statement} {part : List Line}
    {pieces : List (List Word)} (covers : layout.Covers lines)
    (names : NamesLabels lines)
    (means : List.Forall₂ Means statements part) :
    statements.mapM layout.encode = .ok pieces ↔
      List.Forall₂ (Contributes lines) part pieces := by
  rw [mapM_eq_ok_iff]
  induction means generalizing pieces with
  | nil => cases pieces <;> simp
  | cons first _ ih =>
    cases pieces with
    | nil => simp
    | cons piece pieces =>
      rw [List.forall₂_cons, List.forall₂_cons, ih, covers.encode_eq_ok_iff names first]

end Layout

/-! ### The language -/

theorem Stands.colon_not_mem {lines : List Line} {operand : Name} {word : Word}
    (stands : Stands lines operand word)
    (names : NamesLabels lines) : ':' ∉ operand := by
  cases stands with
  | literal literal => exact colon_not_mem_of_literal literal
  | label places => exact (names.of_places places).colon_not_mem

theorem Contributes.length_eq {lines : List Line} {line : Line} {words : List Word}
    (contributes : Contributes lines line words) : words.length = line.size := by
  cases contributes with
  | nothing => rfl
  | instruction labels stand =>
    change _ + 1 = 1 + _
    rw [stand.length_eq, Nat.add_comm]

theorem exists_contributes_iff {lines : List Line} {line : Line} :
    (∃ words, Contributes lines line words) ↔
      ∀ i ∈ line.instruction, ∀ operand ∈ i.operands, ∃ word, Stands lines operand word := by
  constructor
  · rintro ⟨_, _ | @⟨op, operands, values, labels, stand⟩⟩
    · exact nofun
    · rintro _ ⟨⟩
      exact exists_forall₂_iff.1 ⟨values, stand⟩
  · intro h
    obtain ⟨labels, _ | ⟨op, operands⟩⟩ := line
    · exact ⟨[], .nothing labels⟩
    · obtain ⟨values, stand⟩ := exists_forall₂_iff.2 (h _ rfl)
      exact ⟨op.word :: values, .instruction labels stand⟩

theorem emits_cons_iff {lines part : List Line} {line : Line} {words : List Word} :
    Emits lines (line :: part) words ↔
      ∃ piece rest, words = piece ++ rest ∧ Contributes lines line piece ∧
        Emits lines part rest := by
  constructor
  · rintro ⟨_, contribute, rfl⟩
    cases contribute with
    | cons first others => exact ⟨_, _, rfl, first, _, others, rfl⟩
  · rintro ⟨piece, _, rfl, first, pieces, others, rfl⟩
    exact ⟨piece :: pieces, .cons first others, rfl⟩

/-- Where a part of the lines ends, the words that it contributes end. -/
theorem Emits.split {lines before after : List Line} {words : List Word}
    (emits : Emits lines (before ++ after) words) :
    ∃ front back, words = front ++ back ∧ front.length = extent before ∧
      Emits lines before front ∧ Emits lines after back := by
  induction before generalizing words with
  | nil => exact ⟨[], words, rfl, rfl, ⟨[], .nil, rfl⟩, emits⟩
  | cons line before ih =>
    obtain ⟨piece, rest, rfl, first, more⟩ := emits_cons_iff.1 emits
    obtain ⟨front, back, rfl, length, here, there⟩ := ih more
    refine ⟨piece ++ front, back, (List.append_assoc ..).symm, ?_, ?_, there⟩
    · rw [List.length_append, length, first.length_eq]
      rfl
    · exact emits_cons_iff.2 ⟨piece, front, rfl, first, here⟩

variable {text : String} {lines : List Line} {words : List Word}

theorem exists_encodes_iff :
    (∃ words, Encodes lines words) ↔ ∀ line ∈ lines, ∀ i ∈ line.instruction,
      ∀ operand ∈ i.operands, ∃ word, Stands lines operand word := by
  simp only [← exists_contributes_iff]
  rw [← exists_forall₂_iff]
  constructor
  · rintro ⟨_, pieces, contribute, -⟩
    exact ⟨pieces, contribute⟩
  · rintro ⟨pieces, contribute⟩
    exact ⟨pieces.flatten, pieces, contribute, rfl⟩

theorem exists_lines_of_assemble (h : assemble text = .ok words) :
    ∃ lines, Valid text lines ∧ Encodes lines words := by
  obtain ⟨layout, laid, h⟩ := exists_ok_of_bind h
  obtain ⟨pieces, written, h⟩ := exists_ok_of_bind h
  cases h
  obtain ⟨lines, means, covers⟩ := Layout.covers_empty.run laid
  rw [List.nil_append] at covers
  have reads := forall₂_reads means
  have contribute := (covers.mapM_encode_eq_ok_iff (namesLabels_of_reads reads) means).1 written
  have encodes : Encodes lines pieces.flatten := ⟨pieces, contribute, rfl⟩
  exact ⟨lines, ⟨reads, covers.unique, exists_encodes_iff.1 ⟨_, encodes⟩⟩, encodes⟩

theorem Valid.names (valid : Valid text lines) : NamesLabels lines :=
  namesLabels_of_reads valid.reads

/-- The lines of a text in the language are what the reader takes them for. -/
theorem Valid.means (valid : Valid text lines) :
    List.Forall₂ Means (Statement.ofText text.toList) lines := by
  have free : ∀ line ∈ lines, line.ColonFree := by
    intro line mem i isInstruction operand isOperand
    obtain ⟨word, stands⟩ := valid.operands line mem i isInstruction operand isOperand
    exact stands.colon_not_mem valid.names
  exact forall₂_means 1 valid.reads free

theorem assemble_of_valid (valid : Valid text lines) (encodes : Encodes lines words) :
    assemble text = .ok words := by
  obtain ⟨pieces, contribute, rfl⟩ := encodes
  obtain ⟨layout, laid, covers⟩ := Layout.covers_empty.exists_run valid.means valid.unique
  have written := (covers.mapM_encode_eq_ok_iff valid.names valid.means).2 contribute
  change (Layout.ofStatements (Statement.ofText text.toList) >>= fun layout =>
    (Statement.ofText text.toList).mapM layout.encode >>= fun pieces => pure pieces.flatten) = _
  rw [show Layout.ofStatements (Statement.ofText text.toList) = .ok layout from laid]
  change ((Statement.ofText text.toList).mapM layout.encode >>= fun pieces =>
    pure pieces.flatten) = _
  rw [show (Statement.ofText text.toList).mapM layout.encode = .ok pieces from written]
  rfl

/-- The assembler accepts exactly the texts of the language, and encodes them line by line; the
address of a label is the number of words before the line that defines it. -/
theorem accepts_and_encodes_language (text : String) :
    ((∃ words, assemble text = .ok words) ↔ ∃ lines, Valid text lines) ∧
      (∀ words, assemble text = .ok words ↔ ∃ lines, Valid text lines ∧ Encodes lines words) ∧
      ∀ lines words label address, Encodes lines words → Places lines label address →
        ∃ before line after front back, lines = before ++ line :: after ∧ label ∈ line.labels ∧
          words = front ++ back ∧ front.length = address ∧ Emits lines before front ∧
            Emits lines (line :: after) back := by
  refine ⟨⟨?_, ?_⟩, fun words => ⟨exists_lines_of_assemble, ?_⟩, ?_⟩
  · rintro ⟨words, h⟩
    obtain ⟨lines, valid, -⟩ := exists_lines_of_assemble h
    exact ⟨lines, valid⟩
  · rintro ⟨lines, valid⟩
    obtain ⟨words, encodes⟩ := exists_encodes_iff.2 valid.operands
    exact ⟨words, assemble_of_valid valid encodes⟩
  · rintro ⟨lines, valid, encodes⟩
    exact assemble_of_valid valid encodes
  · rintro lines words label _ encodes ⟨before, line, after, rfl, mem, rfl⟩
    obtain ⟨front, back, rfl, length, here, there⟩ := encodes.split
    exact ⟨before, line, after, front, back, rfl, mem, rfl, length, here, there⟩

/-- Both labels are used before they are defined, and the last one is defined behind all code. -/
theorem accepts_labels_ahead :
    (∃ lines, Valid "sel one, end\none: LDC +1 ; 1\nend:" lines ∧
      Encodes lines [6, 3, 5, 1, 1]) ∧
      ∃ lines, Encodes lines [6, 3, 5, 1, 1] ∧ Places lines "end".toList 5 ∧
        ∃ before line after front back, lines = before ++ line :: after ∧
          "end".toList ∈ line.labels ∧ [6, 3, 5, 1, 1] = front ++ back ∧ front.length = 5 ∧
            Emits lines before front ∧ Emits lines (line :: after) back := by
  have exact := accepts_and_encodes_language "sel one, end\none: LDC +1 ; 1\nend:"
  refine ⟨(exact.2.1 _).1 rfl, ?_⟩
  let lines : List Line := [⟨[], some ⟨.sel, ["one".toList, "end".toList]⟩⟩,
    ⟨["one".toList], some ⟨.ldc, [['+', '1']]⟩⟩, ⟨["end".toList], none⟩]
  have one : Places lines "one".toList 3 :=
    ⟨lines.take 1, _, lines.drop 2, rfl, List.mem_singleton_self _, rfl⟩
  have last : Places lines "end".toList 5 :=
    ⟨lines.take 2, _, [], rfl, List.mem_singleton_self _, rfl⟩
  have encodes : Encodes lines [6, 3, 5, 1, 1] := by
    refine ⟨[[6, 3, 5], [1, 1], []], .cons ?_ (.cons ?_ (.cons ?_ .nil)), rfl⟩
    · exact .instruction [] (.cons (.label one) (.cons (.label last) .nil))
    · have literal : Literal ['+', '1'] 1 := .plus (List.cons_ne_nil _ _) (List.all_eq_true.1 rfl)
      exact .instruction _ (.cons (.literal literal) .nil)
    · exact .nothing _
  exact ⟨lines, encodes, last, exact.2.2 _ _ _ _ encodes last⟩

end Secd.Assembly
