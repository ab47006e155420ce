import Mathlib
import Secd.Proofs.Grammar

/-!
Lines are read as the grammar says. The reader cuts a line at every colon at once, takes the pieces
before the last one as labels and looks for an instruction in the last piece; the grammar takes off
one label after the other. Both come to the same, as nothing that can stand between two colons of a
line in the language, or after the last one, contains a colon itself.
-/

namespace Secd.Assembly

/-! ### Names -/

theorem isLabelStart_iff {c : Char} : isLabelStart c = true ↔ LabelStart c := by
  simp only [isLabelStart, LabelStart, Char.isAlpha, Char.isUpper, Char.isLower, Bool.or_eq_true,
    Bool.and_eq_true, decide_eq_true_eq, beq_iff_eq, ge_iff_le, Char.le_def, or_assoc]

theorem isLabelPart_iff {c : Char} : isLabelPart c = true ↔ LabelPart c := by
  simp only [isLabelPart, LabelPart, LabelStart, Char.isAlphanum, Char.isAlpha, Char.isUpper,
    Char.isLower, Char.isDigit, Bool.or_eq_true, Bool.and_eq_true, decide_eq_true_eq, beq_iff_eq,
    ge_iff_le, Char.le_def]
  tauto

theorem isLabel_iff {name : Name} : isLabel name = true ↔ LabelName name := by
  cases name with
  | nil => exact iff_of_false nofun nofun
  | cons c cs =>
    simp only [isLabel, Bool.and_eq_true, List.all_eq_true, isLabelStart_iff, isLabelPart_iff]
    constructor
    · rintro ⟨first, others⟩
      exact .intro first others
    · rintro ⟨first, others⟩
      exact ⟨first, others⟩

theorem LabelName.parts {name : Name} (isName : LabelName name) : ∀ c ∈ name, LabelPart c := by
  obtain ⟨first, others⟩ := isName
  exact List.forall_mem_cons.2 ⟨.inl first, others⟩

theorem LabelStart.bounds {c : Char} (start : LabelStart c) : 65 ≤ c.toNat ∧ c.toNat ≤ 122 := by
  simp only [LabelStart, Char.le_def, UInt32.le_iff_toNat_le] at start
  change (65 ≤ c.toNat ∧ c.toNat ≤ 90) ∨ (97 ≤ c.toNat ∧ c.toNat ≤ 122) ∨ c = '_' at start
  rcases start with capital | small | rfl
  · omega
  · omega
  · decide

theorem LabelPart.bounds {c : Char} (part : LabelPart c) :
    46 ≤ c.toNat ∧ c.toNat ≤ 122 ∧ c.toNat ≠ 58 := by
  simp only [LabelPart, Char.le_def, UInt32.le_iff_toNat_le] at part
  change LabelStart c ∨ (48 ≤ c.toNat ∧ c.toNat ≤ 57) ∨ c = '.' at part
  rcases part with start | digit | rfl
  · have bounds := start.bounds
    omega
  · omega
  · decide

theorem LabelPart.not_blank {c : Char} (part : LabelPart c) : Text.isBlank c = false := by
  have bounds := part.bounds
  simp [Text.isBlank, Text.blankRanges]
  omega

theorem LabelPart.ne_colon {c : Char} (part : LabelPart c) : c ≠ ':' := by
  rintro rfl
  exact part.bounds.2.2 rfl

theorem LabelName.colon_not_mem {name : Name} (isName : LabelName name) : ':' ∉ name :=
  fun mem => (isName.parts ':' mem).ne_colon rfl

/-! ### Mnemonics -/

theorem toUpper_eq_iff {c capital : Char} (isCapital : capital.isUpper = true) :
    c.toUpper = capital ↔ c = capital ∨ c = capital.toLower := by
  constructor
  · rintro rfl
    cases small : c.isLower with
    | false =>
      left
      exact (Char.toUpper_eq_of_not_isLower (by rw [small]; exact Bool.false_ne_true)).symm
    | true =>
      right
      rw [Char.toLower_toUpper_eq_toLower]
      exact (Char.toLower_eq_of_not_isUpper (Char.not_isUpper_of_isLower small)).symm
  · have same : capital.toUpper = capital :=
      Char.toUpper_eq_of_not_isLower (Char.not_isLower_of_isUpper isCapital)
    rintro (rfl | rfl)
    · exact same
    · rw [Char.toUpper_toLower_eq_toUpper, same]

theorem upper_eq_iff {name capitals : Name} (areCapitals : ∀ c ∈ capitals, c.isUpper = true) :
    Text.upper name = capitals ↔
      List.Forall₂ (fun c capital => c = capital ∨ c = capital.toLower) name capitals := by
  induction capitals generalizing name with
  | nil => simp [Text.upper]
  | cons capital capitals ih =>
    obtain ⟨isCapital, areCapitals⟩ := List.forall_mem_cons.1 areCapitals
    cases name with
    | nil => simp [Text.upper]
    | cons c name =>
      rw [List.forall₂_cons, ← ih areCapitals, ← toUpper_eq_iff isCapital]
      exact List.cons_eq_cons

theorem isUpper_of_mem_mnemonic (op : Opcode) : ∀ c ∈ op.mnemonic.toList, c.isUpper = true := by
  rw [← List.all_eq_true]
  cases op <;> rfl

theorem spells_iff {name : Name} {op : Opcode} :
    Spells name op ↔ Opcode.ofMnemonic? name = some op := by
  rw [Spells, ← upper_eq_iff (isUpper_of_mem_mnemonic op)]
  constructor
  · intro same
    rw [Opcode.ofMnemonic?, same]
    cases op <;> rfl
  · intro found
    have same := List.find?_some found
    exact (beq_iff_eq.1 same).symm

/-! ### Comments -/

theorem uncomment_eq_iff {cs body : List Char} : uncomment cs = body ↔ Cut cs body := by
  let keep (c : Char) : Bool := c != ';' && c != '#'
  have kept (c : Char) : keep c = true ↔ c ≠ ';' ∧ c ≠ '#' := by simp [keep]
  change cs.takeWhile keep = body ↔ _
  constructor
  · rintro rfl
    refine ⟨cs.dropWhile keep, List.takeWhile_append_dropWhile.symm, ?_, ?_⟩
    · exact fun c mem => (kept c).1 (List.mem_takeWhile_imp mem)
    · intro c head
      have dropped := List.head?_dropWhile_not keep cs
      rw [Option.mem_def.1 head] at dropped
      simpa [keep, or_iff_not_imp_left] using dropped
  · rintro ⟨comment, rfl, free, head⟩
    rw [List.takeWhile_append_of_pos fun c mem => (kept c).2 (free c mem)]
    cases comment with
    | nil => exact List.append_nil body
    | cons c comment =>
      have dropped : ¬ keep c = true := by
        rw [kept, not_and_or, not_not, not_not]
        exact head c rfl
      rw [List.takeWhile_cons_of_neg dropped, List.append_nil]

/-! ### Labels -/

namespace Statement

/-- Reads a line that has no comment. -/
def ofBody (line : Nat) (cs : List Char) : Statement :=
  let pieces := cs.splitOn ':'
  let (labels, others) := (pieces.dropLast.map Text.trim).span isLabel
  match others with
  | [] => ⟨line, labels, parseInstruction (pieces.getLastD [])⟩
  | label :: _ => ⟨line, labels, .error (.invalidLabel label)⟩

theorem ofLine_eq_ofBody (line : Nat) (cs : List Char) :
    ofLine line cs = ofBody line (uncomment cs) := rfl

theorem ofBody_of_not_mem (line : Nat) {cs : List Char} (noColon : ':' ∉ cs) :
    ofBody line cs = ⟨line, [], parseInstruction cs⟩ := by
  rw [ofBody, List.splitOn_eq_singleton noColon]
  rfl

/-- The first colon of a line ends its first label. -/
theorem ofBody_colon (line : Nat) {front rest : List Char} (noColon : ':' ∉ front) :
    ofBody line (front ++ ':' :: rest) =
      if isLabel (Text.trim front) then
        { ofBody line rest with labels := Text.trim front :: (ofBody line rest).labels }
      else ⟨line, [], .error (.invalidLabel (Text.trim front))⟩ := by
  have cut : (front ++ ':' :: rest).splitOn ':' = front :: rest.splitOn ':' :=
    List.splitOn_append_cons_self_of_not_mem noColon rest
  obtain ⟨piece, pieces, more⟩ := List.exists_cons_of_ne_nil (List.splitOn_ne_nil ':' rest)
  simp only [ofBody, cut, more, List.dropLast_cons_cons, List.map_cons,
    List.span_eq_takeWhile_dropWhile, List.getLastD_cons]
  by_cases label : isLabel (Text.trim front) = true
  · rw [List.takeWhile_cons_of_pos label, List.dropWhile_cons_of_pos label, if_pos label]
    cases ((piece :: pieces).dropLast.map Text.trim).dropWhile isLabel <;> rfl
  · rw [List.takeWhile_cons_of_neg label, List.dropWhile_cons_of_neg label, if_neg label]

end Statement

/-! ### Instructions -/

theorem parseInstruction_eq_ok_iff {cs : List Char} {i : Option (Instruction Name)} :
    parseInstruction cs = .ok i ↔ Reads cs ⟨[], i⟩ := by
  constructor
  · intro parsed
    unfold parseInstruction at parsed
    split at parsed
    · rename_i fields
      cases parsed
      cases Text.fields_eq_iff.1 fields with
      | nil separates => exact .nothing separates
    · rename_i mnemonic operands fields
      split at parsed
      · cases parsed
      · rename_i op spelled
        split at parsed
        · rename_i count
          cases parsed
          exact .instruction (Text.fields_eq_iff.1 fields) (spells_iff.2 spelled) count
        · cases parsed
  · intro reads
    unfold parseInstruction
    cases reads with
    | nothing separates => rw [Text.fields_of_gap separates]
    | instruction fields spells count =>
      simp only [fields.fields_eq, spells_iff.1 spells, if_pos count]

theorem colon_not_mem_of_fields {cs : List Char} {found : List Name}
    (fields : Text.Fields isSeparator cs found) (free : ∀ field ∈ found, ':' ∉ field) :
    ':' ∉ cs := by
  have solid : ¬ isSeparator ':' = true := by decide
  induction fields with
  | nil separates => exact fun mem => solid (separates ':' mem)
  | cons separates nonempty _ apart more ih =>
    obtain ⟨here, free⟩ := List.forall_mem_cons.1 free
    simp only [List.mem_append, not_or]
    exact ⟨⟨fun mem => solid (separates ':' mem), here⟩, ih free⟩

theorem Spells.colon_not_mem {name : Name} {op : Opcode} (spells : Spells name op) :
    ':' ∉ name := by
  have capitals := isUpper_of_mem_mnemonic op
  rw [← (upper_eq_iff capitals).2 spells] at capitals
  intro mem
  exact absurd (capitals _ (List.mem_map_of_mem mem)) (by decide)

/-! ### Lines -/

namespace Statement

theorem reads_of_ofBody {line : Nat} {cs : List Char} {i : Option (Instruction Name)}
    (h : (ofBody line cs).body = .ok i) : Reads cs ⟨(ofBody line cs).labels, i⟩ := by
  by_cases colon : ':' ∈ cs
  · -- the first colon ends the first label, and the rest is read in the same way
    obtain ⟨front, rest, parts, noColon⟩ := List.eq_append_cons_of_mem colon
    have shorter : rest.length < cs.length := by
      rw [parts, List.length_append, List.length_cons]
      omega
    rw [parts, ofBody_colon line noColon] at h ⊢
    split at h
    · rename_i label
      obtain ⟨before, after, padded, blank, blank'⟩ := Text.exists_padding front
      rw [if_pos label]
      have more : Reads rest ⟨(ofBody line rest).labels, i⟩ := reads_of_ofBody h
      have reads := Reads.label blank (isLabel_iff.1 label) blank' more
      rwa [← padded] at reads
    · cases h
  · rw [ofBody_of_not_mem line colon] at h ⊢
    exact parseInstruction_eq_ok_iff.1 h
termination_by cs.length

theorem ofBody_of_reads {cs : List Char} {l : Line} (line : Nat) (reads : Reads cs l)
    (free : ∀ i ∈ l.instruction, ∀ operand ∈ i.operands, ':' ∉ operand) :
    ofBody line cs = ⟨line, l.labels, .ok l.instruction⟩ := by
  induction reads with
  | nothing separates =>
    have noColon := colon_not_mem_of_fields (.nil separates) (List.forall_mem_nil _)
    rw [ofBody_of_not_mem line noColon, parseInstruction_eq_ok_iff.2 (.nothing separates)]
  | instruction fields spells count =>
    have noColon := colon_not_mem_of_fields fields
      (List.forall_mem_cons.2 ⟨spells.colon_not_mem, free _ rfl⟩)
    rw [ofBody_of_not_mem line noColon,
      parseInstruction_eq_ok_iff.2 (.instruction fields spells count)]
  | @label front label back rest _ before name after _ ih =>
    have solid : ¬ Text.isBlank ':' = true := by decide
    have noColon : ':' ∉ front ++ label ++ back := by
      simp only [List.mem_append, not_or]
      exact ⟨⟨fun mem => solid (before ':' mem), name.colon_not_mem⟩,
        fun mem => solid (after ':' mem)⟩
    have core : Text.trim (front ++ label ++ back) = label :=
      Text.trim_padded before (fun c mem => (name.parts c mem).not_blank) after
    rw [ofBody_colon line noColon, core, if_pos (isLabel_iff.2 name), ih free]

/-- A line that is read without error is one of the language. -/
theorem reads_of_ofLine {line : Nat} {cs : List Char} {i : Option (Instruction Name)}
    (h : (ofLine line cs).body = .ok i) :
    ∃ body, Cut cs body ∧ Reads body ⟨(ofLine line cs).labels, i⟩ :=
  ⟨uncomment cs, uncomment_eq_iff.1 rfl, reads_of_ofBody h⟩

/-- A line of the language is read as what it is, unless an operand contains a colon. -/
theorem ofLine_of_reads {cs : List Char} {l : Line} (line : Nat)
    (reads : ∃ body, Cut cs body ∧ Reads body l)
    (free : ∀ i ∈ l.instruction, ∀ operand ∈ i.operands, ':' ∉ operand) :
    ofLine line cs = ⟨line, l.labels, .ok l.instruction⟩ := by
  obtain ⟨body, cut, reads⟩ := reads
  rw [ofLine_eq_ofBody, uncomment_eq_iff.2 cut, ofBody_of_reads line reads free]

end Statement

/-! ### Operands -/

theorem colon_not_mem_of_literal {cs : List Char} {n : Int} (literal : Literal cs n) :
    ':' ∉ cs := by
  have noDigit {digits : List Char} (decimal : ∀ c ∈ digits, c.isDigit = true) : ':' ∉ digits :=
    fun mem => absurd (decimal ':' mem) (by decide)
  cases literal with
  | bare _ decimal => exact noDigit decimal
  | plus _ decimal => exact List.not_mem_cons_of_ne_of_not_mem (by decide) (noDigit decimal)
  | minus _ decimal => exact List.not_mem_cons_of_ne_of_not_mem (by decide) (noDigit decimal)

/-- The name of a label does not begin like a literal. -/
theorem LabelName.not_literal {name : Name} {n : Int} (isName : LabelName name) :
    ¬ Literal name n := by
  obtain ⟨first, _⟩ := isName
  have bounds := first.bounds
  intro literal
  cases literal with
  | bare _ decimal =>
    have digit := decimal _ List.mem_cons_self
    simp only [Char.isDigit, Bool.and_eq_true, decide_eq_true_eq, UInt32.le_iff_toNat_le] at digit
    change 48 ≤ _ ∧ Char.toNat _ ≤ 57 at digit
    omega
  | plus => exact absurd bounds (by decide)
  | minus => exact absurd bounds (by decide)

end Secd.Assembly
