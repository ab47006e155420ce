import Mathlib.Data.List.TakeWhile
import Secd.Text.Blank
import Secd.Word

/-!
What the smallest readers of text accept, said without them. A field is a run of characters between
separators, trimming takes off what is blank at the two ends, and a numeral is a sign, if any, and
digits, at least one.

      gap field gap field … gap      the fields of a text
      blanks core blanks             the core is what trimming leaves
      [+|-] digit digit …            the literal of an integer
-/

namespace Secd

/-! ### Fields -/

namespace Text

/-- A text consists of fields, with separators before, between and after them. -/
inductive Fields (sep : Char → Bool) : List Char → List (List Char) → Prop where
  | nil {gap : List Char} (separates : ∀ c ∈ gap, sep c = true) : Fields sep gap []
  | cons {gap field rest : List Char} {fields : List (List Char)}
      (separates : ∀ c ∈ gap, sep c = true) (nonempty : field ≠ [])
      (solid : ∀ c ∈ field, sep c = false) (apart : ∀ c ∈ rest.head?, sep c = true)
      (more : Fields sep rest fields) : Fields sep (gap ++ field ++ rest) (field :: fields)

variable {sep : Char → Bool} {cs : List Char}

theorem fields_gap_append {gap : List Char} (separates : ∀ c ∈ gap, sep c = true) :
    fields sep (gap ++ cs) = fields sep cs := by
  induction gap with
  | nil => rfl
  | cons c gap ih =>
    have rest := ih fun d mem => separates d (List.mem_cons_of_mem c mem)
    rw [← rest, fields, List.cons_append, List.splitOnP_cons_eq_if_modifyHead,
      if_pos (separates c List.mem_cons_self)]
    rfl

theorem fields_of_gap {gap : List Char} (separates : ∀ c ∈ gap, sep c = true) :
    fields sep gap = [] := by
  have h : fields sep (gap ++ []) = fields sep [] := fields_gap_append separates
  rwa [List.append_nil] at h

theorem fields_solid_append {field rest : List Char} (nonempty : field ≠ [])
    (solid : ∀ c ∈ field, sep c = false) (apart : ∀ c ∈ rest.head?, sep c = true) :
    fields sep (field ++ rest) = field :: fields sep rest := by
  have kept : (!field.isEmpty) = true := by simpa using nonempty
  cases rest with
  | nil =>
    rw [List.append_nil, fields, List.splitOnP_eq_singleton solid]
    simp [fields, kept]
  | cons c rest =>
    have separates : sep c = true := apart c rfl
    have gap : fields sep ([c] ++ rest) = fields sep rest :=
      fields_gap_append fun d mem => by rwa [List.mem_singleton.1 mem]
    rw [List.singleton_append] at gap
    rw [gap, fields, List.splitOnP_append_cons_of_forall_mem solid c separates]
    simp [fields, kept]

theorem Fields.gap_cons {c : Char} {found : List (List Char)} (separates : sep c = true)
    (h : Fields sep cs found) : Fields sep (c :: cs) found := by
  cases h with
  | nil gap => exact .nil (List.forall_mem_cons.2 ⟨separates, gap⟩)
  | @cons gap field rest _ gaps nonempty solid apart more =>
    rw [← List.cons_append, ← List.cons_append]
    exact .cons (List.forall_mem_cons.2 ⟨separates, gaps⟩) nonempty solid apart more

/-- A character that separates nothing joins the field behind it, or is a field by itself. -/
theorem Fields.solid_cons {c : Char} {found : List (List Char)} (isSolid : sep c = false)
    (h : Fields sep cs found) : ∃ found', Fields sep (c :: cs) found' := by
  have single : ∀ d ∈ [c], sep d = false := List.forall_mem_singleton.2 isSolid
  cases h with
  | @nil gap separates =>
    refine ⟨[[c]], .cons (List.forall_mem_nil _) (List.cons_ne_nil c []) single ?_ (.nil separates)⟩
    exact fun d head => separates d (List.mem_of_mem_head? head)
  | @cons gap field rest fields separates nonempty solid apart more =>
    cases gap with
    | nil =>
      refine ⟨(c :: field) :: fields, .cons (List.forall_mem_nil _) (List.cons_ne_nil c field) ?_
        apart more⟩
      exact List.forall_mem_cons.2 ⟨isSolid, solid⟩
    | cons d gap =>
      refine ⟨[c] :: field :: fields, .cons (List.forall_mem_nil _) (List.cons_ne_nil c [])
        single ?_ (.cons separates nonempty solid apart more)⟩
      rintro _ ⟨⟩
      exact separates d List.mem_cons_self

theorem exists_fields (sep : Char → Bool) (cs : List Char) : ∃ found, Fields sep cs found := by
  induction cs with
  | nil => exact ⟨[], .nil (List.forall_mem_nil _)⟩
  | cons c cs ih =>
    obtain ⟨found, h⟩ := ih
    cases kind : sep c with
    | true => exact ⟨found, h.gap_cons kind⟩
    | false => exact h.solid_cons kind

/-- Splitting finds the fields of a text. -/
theorem Fields.fields_eq {found : List (List Char)} (h : Fields sep cs found) :
    fields sep cs = found := by
  induction h with
  | nil separates => exact fields_of_gap separates
  | cons separates nonempty solid apart more ih =>
    rw [List.append_assoc, fields_gap_append separates, fields_solid_append nonempty solid apart,
      ih]

/-- Splitting finds exactly the fields of a text. -/
theorem fields_eq_iff {found : List (List Char)} : fields sep cs = found ↔ Fields sep cs found := by
  constructor
  · rintro rfl
    obtain ⟨found, h⟩ := exists_fields sep cs
    rwa [h.fields_eq]
  · exact Fields.fields_eq

/-! ### Trimming -/

theorem trimFront_blank_append {front : List Char} (blank : ∀ c ∈ front, isBlank c = true) :
    trimFront (front ++ cs) = trimFront cs :=
  List.dropWhile_append_of_pos blank

theorem trimFront_of_head {c : Char} (isSolid : isBlank c = false) :
    trimFront (c :: cs) = c :: cs :=
  List.dropWhile_cons_of_neg (by rw [isSolid]; exact Bool.false_ne_true)

theorem exists_front (cs : List Char) :
    ∃ front, cs = front ++ trimFront cs ∧ ∀ c ∈ front, isBlank c = true :=
  ⟨cs.takeWhile isBlank, List.takeWhile_append_dropWhile.symm,
    List.all_eq_true.1 List.all_takeWhile⟩

/-- Trimming takes off nothing but blanks. -/
theorem exists_padding (cs : List Char) :
    ∃ front back, cs = front ++ trim cs ++ back ∧ (∀ c ∈ front, isBlank c = true) ∧
      ∀ c ∈ back, isBlank c = true := by
  obtain ⟨front, hfront, blank⟩ := exists_front cs
  obtain ⟨back, hback, blank'⟩ := exists_front (trimFront cs).reverse
  refine ⟨front, back.reverse, ?_, blank, fun c mem => blank' c (List.mem_reverse.1 mem)⟩
  have rest : trimFront cs = trim cs ++ back.reverse := by
    rw [trim, ← List.reverse_append, ← hback, List.reverse_reverse]
  rw [List.append_assoc, ← rest]
  exact hfront

/-- Trimming leaves a core without blanks and takes off all blanks around it. -/
theorem trim_padded {front core back : List Char} (blank : ∀ c ∈ front, isBlank c = true)
    (isSolid : ∀ c ∈ core, isBlank c = false) (blank' : ∀ c ∈ back, isBlank c = true) :
    trim (front ++ core ++ back) = core := by
  have blankReverse : ∀ c ∈ back.reverse, isBlank c = true :=
    fun c mem => blank' c (List.mem_reverse.1 mem)
  have solidReverse : ∀ c ∈ core.reverse, isBlank c = false :=
    fun c mem => isSolid c (List.mem_reverse.1 mem)
  have keep {cs : List Char} (h : ∀ c ∈ cs, isBlank c = false) : trimFront cs = cs := by
    cases cs with
    | nil => rfl
    | cons c cs => exact trimFront_of_head (h c List.mem_cons_self)
  rw [trim, List.append_assoc, trimFront_blank_append blank]
  cases core with
  | nil =>
    have none : trimFront back = [] := List.dropWhile_eq_nil_iff.2 blank'
    rw [List.nil_append, none]
    rfl
  | cons c core =>
    rw [List.cons_append, trimFront_of_head (isSolid c List.mem_cons_self), ← List.cons_append,
      List.reverse_append, trimFront_blank_append blankReverse, keep solidReverse,
      List.reverse_reverse]

end Text

/-! ### Numerals -/

theorem map_eq_ok_iff {ε α β : Type} {f : α → β} {r : Except ε α} {y : β} :
    r.map f = .ok y ↔ ∃ x, r = .ok x ∧ f x = y := by
  cases r <;> simp [Except.map]

/-- The text is the literal of an integer: digits, perhaps behind a sign. -/
inductive Literal : List Char → Int → Prop where
  | bare {digits : List Char} (nonempty : digits ≠ [])
      (decimal : ∀ c ∈ digits, c.isDigit = true) : Literal digits (Numeral.value digits)
  | plus {digits : List Char} (nonempty : digits ≠ [])
      (decimal : ∀ c ∈ digits, c.isDigit = true) : Literal ('+' :: digits) (Numeral.value digits)
  | minus {digits : List Char} (nonempty : digits ≠ [])
      (decimal : ∀ c ∈ digits, c.isDigit = true) : Literal ('-' :: digits) (-Numeral.value digits)

/-- A run of digits, of which there is at least one. -/
def IsDigits (cs : List Char) : Prop := cs ≠ [] ∧ ∀ c ∈ cs, c.isDigit = true

theorem literal_minus_iff {cs : List Char} {n : Int} :
    Literal ('-' :: cs) n ↔ IsDigits cs ∧ n = -Numeral.value cs := by
  constructor
  · intro h
    cases h with
    | bare _ decimal => exact absurd (decimal '-' List.mem_cons_self) (by decide)
    | minus nonempty decimal => exact ⟨⟨nonempty, decimal⟩, rfl⟩
  · rintro ⟨⟨nonempty, decimal⟩, rfl⟩
    exact .minus nonempty decimal

theorem literal_plus_iff {cs : List Char} {n : Int} :
    Literal ('+' :: cs) n ↔ IsDigits cs ∧ n = Numeral.value cs := by
  constructor
  · intro h
    cases h with
    | bare _ decimal => exact absurd (decimal '+' List.mem_cons_self) (by decide)
    | plus nonempty decimal => exact ⟨⟨nonempty, decimal⟩, rfl⟩
  · rintro ⟨⟨nonempty, decimal⟩, rfl⟩
    exact .plus nonempty decimal

theorem literal_bare_iff {cs : List Char} {n : Int} (noMinus : ∀ rest, cs ≠ '-' :: rest)
    (noPlus : ∀ rest, cs ≠ '+' :: rest) :
    Literal cs n ↔ IsDigits cs ∧ n = Numeral.value cs := by
  constructor
  · intro h
    cases h with
    | bare nonempty decimal => exact ⟨⟨nonempty, decimal⟩, rfl⟩
    | plus => exact absurd rfl (noPlus _)
    | minus => exact absurd rfl (noMinus _)
  · rintro ⟨⟨nonempty, decimal⟩, rfl⟩
    exact .bare nonempty decimal

namespace Numeral

theorem magnitude_eq_ok_iff {bound n : Nat} {overflow : Error} {cs : List Char} :
    magnitude bound overflow cs = .ok n ↔
      IsDigits cs ∧ value cs = n ∧ n ≤ bound := by
  rw [IsDigits, and_assoc]
  unfold magnitude
  by_cases decimal : ∀ c ∈ cs, c.isDigit = true
  · rw [List.takeWhile_eq_self_iff.2 decimal, List.dropWhile_eq_nil_iff.2 decimal]
    by_cases empty : cs = []
    · simp [empty]
    · by_cases large : bound < value cs
      · simp only [List.isEmpty_iff, empty, large, if_true, if_false, reduceCtorEq, false_iff]
        rintro ⟨-, -, rfl, small⟩
        omega
      · simp only [List.isEmpty_iff, empty, large, if_true, if_false, Except.ok.injEq]
        constructor
        · rintro rfl
          exact ⟨empty, decimal, rfl, Nat.not_lt.1 large⟩
        · exact fun h => h.2.2.1
  · have rest : cs.dropWhile Char.isDigit ≠ [] := fun h => decimal (List.dropWhile_eq_nil_iff.1 h)
    simp only [List.isEmpty_iff, rest, if_false]
    refine iff_of_false (fun h => ?_) fun h => decimal h.2.1
    split at h
    · cases h
    · split at h <;> cases h

theorem magnitude_cast_eq_ok_iff {bound : Nat} {overflow : Error} {cs : List Char} {n : Int} :
    (magnitude bound overflow cs >>= fun k => pure (k : Int) : Except Error Int) = .ok n ↔
      IsDigits cs ∧ n = value cs ∧ value cs ≤ bound := by
  cases h : magnitude bound overflow cs with
  | ok k =>
    obtain ⟨digits, rfl, small⟩ := magnitude_eq_ok_iff.1 h
    change Except.ok _ = _ ↔ _
    rw [Except.ok.injEq]
    exact ⟨fun same => ⟨digits, same.symm, small⟩, fun h => h.2.1.symm⟩
  | error e =>
    refine iff_of_false nofun ?_
    rintro ⟨digits, -, small⟩
    rw [magnitude_eq_ok_iff.2 ⟨digits, rfl, small⟩] at h
    cases h

theorem positive_eq_ok_iff {below above : Nat} {overflow : Error} {cs : List Char} {n : Int} :
    (magnitude above overflow cs >>= fun k => pure (k : Int) : Except Error Int).map (fun n => n) =
      .ok n ↔ (IsDigits cs ∧ n = value cs) ∧ -below ≤ n ∧ n ≤ above := by
  simp only [map_eq_ok_iff, magnitude_cast_eq_ok_iff]
  constructor
  · rintro ⟨_, ⟨digits, rfl, small⟩, rfl⟩
    exact ⟨⟨digits, rfl⟩, by omega, by omega⟩
  · rintro ⟨⟨digits, rfl⟩, -, high⟩
    exact ⟨_, ⟨digits, rfl, by omega⟩, rfl⟩

theorem signed_eq_ok_iff {below above : Nat} {n : Int} {cs : List Char} :
    signed below above cs = .ok n ↔ Literal cs n ∧ -below ≤ n ∧ n ≤ above := by
  unfold signed
  split
  · refine iff_of_false nofun ?_
    rintro ⟨literal, -⟩
    obtain ⟨⟨nonempty, -⟩, -⟩ := (literal_bare_iff (by simp) (by simp)).1 literal
    exact nonempty rfl
  · rw [literal_minus_iff, map_eq_ok_iff]
    simp only [magnitude_cast_eq_ok_iff]
    constructor
    · rintro ⟨_, ⟨digits, rfl, small⟩, rfl⟩
      exact ⟨⟨digits, rfl⟩, by omega, by omega⟩
    · rintro ⟨⟨digits, rfl⟩, low, -⟩
      exact ⟨_, ⟨digits, rfl, by omega⟩, rfl⟩
  · rw [literal_plus_iff]
    exact positive_eq_ok_iff
  · rename_i noMinus noPlus
    rw [literal_bare_iff noMinus noPlus]
    exact positive_eq_ok_iff

end Numeral

/-- A word is read from exactly the literals of its integer. -/
theorem Word.parse_eq_ok_iff {cs : List Char} {w : Word} :
    Word.parse cs = .ok w ↔ Literal cs w.toInt := by
  simp only [parse, map_eq_ok_iff, Numeral.signed_eq_ok_iff]
  constructor
  · rintro ⟨n, ⟨literal, low, high⟩, rfl⟩
    rwa [Int64.toInt_ofInt_of_le low (by omega)]
  · intro literal
    refine ⟨w.toInt, ⟨literal, w.le_toInt, ?_⟩, Int64.ofInt_toInt w⟩
    have high := w.toInt_lt
    omega

end Secd
