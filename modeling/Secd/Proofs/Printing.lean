import Secd.Proofs.Lexical

/-!
What is printed can be read again. A word is printed as the literal of its integer, which holds
digits only, behind a minus sign if the integer is negative. Fields that are printed with a blank
between any two of them are the fields of the printed text.
-/

namespace Secd

/-! ### Numerals -/

theorem value_repr (n : Nat) : Numeral.value n.repr.toList = n := by
  rw [Numeral.value, Nat.toList_repr, Nat.ofDigitChars_toDigits (by decide) (by decide)]

theorem isDigits_repr (n : Nat) : IsDigits n.repr.toList := by
  rw [Nat.toList_repr]
  exact ⟨Nat.toDigits_ne_nil, fun c mem => Nat.isDigit_of_mem_toDigits (by decide) (by decide) mem⟩

/-- The numeral of an integer is its literal. -/
theorem literal_repr (n : Int) : Literal n.repr.toList n := by
  cases n with
  | ofNat k =>
    obtain ⟨nonempty, decimal⟩ := isDigits_repr k
    have literal := Literal.bare nonempty decimal
    rwa [value_repr] at literal
  | negSucc k =>
    obtain ⟨nonempty, decimal⟩ := isDigits_repr (k + 1)
    have literal := Literal.minus nonempty decimal
    rw [value_repr] at literal
    have shown : (Int.negSucc k).repr.toList = '-' :: (k + 1).repr.toList := by
      simp [Int.repr]
    rwa [shown]

namespace Word

theorem literal_render (w : Word) : Literal w.render.toList w.toInt := literal_repr w.toInt

/-- A printed word is read as itself. -/
theorem parse_render (w : Word) : parse w.render.toList = .ok w :=
  parse_eq_ok_iff.2 w.literal_render

end Word

theorem Literal.chars {cs : List Char} {n : Int} (literal : Literal cs n) :
    cs ≠ [] ∧ ∀ c ∈ cs, c = '-' ∨ c = '+' ∨ c.isDigit = true := by
  cases literal with
  | bare nonempty decimal => exact ⟨nonempty, fun c mem => .inr (.inr (decimal c mem))⟩
  | plus nonempty decimal =>
    refine ⟨List.cons_ne_nil _ _, List.forall_mem_cons.2 ⟨.inr (.inl rfl), fun c mem => ?_⟩⟩
    exact .inr (.inr (decimal c mem))
  | minus nonempty decimal =>
    refine ⟨List.cons_ne_nil _ _, List.forall_mem_cons.2 ⟨.inl rfl, fun c mem => ?_⟩⟩
    exact .inr (.inr (decimal c mem))

/-! ### Fields -/

namespace Text

/-- A printed text holds the characters of its fields, and those that separate them. -/
theorem eq_or_mem_of_mem_intercalate {gap c : Char} {texts : List (List Char)}
    (mem : c ∈ [gap].intercalate texts) : c = gap ∨ ∃ text ∈ texts, c ∈ text := by
  induction texts with
  | nil => cases mem
  | cons text texts ih =>
    cases texts with
    | nil =>
      rw [List.intercalate_singleton] at mem
      exact .inr ⟨text, List.mem_singleton_self text, mem⟩
    | cons next texts =>
      rw [List.intercalate_cons_cons, List.mem_append, List.mem_append, List.mem_singleton] at mem
      rcases mem with (here | same) | later
      · exact .inr ⟨text, List.mem_cons_self, here⟩
      · exact .inl same
      · rcases ih later with same | ⟨found, among, there⟩
        · exact .inl same
        · exact .inr ⟨found, List.mem_cons_of_mem text among, there⟩

/-- Fields printed with a separator between any two of them are found again. -/
theorem fields_intercalate {sep : Char → Bool} {gap : Char} (separates : sep gap = true)
    {texts : List (List Char)}
    (solid : ∀ text ∈ texts, text ≠ [] ∧ ∀ c ∈ text, sep c = false) :
    fields sep ([gap].intercalate texts) = texts := by
  induction texts with
  | nil => rfl
  | cons text texts ih =>
    obtain ⟨⟨nonempty, here⟩, solid⟩ := List.forall_mem_cons.1 solid
    cases texts with
    | nil =>
      have alone : fields sep (text ++ []) = text :: fields sep [] :=
        fields_solid_append nonempty here nofun
      rw [List.append_nil] at alone
      rw [List.intercalate_singleton]
      exact alone
    | cons next texts =>
      have apart : ∀ c ∈ ([gap] ++ [gap].intercalate (next :: texts)).head?, sep c = true := by
        rintro _ ⟨⟩
        exact separates
      have blank : ∀ c ∈ [gap], sep c = true := List.forall_mem_singleton.2 separates
      rw [List.intercalate_cons_cons, List.append_assoc, fields_solid_append nonempty here apart,
        fields_gap_append blank, ih solid]

end Text

end Secd
