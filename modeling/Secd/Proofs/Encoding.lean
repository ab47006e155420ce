import Secd.Text.Lines

/-!
Lines of bytes and lines of text. Cutting a list after each mark is said here without a loop, for
bytes and for characters alike. In UTF-8 only the newline character has a newline byte in it, so the
lines of a text are encoded as the lines of its bytes, and bytes can be read as text line by line.

      bytes     31 0A 32 0A C3 A9        cut after 0A        31 0A │ 32 0A │ C3 A9
      text      '1' '\n' '2' '\n' 'é'    cut after '\n'      '1' '\n' │ '2' '\n' │ 'é'
-/

namespace Secd.Text

/-! ### Lines -/

/-- The lists are the lines of another one: each ends with a mark, which stands nowhere else in it;
the last one may go without, but is not empty. -/
inductive Lines {α : Type} (mark : α) : List α → List (List α) → Prop where
  | nil : Lines mark [] []
  | last {body : List α} (nonempty : body ≠ []) (free : mark ∉ body) : Lines mark body [body]
  | cons {body rest : List α} {lines : List (List α)} (free : mark ∉ body)
      (more : Lines mark rest lines) :
      Lines mark (body ++ mark :: rest) ((body ++ [mark]) :: lines)

section

variable {α : Type} {mark : α} {xs : List α} {lines : List (List α)}

theorem Lines.flatten_eq (h : Lines mark xs lines) : lines.flatten = xs := by
  induction h with
  | nil => rfl
  | last => simp
  | cons _ _ ih => simp [ih]

/-- One more item joins the first line, or is a line by itself. -/
theorem Lines.exists_cons (x : α) (h : Lines mark xs lines) :
    ∃ lines', Lines mark (x :: xs) lines' := by
  by_cases isMark : x = mark
  · subst isMark
    exact ⟨[x] :: lines, @Lines.cons _ _ [] _ _ List.not_mem_nil h⟩
  · have other : mark ∉ [x] := by simpa using Ne.symm isMark
    cases h with
    | nil => exact ⟨[[x]], .last (by simp) other⟩
    | last _ free => exact ⟨_, .last (by simp) (by simp [free, Ne.symm isMark])⟩
    | @cons body rest lines free more =>
      have free' : mark ∉ x :: body := by simp [free, Ne.symm isMark]
      exact ⟨_, .cons free' more⟩

theorem exists_lines (mark : α) (xs : List α) : ∃ lines, Lines mark xs lines := by
  induction xs with
  | nil => exact ⟨[], .nil⟩
  | cons x xs ih =>
    obtain ⟨lines, h⟩ := ih
    exact h.exists_cons x

/-- Some of the lines, from the first one on, are the lines of what they hold. -/
theorem Lines.front {front back : List (List α)} (h : Lines mark xs (front ++ back)) :
    Lines mark front.flatten front := by
  generalize parts : front ++ back = lines at h
  induction h generalizing front with
  | nil =>
    obtain ⟨rfl, rfl⟩ := List.append_eq_nil_iff.1 parts
    exact .nil
  | last nonempty free =>
    rcases List.append_eq_singleton_iff.1 parts with ⟨rfl, rfl⟩ | ⟨rfl, rfl⟩
    · exact .nil
    · simpa using Lines.last nonempty free
  | cons free more ih =>
    cases front with
    | nil => exact .nil
    | cons line front =>
      rw [List.cons_append, List.cons.injEq] at parts
      obtain ⟨rfl, parts⟩ := parts
      simpa using Lines.cons free (ih parts)

end

/-! ### Lines of bytes -/

variable {bytes : List UInt8} {text : List Char}

theorem foldr_consLine {body : List UInt8} (free : newline ∉ body) (line : List UInt8)
    (lines : List (List UInt8)) :
    body.foldr consLine (line :: lines) = (body ++ line) :: lines := by
  induction body with
  | nil => rfl
  | cons byte body ih =>
    rw [List.mem_cons, not_or] at free
    rw [List.foldr_cons, ih free.2, consLine, if_neg (Ne.symm free.1)]
    rfl

theorem byteLines_append_newline {body : List UInt8} (free : newline ∉ body)
    (rest : List UInt8) :
    byteLines (body ++ newline :: rest) = (body ++ [newline]) :: byteLines rest := by
  have first : byteLines (newline :: rest) = [newline] :: byteLines rest := by
    simp [byteLines, consLine]
  rw [byteLines, List.foldr_append, ← byteLines, first, foldr_consLine free]

theorem byteLines_of_free {body : List UInt8} (nonempty : body ≠ []) (free : newline ∉ body) :
    byteLines body = [body] := by
  rcases List.eq_nil_or_concat body with rfl | ⟨front, byte, rfl⟩
  · exact absurd rfl nonempty
  · simp only [List.concat_eq_append, List.mem_append, List.mem_singleton, not_or] at free ⊢
    have last : byteLines [byte] = [[byte]] := by
      simp [byteLines, consLine, Ne.symm free.2]
    rw [byteLines, List.foldr_append, ← byteLines, last, foldr_consLine free.1]

theorem Lines.byteLines_eq {lines : List (List UInt8)} (h : Lines newline bytes lines) :
    byteLines bytes = lines := by
  induction h with
  | nil => rfl
  | last nonempty free => exact byteLines_of_free nonempty free
  | cons free _ ih => rw [byteLines_append_newline free, ih]

/-- Bytes are cut into exactly their lines. -/
theorem byteLines_eq_iff {lines : List (List UInt8)} :
    byteLines bytes = lines ↔ Lines newline bytes lines := by
  constructor
  · rintro rfl
    obtain ⟨lines, h⟩ := exists_lines newline bytes
    rwa [h.byteLines_eq]
  · exact Lines.byteLines_eq

/-! ### UTF-8 -/

/-- The bytes of a text. -/
def utf8 (text : List Char) : List UInt8 := text.flatMap String.utf8EncodeChar

@[simp] theorem utf8_append (front back : List Char) :
    utf8 (front ++ back) = utf8 front ++ utf8 back :=
  List.flatMap_append

theorem decodeUtf8?_eq_some_iff : decodeUtf8? bytes = some text ↔ bytes = utf8 text := by
  have same : (⟨bytes.toArray⟩ : ByteArray) = bytes.toByteArray := by
    apply ByteArray.ext
    simp
  rw [decodeUtf8?, same]
  constructor
  · intro decoded
    obtain ⟨s, read, rfl⟩ := Option.map_eq_some_iff.1 decoded
    unfold String.fromUTF8? at read
    split at read
    · rename_i valid
      cases read
      have kept := @String.utf8Encode_toList (String.fromUTF8 bytes.toByteArray valid)
      exact (List.toByteArray_inj.1 kept).symm
    · cases read
  · rintro rfl
    have valid : (utf8 text).toByteArray.IsValidUTF8 := .intro text rfl
    rw [String.fromUTF8?, dif_pos valid]
    have decoded : String.fromUTF8 (utf8 text).toByteArray valid = String.ofList text :=
      String.toByteArray_inj.1 rfl
    rw [decoded, Option.map_some, String.toList_ofList]

@[simp] theorem decodeUtf8?_utf8 (text : List Char) : decodeUtf8? (utf8 text) = some text :=
  decodeUtf8?_eq_some_iff.2 rfl

theorem newline_not_mem_utf8EncodeChar {c : Char} (other : c ≠ '\n') :
    newline ∉ String.utf8EncodeChar c := by
  have differs : c.val.toNat ≠ 10 := fun same => other (Char.toNat_inj.1 same)
  unfold String.utf8EncodeChar newline
  generalize c.val.toNat = v at differs
  dsimp only
  -- the bytes of a longer encoding have their highest bit set
  split
  · simp [← UInt8.toNat_inj]
    omega
  · split
    · simp [← UInt8.toNat_inj]
      omega
    · split <;> simp [← UInt8.toNat_inj] <;> omega

theorem newline_not_mem_utf8 (free : '\n' ∉ text) : newline ∉ utf8 text := by
  intro mem
  obtain ⟨c, here, within⟩ := List.mem_flatMap.1 mem
  exact newline_not_mem_utf8EncodeChar (ne_of_mem_of_not_mem here free) within

theorem utf8_ne_nil (nonempty : text ≠ []) : utf8 text ≠ [] := by
  cases text with
  | nil => exact absurd rfl nonempty
  | cons c text => simp [utf8]

theorem utf8_newline (text : List Char) : utf8 ('\n' :: text) = newline :: utf8 text := rfl

/-- The lines of a text are encoded as the lines of its bytes. -/
theorem Lines.encode {rows : List (List Char)} (h : Lines '\n' text rows) :
    Lines newline (utf8 text) (rows.map utf8) := by
  induction h with
  | nil => exact .nil
  | last nonempty free => exact .last (utf8_ne_nil nonempty) (newline_not_mem_utf8 free)
  | @cons body rest lines free more ih =>
    rw [utf8_append, utf8_newline, List.map_cons, utf8_append]
    exact .cons (newline_not_mem_utf8 free) ih

theorem utf8_injective {text' : List Char} (same : utf8 text = utf8 text') : text = text' := by
  have decoded := decodeUtf8?_utf8 text
  rw [same, decodeUtf8?_utf8, Option.some.injEq] at decoded
  exact decoded.symm

@[simp] theorem utf8_flatten (rows : List (List Char)) :
    utf8 rows.flatten = (rows.map utf8).flatten := by
  induction rows with
  | nil => rfl
  | cons row rows ih => simp [ih]

/-- Texts are the lines of a text if their bytes are lines of bytes. -/
theorem Lines.of_encode {rows : List (List Char)} {rest : List (List UInt8)}
    (h : Lines newline bytes (rows.map utf8 ++ rest)) : Lines '\n' rows.flatten rows := by
  obtain ⟨rows', h'⟩ := exists_lines '\n' rows.flatten
  have encoded := h'.encode
  have front := h.front
  rw [utf8_flatten] at encoded
  have same : rows'.map utf8 = rows.map utf8 := encoded.byteLines_eq.symm.trans front.byteLines_eq
  rwa [(List.map_inj_right fun _ _ => utf8_injective).1 same] at h'

/-! ### Text at the front of bytes -/

/-- The front consists of whole lines of the bytes, each of which is text. -/
def WholeLines (bytes front : List UInt8) : Prop :=
  ∃ lines rest, Lines newline bytes (lines ++ rest) ∧ front = lines.flatten ∧
    ∀ line ∈ lines, ∃ text, decodeUtf8? line = some text

/-- The longest front of the bytes that consists of whole lines of text. -/
structure Readable (bytes front : List UInt8) : Prop where
  whole : WholeLines bytes front
  longest : ∀ other, WholeLines bytes other → other.length ≤ front.length

theorem wholeLines_of_decodeUtf8? (decoded : decodeUtf8? bytes = some text) :
    WholeLines bytes bytes := by
  obtain rfl := decodeUtf8?_eq_some_iff.1 decoded
  obtain ⟨rows, h⟩ := exists_lines '\n' text
  have encoded := h.encode
  refine ⟨rows.map utf8, [], by rwa [List.append_nil], encoded.flatten_eq.symm, ?_⟩
  exact List.forall_mem_map.2 fun row _ => ⟨row, decodeUtf8?_utf8 row⟩

/-- Bytes that are text are readable as a whole. -/
theorem Readable.eq_bytes {front : List UInt8} (readable : Readable bytes front)
    (decoded : decodeUtf8? bytes = some text) : front = bytes := by
  obtain ⟨lines, rest, h, same, -⟩ := readable.whole
  have all := h.flatten_eq
  rw [List.flatten_append, ← same] at all
  have isFront : front <+: bytes := ⟨rest.flatten, all⟩
  exact isFront.eq_of_length_le (readable.longest bytes (wholeLines_of_decodeUtf8? decoded))

/-- Lines up to the first one that is no text. -/
theorem exists_rows (lines : List (List UInt8)) :
    ∃ (rows : List (List Char)) (rest : List (List UInt8)), lines = rows.map utf8 ++ rest ∧
      ∀ line ∈ rest.head?, decodeUtf8? line = none := by
  induction lines with
  | nil => exact ⟨[], [], rfl, nofun⟩
  | cons line lines ih =>
    cases decoded : decodeUtf8? line with
    | none =>
      refine ⟨[], line :: lines, rfl, ?_⟩
      rintro _ ⟨⟩
      exact decoded
    | some row =>
      obtain ⟨rows, rest, rfl, noText⟩ := ih
      refine ⟨row :: rows, rest, ?_, noText⟩
      rw [decodeUtf8?_eq_some_iff.1 decoded]
      rfl

theorem readable_of_rows {rows : List (List Char)} {rest : List (List UInt8)}
    (h : Lines newline bytes (rows.map utf8 ++ rest))
    (noText : ∀ line ∈ rest.head?, decodeUtf8? line = none) :
    Readable bytes (utf8 rows.flatten) := by
  rw [utf8_flatten]
  refine ⟨⟨rows.map utf8, rest, h, rfl, ?_⟩, ?_⟩
  · exact List.forall_mem_map.2 fun row _ => ⟨row, decodeUtf8?_utf8 row⟩
  · rintro _ ⟨lines, rest', h', rfl, isText⟩
    have same := h.byteLines_eq.symm.trans h'.byteLines_eq
    rcases List.append_eq_append_iff.1 same with ⟨more, rfl, parts⟩ | ⟨more, parts, -⟩
    · -- a line more would be the first one that is no text
      cases more with
      | nil => simp
      | cons line more =>
        subst parts
        obtain ⟨text, decoded⟩ := isText line (by simp)
        rw [noText line rfl] at decoded
        cases decoded
    · rw [parts, List.flatten_append, List.length_append]
      exact Nat.le_add_right _ _

end Secd.Text
