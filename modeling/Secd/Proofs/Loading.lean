import Mathlib.Data.List.Forall2
import Secd.Bytecode
import Secd.Proofs.Tokens

/-!
Reading bytecode, said without lines. What counts is the longest front of the input that is text in
whole lines, and the tokens of that text from first to last:

      input     "1 2\n"   "3 x\n"   FF …       tokens   1 2 3 x
      room      2         full after 1 2, whatever the rest is
                3         full after 1 2 3, as x finds no room
                4         x is no integer, on line 2
-/

namespace Secd

/-! ### Code with more words -/

namespace Code

/-- How many words the code can still take. -/
def room (c : Code) : Nat := c.capacity - c.size

/-- The code with more words behind those that it has. -/
def appendAll (c : Code) (words : List Word) : Code := { c with words := c.words ++ words.toArray }

variable {c : Code} {words : List Word}

@[simp] theorem appendAll_nil (c : Code) : c.appendAll [] = c := by
  simp [appendAll]

@[simp] theorem appendAll_append (c : Code) (word : Word) (words : List Word) :
    (c.append word).appendAll words = c.appendAll (word :: words) := by
  simp [appendAll, append]

@[simp] theorem capacity_appendAll (c : Code) (words : List Word) :
    (c.appendAll words).capacity = c.capacity := rfl

@[simp] theorem size_appendAll (c : Code) (words : List Word) :
    (c.appendAll words).size = c.size + words.length := by
  simp [appendAll, size]

theorem size_appendAll_le (fits : words.length ≤ c.room) (within : c.size ≤ c.capacity) :
    (c.appendAll words).size ≤ c.capacity := by
  rw [room] at fits
  rw [size_appendAll]
  omega

@[simp] theorem room_appendAll (c : Code) (words : List Word) :
    (c.appendAll words).room = c.room - words.length := by
  simp [room, Nat.sub_sub]

theorem room_append (c : Code) (word : Word) : (c.append word).room = c.room - 1 := by
  rw [← appendAll_nil (c.append word), appendAll_append, room_appendAll, List.length_singleton]

theorem isFull_eq (c : Code) : c.isFull = decide (c.room = 0) := by
  simp [isFull, room, Nat.sub_eq_zero_iff_le]

end Code

namespace Bytecode

open Text

variable {code : Code} {words : List Word} {ts : List (Nat × List Char)} {lines count : Nat}

/-- The items of tokens on lines. -/
def pieces (ts : List (Nat × List Char)) : List Item := ts.map fun (line, text) => .token line text

@[simp] theorem pieces_append (ts ts' : List (Nat × List Char)) :
    pieces (ts ++ ts') = pieces ts ++ pieces ts' :=
  List.map_append

/-- Tokens that are words, and find room, are appended as these. -/
theorem readItems_pieces (parsed : List.Forall₂ (fun t word => Word.parse t.2 = .ok word) ts words)
    (fits : words.length ≤ code.room) (rest : List Item) :
    readItems lines count (pieces ts ++ rest) code =
      readItems lines (count + words.length) rest (code.appendAll words) := by
  induction parsed generalizing count code with
  | nil => simp [pieces]
  | @cons t word ts words first _ ih =>
    rw [List.length_cons] at fits ⊢
    have hasRoom : code.isFull = false := by
      rw [code.isFull_eq, decide_eq_false_iff_not]
      omega
    change (if code.isFull = true then _ else _) = _
    rw [hasRoom, if_neg Bool.false_ne_true, first]
    change readItems lines (count + 1) (pieces ts ++ rest) (code.append word) = _
    rw [ih (by rw [Code.room_append]; omega), Code.appendAll_append, Nat.add_assoc,
      Nat.add_comm 1]

/-- Reading stops behind all tokens, or at the first one that finds no room or is no word. -/
theorem exists_stop (room : Nat) (ts : List (Nat × List Char)) :
    ∃ words : List Word, words.length ≤ room ∧
      List.Forall₂ (fun t word => Word.parse t.2 = .ok word) (ts.take words.length) words ∧
      (words.length = ts.length ∨ ∃ t, ts[words.length]? = some t ∧
        (words.length = room ∨ words.length < room ∧ ∃ cause, Word.parse t.2 = .error cause)) := by
  induction ts generalizing room with
  | nil => exact ⟨[], by simp⟩
  | cons t ts ih =>
    cases room with
    | zero => exact ⟨[], by simp⟩
    | succ room =>
      cases parsed : Word.parse t.2 with
      | error cause => exact ⟨[], by simp [parsed]⟩
      | ok word =>
        obtain ⟨words, fits, read, stop⟩ := ih room
        refine ⟨word :: words, by simpa using fits, ?_, ?_⟩
        · exact .cons parsed read
        · simpa using stop

/-- How reading ends behind the first `count` tokens of the text that the front of the bytes is,
when these have been appended to the code: at a token that is no integer, at one that finds no room,
at the end of the bytes, or at the line of bytes that is no text. -/
inductive Stops (bytes front : List UInt8) (text : List Char) (room count : Nat) (after : Code) :
    EStateM.Result Error Code Report → Prop where
  | notInteger {token : List Char} {newlines : Nat} {cause : Numeral.Error}
      (next : TokenAt text count token newlines) (hasRoom : count < room)
      (noLiteral : ∀ word : Word, ¬ Literal token word.toInt)
      (reason : Word.parse token = .error cause) :
      Stops bytes front text room count after
        (.error (.notInteger (newlines + 1) token cause) after)
  | full {token : List Char} {newlines : Nat} (next : TokenAt text count token newlines)
      (noRoom : count = room) :
      Stops bytes front text room count after (.ok ⟨count, .full (newlines + 1)⟩ after)
  | complete (all : count = (tokens text).length) (whole : front = bytes) :
      Stops bytes front text room count after
        (.ok ⟨count, .complete (byteLines bytes).length⟩ after)
  | unreadable (all : count = (tokens text).length) (part : front ≠ bytes) :
      Stops bytes front text room count after (.error (.unreadable .invalidUtf8) after)

theorem flatMap_lineItems (rows : List (List Char)) (number : Nat) :
    ((rows.map utf8).zipIdx number).flatMap (fun (line, n) => lineItems n line) =
      pieces (located number rows) := by
  induction rows generalizing number with
  | nil => rfl
  | cons row rows ih =>
    rw [List.map_cons, List.zipIdx_cons, List.flatMap_cons, ih, located_cons, pieces_append]
    simp [lineItems, pieces]

/-- The items of an input are the tokens of its front, and an error if that is not all of it. -/
theorem exists_items (bytes : List UInt8) :
    ∃ (rows : List (List Char)) (rest : List Item), Readable bytes (utf8 rows.flatten) ∧
      Lines '\n' rows.flatten rows ∧ items bytes = pieces (located 1 rows) ++ rest ∧
      (utf8 rows.flatten = bytes ∧ rest = [] ∨
        utf8 rows.flatten ≠ bytes ∧ rest.head? = some .unreadable) := by
  obtain ⟨rows, others, parts, noText⟩ := exists_rows (byteLines bytes)
  have h : Lines newline bytes (rows.map utf8 ++ others) := byteLines_eq_iff.1 parts
  refine ⟨rows, (others.zipIdx (1 + (rows.map utf8).length)).flatMap fun (line, n) =>
    lineItems n line, readable_of_rows h noText, h.of_encode, ?_, ?_⟩
  · rw [items, parts, List.zipIdx_append, List.flatMap_append, flatMap_lineItems]
  · have all := h.flatten_eq
    rw [List.flatten_append, ← utf8_flatten] at all
    cases others with
    | nil => exact .inl ⟨by simpa using all, rfl⟩
    | cons line others =>
      have broken : decodeUtf8? line = none := noText line rfl
      refine .inr ⟨fun same => ?_, ?_⟩
      · -- then the line would be empty, which is a text
        have nothing : (line :: others).flatten = [] := by
          rw [same] at all
          exact List.append_right_eq_self.1 all
        have empty : line = [] := List.flatten_eq_nil_iff.1 nothing line List.mem_cons_self
        rw [empty] at broken
        cases broken.symm.trans (decodeUtf8?_utf8 [])
      · simp [lineItems, broken]

variable {bytes front : List UInt8} {text : List Char} {rest : List Item}

/-- At a token, whether there is room for a word is settled before what the token says. -/
theorem stops_at_token {token : List Char} {newlines : Nat}
    (next : TokenAt text words.length token newlines)
    (stop : words.length = code.room ∨
      words.length < code.room ∧ ∃ cause, Word.parse token = .error cause) :
    Stops bytes front text code.room words.length (code.appendAll words)
      (readItems lines words.length (.token (newlines + 1) token :: rest)
        (code.appendAll words)) := by
  change Stops _ _ _ _ _ _ (if _ then _ else _)
  rw [Code.isFull_eq, Code.room_appendAll]
  rcases stop with noRoom | ⟨hasRoom, cause, reason⟩
  · rw [if_pos (by simp [noRoom])]
    exact .full next noRoom
  · rw [if_neg (by simp; omega), reason]
    refine .notInteger next hasRoom (fun word literal => ?_) reason
    rw [Word.parse_eq_ok_iff.2 literal] at reason
    cases reason

/-- Behind all tokens there is the end of the input, or a line of it that is no text. -/
theorem stops_behind_all {room : Nat} (all : count = (tokens text).length)
    (ends : front = bytes ∧ rest = [] ∨ front ≠ bytes ∧ rest.head? = some .unreadable) :
    Stops bytes front text room count code
      (readItems (byteLines bytes).length count rest code) := by
  rcases ends with ⟨whole, rfl⟩ | ⟨part, broken⟩
  · exact .complete all whole
  · obtain ⟨others, rfl⟩ := List.head?_eq_some_iff.1 broken
    exact .unreadable all part

/-- If as many tokens of a text as there is room for are words, reading it appends these. -/
theorem read_of_literals (isText : decodeUtf8? bytes = some text)
    (literals : List.Forall₂ (fun token (word : Word) => Literal token word.toInt)
      ((tokens text).take code.room) words) :
    ∃ report, read (.bytes bytes) code = .ok report (code.appendAll words) := by
  obtain ⟨rows, rest, readable, h, parts, ends⟩ := exists_items bytes
  have whole : utf8 rows.flatten = bytes := readable.eq_bytes isText
  obtain rfl : rows.flatten = text := by
    rw [← whole, decodeUtf8?_utf8, Option.some.injEq] at isText
    exact isText
  obtain rfl : rest = [] := by
    rcases ends with ⟨-, nothing⟩ | ⟨part, -⟩
    · exact nothing
    · exact absurd whole part
  have all := h.map_located 1
  have count : words.length = min code.room (tokens rows.flatten).length := by
    rw [← literals.length_eq, List.length_take]
  have parsed : List.Forall₂ (fun t word => Word.parse t.2 = .ok word)
      ((located 1 rows).take code.room) words := by
    rw [← all, ← List.map_take, List.forall₂_map_left_iff] at literals
    exact literals.imp fun t word => Word.parse_eq_ok_iff.2
  have split : items bytes = pieces ((located 1 rows).take code.room) ++
      pieces ((located 1 rows).drop code.room) := by
    rw [← pieces_append, List.take_append_drop, parts, List.append_nil]
  change ∃ report, readItems (byteLines bytes).length 0 (items bytes) code = _
  rw [split, readItems_pieces parsed (by omega)]
  cases left : (located 1 rows).drop code.room with
  | nil => exact ⟨_, rfl⟩
  | cons t ts =>
    -- a token is left, so the first ones have filled the code
    have full : (code.appendAll words).isFull = true := by
      have more := congrArg List.length left
      rw [List.length_drop, List.length_cons] at more
      have tokenCount := congrArg List.length all
      rw [List.length_map] at tokenCount
      rw [Code.isFull_eq, Code.room_appendAll, decide_eq_true_eq]
      omega
    exact ⟨_, if_pos full⟩

/-- In fresh room these words are all there is. -/
theorem read_fresh_of_literals {capacity : Nat} (isText : decodeUtf8? bytes = some text)
    (literals : List.Forall₂ (fun token (word : Word) => Literal token word.toInt)
      ((tokens text).take capacity) words) :
    ∃ report, read (.bytes bytes) ⟨capacity, #[]⟩ = .ok report ⟨capacity, words.toArray⟩ := by
  obtain ⟨report, same⟩ : ∃ report, read (.bytes bytes) ⟨capacity, #[]⟩ =
      .ok report (Code.appendAll ⟨capacity, #[]⟩ words) := read_of_literals isText literals
  rw [Code.appendAll, Array.empty_append] at same
  exact ⟨report, same⟩

/-- With room for two words neither the token `x` matters nor the line behind it that is no text. -/
example : read (.bytes [49, 10, 50, 32, 120, 10, 255]) ⟨2, #[]⟩ =
    .ok ⟨2, .full 2⟩ ⟨2, #[1, 2]⟩ := by
  cbv

end Bytecode

end Secd
