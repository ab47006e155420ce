import Secd.Proofs.Encoding
import Secd.Proofs.Lexical

/-!
Where the tokens of a text stand. A token is found by how many tokens come before it, and its line
by how many newlines do. That tokens can be collected line by line is because newlines are blank.

      text       1 2 \n \n 3
      tokens     1 2       3
      newlines   0 0       2
-/

namespace Secd.Text

/-- In the text the token comes after so many other tokens and so many newlines. -/
def TokenAt (text : List Char) (count : Nat) (token : List Char) (newlines : Nat) : Prop :=
  ∃ front back, text = front ++ token ++ back ∧
    tokens text = tokens front ++ token :: tokens back ∧ (tokens front).length = count ∧
    front.count '\n' = newlines

theorem Fields.split {sep : Char → Bool} {cs field : List Char} {found : List (List Char)}
    {k : Nat} (h : Fields sep cs found) (here : found[k]? = some field) :
    ∃ front back, cs = front ++ field ++ back ∧ Fields sep front (found.take k) ∧
      Fields sep back (found.drop (k + 1)) := by
  induction h generalizing k with
  | nil => simp at here
  | @cons gap first rest fields separates nonempty solid apart more ih =>
    cases k with
    | zero =>
      cases here
      exact ⟨gap, rest, rfl, .nil separates, more⟩
    | succ k =>
      obtain ⟨front, back, rfl, before, after⟩ := ih here
      refine ⟨gap ++ first ++ front, back, by simp, .cons separates nonempty solid ?_ before, after⟩
      intro c head
      rw [Option.mem_def] at head
      exact apart c (by simp [head])

theorem tokens_append_blank {c : Char} (blank : isBlank c = true) (front back : List Char) :
    tokens (front ++ c :: back) = tokens front ++ tokens back := by
  simp [tokens, fields, List.splitOnP_append_cons _ _ blank]

theorem tokens_line (body : List Char) : tokens (body ++ ['\n']) = tokens body := by
  rw [tokens_append_blank rfl]
  exact List.append_nil _

theorem tokenAt_zero {text token : List Char} {k : Nat} (noNewline : '\n' ∉ text)
    (here : (tokens text)[k]? = some token) : TokenAt text k token 0 := by
  obtain ⟨inside, found⟩ := List.getElem?_eq_some_iff.1 here
  obtain ⟨front, back, parts, before, after⟩ := Fields.split (fields_eq_iff.1 rfl) here
  have before : tokens front = (tokens text).take k := before.fields_eq
  have after : tokens back = (tokens text).drop (k + 1) := after.fields_eq
  refine ⟨front, back, parts, ?_, ?_, ?_⟩
  · rw [before, after, ← found, ← List.drop_eq_getElem_cons inside, List.take_append_drop]
  · rw [before, List.length_take_of_le (Nat.le_of_lt inside)]
  · refine List.count_eq_zero_of_not_mem fun mem => noNewline ?_
    rw [parts]
    simp [mem]

theorem TokenAt.append_line {body token : List Char} {k : Nat} (here : TokenAt body k token 0)
    (rest : List Char) : TokenAt (body ++ '\n' :: rest) k token 0 := by
  obtain ⟨front, back, rfl, split, count, newlines⟩ := here
  refine ⟨front, back ++ '\n' :: rest, by simp, ?_, count, newlines⟩
  rw [tokens_append_blank rfl, tokens_append_blank rfl, split]
  simp

theorem TokenAt.behind_line {rest token body : List Char} {k newlines : Nat}
    (noNewline : '\n' ∉ body) (here : TokenAt rest k token newlines) :
    TokenAt (body ++ '\n' :: rest) ((tokens body).length + k) token (newlines + 1) := by
  obtain ⟨front, back, rfl, split, rfl, rfl⟩ := here
  refine ⟨body ++ '\n' :: front, back, by simp, ?_, ?_, ?_⟩
  · rw [tokens_append_blank rfl, tokens_append_blank rfl, split]
    simp
  · rw [tokens_append_blank rfl]
    simp
  · simp [List.count_eq_zero_of_not_mem noNewline]

/-- The tokens of lines, with the number of the line that each is on. -/
def located (number : Nat) (rows : List (List Char)) : List (Nat × List Char) :=
  (rows.zipIdx number).flatMap fun (row, line) => (tokens row).map (line, ·)

theorem located_cons (number : Nat) (row : List Char) (rows : List (List Char)) :
    located number (row :: rows) =
      (tokens row).map (number, ·) ++ located (number + 1) rows := by
  simp [located]

/-- The lines of a text have the tokens of the text. -/
theorem Lines.map_located {text : List Char} {rows : List (List Char)} (h : Lines '\n' text rows)
    (number : Nat) : (located number rows).map Prod.snd = tokens text := by
  induction h generalizing number with
  | nil => rfl
  | last => simp [located, Function.comp_def]
  | @cons body rest rows free more ih =>
    rw [located_cons, List.map_append, ih, tokens_line, tokens_append_blank rfl]
    simp [Function.comp_def]

/-- The number of a line is found by counting newlines. -/
theorem Lines.tokenAt {text token : List Char} {rows : List (List Char)} {number line k : Nat}
    (h : Lines '\n' text rows) (here : (located number rows)[k]? = some (line, token)) :
    ∃ newlines, TokenAt text k token newlines ∧ line = newlines + number := by
  induction h generalizing number k with
  | nil => simp [located] at here
  | @last body nonempty free =>
    obtain ⟨found, rfl⟩ : (tokens body)[k]? = some token ∧ number = line := by
      simpa [located] using here
    exact ⟨0, tokenAt_zero free found, (Nat.zero_add _).symm⟩
  | @cons body rest rows free more ih =>
    rw [located_cons, tokens_line] at here
    by_cases first : k < (tokens body).length
    · -- the token is on the first of the lines
      rw [List.getElem?_append_left (by simpa using first)] at here
      obtain ⟨found, rfl⟩ : (tokens body)[k]? = some token ∧ number = line := by
        simpa using here
      exact ⟨0, (tokenAt_zero free found).append_line rest, (Nat.zero_add _).symm⟩
    · obtain ⟨k, rfl⟩ := Nat.exists_eq_add_of_le (Nat.not_lt.1 first)
      rw [List.getElem?_append_right (by simp), List.length_map, Nat.add_sub_cancel_left] at here
      obtain ⟨newlines, later, rfl⟩ := ih here
      exact ⟨newlines + 1, later.behind_line free, by omega⟩

end Secd.Text
