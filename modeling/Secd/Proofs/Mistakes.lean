import Secd.Proofs.Assembling
import Secd.Proofs.Encoding

/-!
The mistakes that the assembler names. The first pass stops at the first line with a mistake that
can be seen there, so what comes later has no say. An operand may be a label of a later line, so
whether one stands for anything is only asked in the second pass, when no line has such a mistake.

      first pass      line 1 ── line 2 ── … ── line k ╳       lines behind k are not read
      second pass     operands in order ── … ── operand ╳     the labels of all lines are known

The lines are those of the source, which may end in a carriage return and a newline. The assembler
takes the carriage return for a blank at the end of the line, and blanks there do not matter.
-/

namespace Secd

namespace Text

/-! ### Lines -/

/-- The line without the carriage return that may stand at its end. -/
def dropReturn (cs : List Char) : List Char :=
  if cs.getLast? = some '\r' then cs.dropLast else cs

/-- The lines of a text, without the newline that ends them or the carriage return and the newline.
The last line need not end so, but is not empty then. -/
def lines (cs : List Char) : List (List Char) :=
  let pieces := cs.splitOn '\n'
  pieces.dropLast.map dropReturn ++ [pieces.getLastD []].filter fun piece => !piece.isEmpty

theorem lines_of_free {body : List Char} (nonempty : body ≠ []) (free : '\n' ∉ body) :
    lines body = [body] := by
  simp [lines, List.splitOn_eq_singleton free, nonempty]

theorem lines_append_newline {body : List Char} (free : '\n' ∉ body) (rest : List Char) :
    lines (body ++ '\n' :: rest) = dropReturn body :: lines rest := by
  obtain ⟨piece, pieces, more⟩ := List.exists_cons_of_ne_nil (List.splitOn_ne_nil '\n' rest)
  simp [lines, List.splitOn_append_cons_self_of_not_mem free, more]

example : lines "a\r\n\nb\r".toList = ["a".toList, [], "b\r".toList] := by decide +kernel

/-- A text can be cut behind each of its lines. -/
theorem exists_cut (cs : List Char) (n : Nat) :
    ∃ front, front <+: cs ∧ lines front = (lines cs).take n := by
  obtain ⟨rows, cut⟩ := exists_lines '\n' cs
  induction cut generalizing n with
  | nil => exact ⟨[], List.nil_prefix, (List.take_nil).symm⟩
  | @last body nonempty free =>
    cases n with
    | zero => exact ⟨[], List.nil_prefix, rfl⟩
    | succ n => exact ⟨body, List.prefix_rfl, by simp [lines_of_free nonempty free]⟩
  | @cons body rest rows free _ ih =>
    cases n with
    | zero => exact ⟨[], List.nil_prefix, rfl⟩
    | succ n =>
      obtain ⟨front, begins, same⟩ := ih n
      refine ⟨body ++ '\n' :: front, ?_, ?_⟩
      · exact (List.prefix_append_right_inj _).2 ((List.prefix_cons_inj _).2 begins)
      · rw [lines_append_newline free, lines_append_newline free, same, List.take_succ_cons]

theorem fields_append_gap {sep : Char → Bool} {c : Char} (separates : sep c = true)
    (cs : List Char) : fields sep (cs ++ [c]) = fields sep cs := by
  simp [fields, List.splitOnP_append_cons _ _ separates]

end Text

namespace Assembly

open Effect (exists_ok_of_bind)

/-! ### Statements -/

namespace Statement

theorem uncomment_append (cs : List Char) :
    uncomment (cs ++ ['\r']) = uncomment cs ∨
      uncomment (cs ++ ['\r']) = uncomment cs ++ ['\r'] := by
  unfold uncomment
  rw [List.takeWhile_append]
  split
  · rename_i whole
    right
    rw [(List.takeWhile_prefix _).eq_of_length whole]
    rfl
  · exact .inl rfl

theorem parseInstruction_append (cs : List Char) :
    parseInstruction (cs ++ ['\r']) = parseInstruction cs := by
  rw [parseInstruction, Text.fields_append_gap rfl, parseInstruction]

/-- A carriage return behind the line does not matter. -/
theorem ofBody_append (line : Nat) (cs : List Char) :
    ofBody line (cs ++ ['\r']) = ofBody line cs := by
  by_cases colon : ':' ∈ cs
  · -- the carriage return stands behind the first colon, with the rest of the line
    obtain ⟨front, rest, parts, noColon⟩ := List.eq_append_cons_of_mem colon
    have shorter : rest.length < cs.length := by
      rw [parts, List.length_append, List.length_cons]
      omega
    have more : ofBody line (rest ++ ['\r']) = ofBody line rest := ofBody_append line rest
    rw [parts, List.append_assoc, List.cons_append, ofBody_colon line noColon,
      ofBody_colon line noColon, more]
  · have noColon : ':' ∉ cs ++ ['\r'] := by simp [colon]
    rw [ofBody_of_not_mem line noColon, ofBody_of_not_mem line colon, parseInstruction_append]
termination_by cs.length

theorem ofLine_append (line : Nat) (cs : List Char) :
    ofLine line (cs ++ ['\r']) = ofLine line cs := by
  rw [ofLine_eq_ofBody, ofLine_eq_ofBody]
  rcases uncomment_append cs with same | longer
  · rw [same]
  · rw [longer, ofBody_append]

theorem ofLine_dropReturn (line : Nat) (cs : List Char) :
    ofLine line (Text.dropReturn cs) = ofLine line cs := by
  unfold Text.dropReturn
  split
  · rename_i last
    conv_rhs => rw [← List.dropLast_append_getLast? '\r' last]
    exact (ofLine_append line _).symm
  · rfl

/-- The statements of lines, which are numbered from some number on. -/
def ofLines (number : Nat) (rows : List (List Char)) : List Statement :=
  (rows.zipIdx number).map fun (cs, line) => ofLine line cs

theorem ofLines_cons (number : Nat) (cs : List Char) (rows : List (List Char)) :
    ofLines number (cs :: rows) = ofLine number cs :: ofLines (number + 1) rows :=
  rfl

theorem ofLines_take (number n : Nat) (rows : List (List Char)) :
    ofLines number (rows.take n) = (ofLines number rows).take n := by
  induction rows generalizing number n with
  | nil => simp [ofLines]
  | cons cs rows ih =>
    cases n with
    | zero => rfl
    | succ n => rw [List.take_succ_cons, ofLines_cons, ih, ofLines_cons, List.take_succ_cons]

theorem line_ofLine (line : Nat) (cs : List Char) : (ofLine line cs).line = line := by
  simp only [ofLine]
  split <;> rfl

/-- The number of a line is its place among the lines. -/
theorem line_of_ofLines {number : Nat} {rows : List (List Char)} {before after : List Statement}
    {s : Statement} (parts : ofLines number rows = before ++ s :: after) :
    s.line = number + before.length := by
  induction rows generalizing number before with
  | nil => simp [ofLines] at parts
  | cons cs rows ih =>
    rw [ofLines_cons] at parts
    cases before with
    | nil =>
      obtain ⟨rfl, -⟩ := List.cons.inj parts
      exact line_ofLine number cs
    | cons first before =>
      obtain ⟨-, parts⟩ := List.cons.inj parts
      rw [ih parts, List.length_cons]
      omega

end Statement

/-- Lays all statements out, then encodes them in order. -/
def assembleStatements (statements : List Statement) : Except Error (List Word) := do
  let layout ← Layout.ofStatements statements
  let words ← statements.mapM layout.encode
  return words.flatten

theorem assembleStatements_append_nothing (statements : List Statement) (line : Nat) :
    assembleStatements (statements ++ [⟨line, [], .ok none⟩]) = assembleStatements statements := by
  have laid : Layout.ofStatements (statements ++ [⟨line, [], .ok none⟩]) =
      Layout.ofStatements statements := by
    rw [Layout.ofStatements, List.foldlM_append]
    exact bind_pure _
  rw [assembleStatements, laid, assembleStatements]
  cases Layout.ofStatements statements with
  | error e => rfl
  | ok layout =>
    change (List.mapM layout.encode _ >>= fun words => pure words.flatten) =
      (List.mapM layout.encode _ >>= fun words => pure words.flatten)
    rw [List.mapM_append]
    cases statements.mapM layout.encode with
    | error e => rfl
    | ok words =>
      have same : (words ++ [[]]).flatten = words.flatten := by simp
      exact congrArg Except.ok same

/-- What stands behind the last newline of a text is empty, if it is no line. -/
theorem exists_ofText (number : Nat) (cs : List Char) :
    ∃ rest, Statement.ofLines number (cs.splitOn '\n') =
        Statement.ofLines number (Text.lines cs) ++ rest ∧
      (rest = [] ∨ ∃ line, rest = [⟨line, [], .ok none⟩]) := by
  obtain ⟨rows, cut⟩ := Text.exists_lines '\n' cs
  induction cut generalizing number with
  | nil => exact ⟨_, rfl, .inr ⟨number, rfl⟩⟩
  | @last body nonempty free =>
    refine ⟨[], ?_, .inl rfl⟩
    rw [Text.lines_of_free nonempty free, List.splitOn_eq_singleton free, List.append_nil]
  | @cons body rest rows free _ ih =>
    obtain ⟨more, same, nothing⟩ := ih (number + 1)
    refine ⟨more, ?_, nothing⟩
    rw [List.splitOn_append_cons_self_of_not_mem free, Text.lines_append_newline free,
      Statement.ofLines_cons, Statement.ofLines_cons, Statement.ofLine_dropReturn, same,
      List.cons_append]

/-- The statements of the lines of a text. -/
def Statement.ofSource (text : String) : List Statement := ofLines 1 (Text.lines text.toList)

/-- The assembler sees nothing of a text but its lines. -/
theorem assemble_eq_assembleStatements (text : String) :
    assemble text = assembleStatements (Statement.ofSource text) := by
  obtain ⟨rest, parts, nothing⟩ := exists_ofText 1 text.toList
  have all : assemble text = assembleStatements (Statement.ofSource text ++ rest) := by
    rw [Statement.ofSource, ← parts]
    rfl
  rcases nothing with rfl | ⟨line, rfl⟩
  · rw [all, List.append_nil]
  · rw [all, assembleStatements_append_nothing]

/-! ### Where a pass stops -/

section

variable {ε α β : Type} {xs : List α} {e : ε}

theorem bind_eq_error_iff {x : Except ε α} {f : α → Except ε β} :
    x >>= f = .error e ↔ x = .error e ∨ ∃ a, x = .ok a ∧ f a = .error e := by
  cases x <;> simp [bind, Except.bind]

/-- A loop fails where it fails for the first time. -/
theorem foldlM_eq_error_iff {f : β → α → Except ε β} {b : β} :
    xs.foldlM f b = .error e ↔ ∃ before x after b', xs = before ++ x :: after ∧
      before.foldlM f b = .ok b' ∧ f b' x = .error e := by
  constructor
  · intro failed
    induction xs generalizing b with
    | nil => cases failed
    | cons x xs ih =>
      rw [List.foldlM_cons] at failed
      rcases bind_eq_error_iff.1 failed with stopped | ⟨next, passed, failed⟩
      · exact ⟨[], x, xs, b, rfl, rfl, stopped⟩
      · obtain ⟨before, y, after, b', rfl, others, stopped⟩ := ih failed
        refine ⟨x :: before, y, after, b', rfl, ?_, stopped⟩
        rw [List.foldlM_cons, passed]
        exact others
  · rintro ⟨before, x, after, b', rfl, passed, stopped⟩
    rw [List.foldlM_append, passed]
    change (x :: after).foldlM f b' = _
    rw [List.foldlM_cons, stopped]
    rfl

theorem exists_of_mapM_eq_error {f : α → Except ε β} (failed : xs.mapM f = .error e) :
    ∃ before x after, xs = before ++ x :: after ∧ (∀ y ∈ before, ∃ z, f y = .ok z) ∧
      f x = .error e := by
  induction xs with
  | nil => cases failed
  | cons x xs ih =>
    rw [List.mapM_cons] at failed
    rcases bind_eq_error_iff.1 failed with stopped | ⟨z, passed, failed⟩
    · exact ⟨[], x, xs, rfl, List.forall_mem_nil _, stopped⟩
    · rcases bind_eq_error_iff.1 failed with failed | ⟨zs, -, ⟨⟩⟩
      obtain ⟨before, y, after, rfl, others, stopped⟩ := ih failed
      exact ⟨x :: before, y, after, rfl, List.forall_mem_cons.2 ⟨⟨z, passed⟩, others⟩, stopped⟩

end

theorem assembleStatements_eq_error_iff {statements : List Statement} {e : Error} :
    assembleStatements statements = .error e ↔ Layout.ofStatements statements = .error e ∨
      ∃ layout, Layout.ofStatements statements = .ok layout ∧
        statements.mapM layout.encode = .error e := by
  rw [assembleStatements, bind_eq_error_iff]
  refine or_congr_right (exists_congr fun layout => and_congr_right fun _ => ?_)
  rw [bind_eq_error_iff]
  refine or_iff_left ?_
  rintro ⟨words, -, ⟨⟩⟩

/-! ### Mistakes of lines -/

/-- The operands of a line. -/
def Statement.operands (s : Statement) : List Name :=
  match s.body with
  | .ok (some i) => i.operands
  | _ => []

/-- The operands of all lines in order, each with the number of its line. -/
def uses (statements : List Statement) : List (Nat × Name) :=
  statements.flatMap fun s => s.operands.map fun operand => (s.line, operand)

/-- The operand is the literal of a word, or a label that one of the lines defines. -/
def StandsFor (statements : List Statement) (operand : Name) : Prop :=
  (∃ word : Word, Literal operand word.toInt) ∨ operand ∈ statements.flatMap Statement.labels

/-- The problem can be seen in a line when no more is known than the lines before it. -/
def Problem.IsEarly : Problem → Prop
  | invalidLabel _ | duplicateLabel _ | unknownInstruction _ | operandCount _ _ => True
  | undefinedLabel _ => False

/-- Behind these lines, a line has a problem: it is not to be read, or it defines a label again. -/
inductive Mistake (before : List Statement) (s : Statement) : Problem → Prop where
  | unread {problem : Problem} (body : s.body = .error problem) : Mistake before s problem
  | again {front back : List Name} {label : Name} (labels : s.labels = front ++ label :: back)
      (known : label ∈ before.flatMap Statement.labels ∨ label ∈ front) :
      Mistake before s (.duplicateLabel label)

/-- No line has a problem behind the lines before it. -/
def Flawless (statements : List Statement) : Prop :=
  ∀ before s after, statements = before ++ s :: after → ∀ problem, ¬ Mistake before s problem

/-- The line with this number has the problem, and no line before it has any. -/
def FirstMistake (statements : List Statement) (k : Nat) (problem : Problem) : Prop :=
  ∃ before s after, statements = before ++ s :: after ∧ k = before.length + 1 ∧
    Flawless before ∧ Mistake before s problem

/-- The operand is one of this line, and the first of all that stands for nothing. -/
def FirstUnknown (statements : List Statement) (k : Nat) (operand : Name) : Prop :=
  ∃ front back, uses statements = front ++ (k, operand) :: back ∧
    (∀ use ∈ front, StandsFor statements use.2) ∧ ¬ StandsFor statements operand

theorem isEarly_of_parseInstruction {cs : List Char} {problem : Problem}
    (failed : parseInstruction cs = .error problem) : problem.IsEarly := by
  unfold parseInstruction at failed
  split at failed
  · cases failed
  · split at failed
    · cases failed
      trivial
    · split at failed
      · cases failed
      · cases failed
        trivial

theorem Statement.isEarly_of_ofLine {line : Nat} {cs : List Char} {problem : Problem}
    (failed : (ofLine line cs).body = .error problem) : problem.IsEarly := by
  simp only [ofLine] at failed
  split at failed
  · exact isEarly_of_parseInstruction failed
  · cases failed
    trivial

theorem Mistake.isEarly {text : String} {before : List Statement} {s : Statement}
    {problem : Problem} (mem : s ∈ Statement.ofSource text) (mistake : Mistake before s problem) :
    problem.IsEarly := by
  cases mistake with
  | unread body =>
    obtain ⟨⟨cs, line⟩, -, rfl⟩ := List.mem_map.1 mem
    exact Statement.isEarly_of_ofLine body
  | again => trivial

/-! ### The first pass -/

theorem flatMap_labels_of_means {statements : List Statement} {lines : List Line}
    (means : List.Forall₂ Means statements lines) :
    lines.flatMap Line.labels = statements.flatMap Statement.labels := by
  induction means with
  | nil => rfl
  | cons first _ ih => rw [List.flatMap_cons, List.flatMap_cons, ih, first.1]

namespace Layout

variable {statements before : List Statement} {layout : Layout} {s : Statement} {e : Error}

theorem address?_eq_none_iff (laid : ofStatements statements = .ok layout) {label : Name} :
    layout.address? label = none ↔ label ∉ statements.flatMap Statement.labels := by
  obtain ⟨lines, means, covers⟩ := covers_empty.run laid
  rw [List.nil_append] at covers
  rw [covers.fresh_iff, flatMap_labels_of_means means]

/-- A line that cannot be laid out has a problem, and the error tells which line and problem. -/
theorem mistake_of_place (laid : ofStatements before = .ok layout)
    (failed : layout.place s = .error e) :
    ∃ problem, e = ⟨s.line, problem⟩ ∧ Mistake before s problem := by
  rcases bind_eq_error_iff.1 failed with stopped | ⟨marked, -, stopped⟩
  · -- a label is refused only if the labels before it on the line, or on other lines, have it
    obtain ⟨front, label, back, marked, parts, passed, stopped⟩ := foldlM_eq_error_iff.1 stopped
    obtain ⟨-, rfl⟩ := foldlM_define_eq_ok_iff.1 passed
    unfold define at stopped
    split at stopped
    · rename_i address found
      cases stopped
      refine ⟨_, rfl, .again parts ?_⟩
      by_contra fresh
      rw [not_or] at fresh
      rw [address?_marks, if_neg fresh.2, (address?_eq_none_iff laid).2 fresh.1] at found
      cases found
    · cases stopped
  · split at stopped
    · rename_i problem unread
      cases stopped
      exact ⟨problem, rfl, .unread unread⟩
    · cases stopped
    · cases stopped

/-- Lines that can be laid out have no problem. -/
theorem flawless_of_ofStatements (laid : ofStatements statements = .ok layout) :
    Flawless statements := by
  obtain ⟨lines, means, covers⟩ := covers_empty.run laid
  have unique := covers.unique
  rw [List.nil_append, flatMap_labels_of_means means] at unique
  rintro before s after rfl problem mistake
  cases mistake with
  | unread body =>
    obtain ⟨line, -, read⟩ := exists_forall₂_iff.1 ⟨lines, means⟩ s List.mem_append_cons_self
    rw [body] at read
    cases read
  | @again front back label labels known =>
    rw [List.flatMap_append, List.flatMap_cons, labels, List.nodup_append,
      List.append_assoc, List.nodup_append] at unique
    obtain ⟨-, ⟨-, -, apart⟩, apart'⟩ := unique
    rcases known with earlier | here
    · exact apart' label earlier label (by simp) rfl
    · exact apart label here label (by simp) rfl

/-! ### The second pass -/

theorem resolve_eq_error_iff (laid : ofStatements statements = .ok layout) {number : Nat}
    {operand : Name} :
    layout.resolve number operand = .error e ↔
      ¬ StandsFor statements operand ∧ e = ⟨number, .undefinedLabel operand⟩ := by
  have noLabel : layout.address? operand = none ↔ operand ∉ statements.flatMap Statement.labels :=
    address?_eq_none_iff laid
  simp only [StandsFor, not_or, not_exists, ← noLabel, ← Word.parse_eq_ok_iff]
  unfold resolve
  cases Word.parse operand with
  | ok word => simp
  | error cause => cases layout.address? operand <;> simp [eq_comm]

theorem standsFor_of_resolve (laid : ofStatements statements = .ok layout) {number : Nat}
    {operand : Name} {word : Word} (resolved : layout.resolve number operand = .ok word) :
    StandsFor statements operand := by
  by_contra unknown
  rw [(resolve_eq_error_iff laid).2 ⟨unknown, rfl⟩] at resolved
  cases resolved

theorem exists_of_encode_eq_error (failed : layout.encode s = .error e) :
    ∃ front operand back, s.operands = front ++ operand :: back ∧
      (∀ o ∈ front, ∃ word, layout.resolve s.line o = .ok word) ∧
      layout.resolve s.line operand = .error e := by
  unfold encode at failed
  split at failed
  · rename_i i body
    rcases bind_eq_error_iff.1 failed with stopped | ⟨words, -, ⟨⟩⟩
    obtain ⟨front, operand, back, parts, resolved, stopped⟩ := exists_of_mapM_eq_error stopped
    refine ⟨front, operand, back, ?_, resolved, stopped⟩
    rw [Statement.operands, body]
    exact parts
  · cases failed

theorem exists_resolve_of_encode {words : List Word} (passed : layout.encode s = .ok words) :
    ∀ o ∈ s.operands, ∃ word, layout.resolve s.line o = .ok word := by
  rw [encode] at passed
  rw [Statement.operands]
  cases body : s.body with
  | error problem => exact List.forall_mem_nil _
  | ok instruction =>
    cases instruction with
    | none => exact List.forall_mem_nil _
    | some i =>
      rw [body] at passed
      obtain ⟨values, resolved, -⟩ := exists_ok_of_bind passed
      exact exists_forall₂_iff.1 ⟨values, mapM_eq_ok_iff.1 resolved⟩

/-- The second pass stops at the first operand that stands for nothing. -/
theorem exists_of_mapM_encode_eq_error (laid : ofStatements statements = .ok layout)
    (failed : statements.mapM layout.encode = .error e) :
    ∃ k operand, FirstUnknown statements k operand ∧ e = ⟨k, .undefinedLabel operand⟩ := by
  obtain ⟨before, s, after, parts, encoded, stopped⟩ := exists_of_mapM_eq_error failed
  obtain ⟨front, operand, back, operands, resolved, stopped⟩ := exists_of_encode_eq_error stopped
  obtain ⟨unknown, rfl⟩ := (resolve_eq_error_iff laid).1 stopped
  refine ⟨s.line, operand, ⟨uses before ++ front.map (s.line, ·),
    back.map (s.line, ·) ++ uses after, ?_, ?_, unknown⟩, rfl⟩
  · simp [uses, parts, operands]
  · intro use mem
    rcases List.mem_append.1 mem with earlier | here
    · obtain ⟨s', among, mem⟩ := List.mem_flatMap.1 earlier
      obtain ⟨o, isOperand, rfl⟩ := List.mem_map.1 mem
      obtain ⟨words, passed⟩ := encoded s' among
      obtain ⟨word, stands⟩ := exists_resolve_of_encode passed o isOperand
      exact standsFor_of_resolve laid stands
    · obtain ⟨o, isOperand, rfl⟩ := List.mem_map.1 here
      obtain ⟨word, stands⟩ := resolved o isOperand
      exact standsFor_of_resolve laid stands

end Layout

/-! ### Errors -/

variable {text text' : String} {k n : Nat} {problem : Problem}

theorem ofStatements_eq_error_of_assemble {e : Error} (early : e.problem.IsEarly)
    (failed : assemble text = .error e) :
    Layout.ofStatements (Statement.ofSource text) = .error e := by
  rw [assemble_eq_assembleStatements] at failed
  rcases assembleStatements_eq_error_iff.1 failed with stopped | ⟨layout, laid, stopped⟩
  · exact stopped
  · obtain ⟨k, operand, -, rfl⟩ := Layout.exists_of_mapM_encode_eq_error laid stopped
    cases early

/-- The line of an error that can be seen there is where the first pass stops. -/
theorem exists_stop (early : problem.IsEarly) (failed : assemble text = .error ⟨k, problem⟩) :
    ∃ before s after layout, Statement.ofSource text = before ++ s :: after ∧
      k = before.length + 1 ∧ Layout.ofStatements before = .ok layout ∧
      layout.place s = .error ⟨k, problem⟩ ∧ Mistake before s problem := by
  have stopped := ofStatements_eq_error_of_assemble early failed
  obtain ⟨before, s, after, layout, parts, laid, stopped⟩ := foldlM_eq_error_iff.1 stopped
  obtain ⟨problem, same, mistake⟩ := Layout.mistake_of_place laid stopped
  cases same
  have position : s.line = before.length + 1 := by
    rw [Statement.line_of_ofLines parts, Nat.add_comm]
  exact ⟨before, s, after, layout, parts, position, laid, stopped, mistake⟩

theorem ofSource_take
    (same : (Text.lines text'.toList).take n = (Text.lines text.toList).take n) :
    (Statement.ofSource text').take n = (Statement.ofSource text).take n := by
  rw [Statement.ofSource, ← Statement.ofLines_take, same, Statement.ofLines_take,
    Statement.ofSource]

/-- What comes behind the line of such an error does not matter. -/
theorem assemble_of_same_lines (early : problem.IsEarly)
    (failed : assemble text = .error ⟨k, problem⟩)
    (same : (Text.lines text'.toList).take k = (Text.lines text.toList).take k) :
    assemble text' = .error ⟨k, problem⟩ := by
  obtain ⟨before, s, after, layout, parts, rfl, laid, stopped, -⟩ := exists_stop early failed
  have upTo : (Statement.ofSource text).take (before.length + 1) = before ++ [s] := by
    simp [parts, List.take_append]
  have parts' : Statement.ofSource text' =
      before ++ s :: (Statement.ofSource text').drop (before.length + 1) := by
    rw [List.append_cons, ← upTo, ← ofSource_take same, List.take_append_drop]
  rw [assemble_eq_assembleStatements, assembleStatements_eq_error_iff]
  exact .inl (foldlM_eq_error_iff.2 ⟨before, s, _, layout, parts', laid, stopped⟩)

/-- The lines before it alone have no such error. -/
theorem not_isEarly_of_cut {cut : String} {e : Error} (early : problem.IsEarly)
    (failed : assemble text = .error ⟨k, problem⟩)
    (same : Text.lines cut.toList = (Text.lines text.toList).take (k - 1))
    (failed' : assemble cut = .error e) : ¬ e.problem.IsEarly := by
  intro early'
  obtain ⟨before, s, after, layout, parts, rfl, laid, -, -⟩ := exists_stop early failed
  have others : Statement.ofSource cut = before := by
    rw [Statement.ofSource, same, Statement.ofLines_take, ← Statement.ofSource, parts]
    simp
  have stopped := ofStatements_eq_error_of_assemble early' failed'
  rw [others, laid] at stopped
  cases stopped

/-- An operand is looked at when no line has a problem by itself. -/
theorem flawless_of_undefinedLabel {operand : Name}
    (failed : assemble text = .error ⟨k, .undefinedLabel operand⟩) :
    Flawless (Statement.ofSource text) ∧ FirstUnknown (Statement.ofSource text) k operand := by
  rw [assemble_eq_assembleStatements] at failed
  rcases assembleStatements_eq_error_iff.1 failed with stopped | ⟨layout, laid, stopped⟩
  · obtain ⟨before, s, after, layout, parts, laid, stopped⟩ := foldlM_eq_error_iff.1 stopped
    -- the first pass knows no operands, so its problems are others
    obtain ⟨problem, same, mistake⟩ := Layout.mistake_of_place laid stopped
    cases same
    have mem : s ∈ Statement.ofSource text := parts ▸ List.mem_append_cons_self
    cases mistake.isEarly mem
  · obtain ⟨k, operand, first, same⟩ := Layout.exists_of_mapM_encode_eq_error laid stopped
    cases same
    exact ⟨Layout.flawless_of_ofStatements laid, first⟩

/-- The message tells the line, the kind of the problem and the name that has it as it stands there.
Of operands it tells how many the instruction takes and how many there are. -/
inductive Names (k : Nat) : Problem → String → Prop where
  | invalidLabel (label : Name) :
      Names k (.invalidLabel label)
        ("line " ++ k.repr ++ ": " ++ ("invalid label `" ++ String.ofList label ++ "`"))
  | duplicateLabel (label : Name) :
      Names k (.duplicateLabel label)
        ("line " ++ k.repr ++ ": " ++ ("duplicate label `" ++ String.ofList label ++ "`"))
  | unknownInstruction (mnemonic : Name) :
      Names k (.unknownInstruction mnemonic)
        ("line " ++ k.repr ++ ": " ++ ("unknown instruction `" ++ String.ofList mnemonic ++ "`"))
  | operandCount (op : Opcode) (given : Nat) :
      Names k (.operandCount op given)
        ("line " ++ k.repr ++ ": " ++
          (op.mnemonic ++ " takes " ++ op.operandCount.repr ++ " operand(s), got " ++ given.repr))
  | undefinedLabel (operand : Name) :
      Names k (.undefinedLabel operand)
        ("line " ++ k.repr ++ ": " ++ ("undefined label `" ++ String.ofList operand ++ "`"))

/-- The assembler refuses the text with this message. -/
def Complains (text message : String) : Prop :=
  ∃ e : Error, assemble text = .error e ∧ e.message = message

/-- Every error says in its message what and where it is. -/
theorem names_message (k : Nat) (problem : Problem) :
    Names k problem (Error.message ⟨k, problem⟩) := by
  cases problem with
  | invalidLabel label => exact .invalidLabel label
  | duplicateLabel label => exact .duplicateLabel label
  | unknownInstruction mnemonic => exact .unknownInstruction mnemonic
  | operandCount op given => exact .operandCount op given
  | undefinedLabel operand => exact .undefinedLabel operand

theorem complains_of_error {e : Error} (failed : assemble text = .error e) :
    Complains text e.message :=
  ⟨e, failed, rfl⟩

/-- An error that can be seen in a line names the first line that has one, and its message tells the
line and what is wrong there. It is the error of every text with the same lines up to there, with
the same message, and the lines before it alone have none. Only if no line has one, an operand that
stands for nothing is named, and it is the first; the message tells its line and the operand. -/
theorem assemble_names_first_mistake (text : String) :
    (∀ k problem, assemble text = .error ⟨k, problem⟩ → problem.IsEarly →
      FirstMistake (Statement.ofSource text) k problem ∧
      (∃ message, Names k problem message ∧ Complains text message ∧
        ∀ text' : String, (Text.lines text'.toList).take k = (Text.lines text.toList).take k →
          assemble text' = .error ⟨k, problem⟩ ∧ Complains text' message) ∧
      (∃ cut : String, cut.toList <+: text.toList ∧
        Text.lines cut.toList = (Text.lines text.toList).take (k - 1)) ∧
      ∀ (cut : String) (e : Error),
        Text.lines cut.toList = (Text.lines text.toList).take (k - 1) →
        assemble cut = .error e → ¬ e.problem.IsEarly) ∧
    ∀ k token, assemble text = .error ⟨k, .undefinedLabel token⟩ →
      Flawless (Statement.ofSource text) ∧ FirstUnknown (Statement.ofSource text) k token ∧
      ∃ message, Names k (.undefinedLabel token) message ∧ Complains text message := by
  refine ⟨fun k problem failed early => ⟨?_, ?_, ?_, ?_⟩, fun k token failed => ?_⟩
  · obtain ⟨before, s, after, layout, parts, position, laid, -, mistake⟩ := exists_stop early failed
    exact ⟨before, s, after, parts, position, Layout.flawless_of_ofStatements laid, mistake⟩
  · refine ⟨_, names_message k problem, complains_of_error failed, fun text' same => ?_⟩
    have failed' := assemble_of_same_lines early failed same
    exact ⟨failed', complains_of_error failed'⟩
  · obtain ⟨front, begins, same⟩ := Text.exists_cut text.toList (k - 1)
    exact ⟨String.ofList front, by rwa [String.toList_ofList], by rwa [String.toList_ofList]⟩
  · exact fun cut e => not_isEarly_of_cut early failed
  · obtain ⟨flawless, first⟩ := flawless_of_undefinedLabel failed
    exact ⟨flawless, first, _, names_message k _, complains_of_error failed⟩

/-- The second definition of a label hides an operand that is none, until it is cut off. -/
theorem assemble_names_second_definition :
    let text : String := "a: LDC x\r\n\r\nb: a: HALT\nPUSH 1"
    let shorter : String := "a: LDC x\n\nb: a: HALT\n"
    let cut : String := "a: LDC x\n\n"
    assemble text = .error ⟨3, .duplicateLabel ['a']⟩ ∧
      (Problem.duplicateLabel ['a']).IsEarly ∧
      FirstMistake (Statement.ofSource text) 3 (.duplicateLabel ['a']) ∧
      Complains text "line 3: duplicate label `a`" ∧
      (Text.lines shorter.toList).take 3 = (Text.lines text.toList).take 3 ∧
      assemble shorter = .error ⟨3, .duplicateLabel ['a']⟩ ∧
      Complains shorter "line 3: duplicate label `a`" ∧
      Text.lines cut.toList = (Text.lines text.toList).take 2 ∧
      assemble cut = .error ⟨1, .undefinedLabel ['x']⟩ ∧
      Flawless (Statement.ofSource cut) ∧ FirstUnknown (Statement.ofSource cut) 1 ['x'] ∧
      Complains cut "line 1: undefined label `x`" := by
  intro text shorter cut
  have failed : assemble text = .error ⟨3, .duplicateLabel ['a']⟩ := by decide +kernel
  have failed' : assemble cut = .error ⟨1, .undefinedLabel ['x']⟩ := by decide +kernel
  have begins : (Text.lines shorter.toList).take 3 = (Text.lines text.toList).take 3 := by
    decide +kernel
  have lines : Text.lines cut.toList = (Text.lines text.toList).take 2 := by decide +kernel
  obtain ⟨first, ⟨message, names, complains, same⟩, -, -⟩ :=
    (assemble_names_first_mistake text).1 3 _ failed trivial
  obtain ⟨flawless, unknown, message', names', complains'⟩ :=
    (assemble_names_first_mistake cut).2 1 _ failed'
  cases names
  cases names'
  obtain ⟨again, complains''⟩ := same shorter begins
  exact ⟨failed, trivial, first, complains, begins, again, complains'', lines, failed', flawless,
    unknown, complains'⟩

end Assembly

end Secd
