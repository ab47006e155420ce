import Secd.Proofs.Alignment
import Secd.Proofs.Assembling
import Secd.Proofs.Decoding

/-!
Programs with labels stay on their instructions. A label stands for the number of words before its
line, and the words before a line are those of complete instructions; so if all targets of a program
are labels, its code divides into instructions at the very places that its targets point to.

      source     loop: LDC 1   SEL loop, end   AP   end:
      words            1 1   │ 6   0    6    │ 9  │
      boundaries       0       2               5    6

Listings find the same boundaries, as they decode from the front.
-/

namespace Secd.Assembly

open Instruction (encodeAll encodeAll_append encodeAll_cons)

/-- All operands of the line that are taken for addresses are written as names of labels. -/
def Line.LabelTargets (line : Line) : Prop :=
  ∀ i ∈ line.instruction, i.op.takesTargets = true → ∀ operand ∈ i.operands, LabelName operand

/-- The same for all lines of a text. -/
def LabelTargets (text : String) : Prop :=
  ∃ lines, Valid text lines ∧ ∀ line ∈ lines, line.LabelTargets

/-- The instruction of the line, if any, has as many operands as its opcode takes. -/
def Line.Complete (line : Line) : Prop := ∀ i ∈ line.instruction, i.Complete

variable {text : String} {lines part : List Line} {words : List Word}

/-! ### The instructions of a text -/

/-- The second instruction is the first one with what its operands stand for. -/
structure Resolves (lines : List Line) (i : Instruction Name) (j : Instruction Word) : Prop where
  op : j.op = i.op
  operands : List.Forall₂ (Stands lines) i.operands j.operands

/-- The words of lines are those of their instructions. -/
theorem exists_instructions (emits : Emits lines part words) :
    ∃ is, List.Forall₂ (Resolves lines) (part.filterMap Line.instruction) is ∧
      words = encodeAll is := by
  induction part generalizing words with
  | nil =>
    obtain ⟨_, _ | _, rfl⟩ := emits
    exact ⟨[], .nil, rfl⟩
  | cons line part ih =>
    obtain ⟨piece, rest, rfl, first, others⟩ := emits_cons_iff.1 emits
    obtain ⟨is, resolve, rfl⟩ := ih others
    cases first with
    | nothing => exact ⟨is, resolve, rfl⟩
    | @instruction op operands values labels stand =>
      exact ⟨⟨op, values⟩ :: is, .cons ⟨rfl, stand⟩ resolve, rfl⟩

theorem Reads.complete {cs : List Char} {line : Line} (reads : Reads cs line) :
    line.Complete := by
  induction reads with
  | nothing => exact nofun
  | instruction _ _ count =>
    rintro _ ⟨⟩
    exact count
  | label _ _ _ _ ih => exact ih

theorem Valid.complete (valid : Valid text lines) : ∀ line ∈ lines, line.Complete := by
  intro line mem
  obtain ⟨_, -, _, -, reads⟩ := exists_mem_left valid.reads line mem
  exact reads.complete

theorem Resolves.complete {i : Instruction Name} {j : Instruction Word}
    (resolves : Resolves lines i j) (complete : i.Complete) : j.Complete := by
  rw [Instruction.Complete, ← resolves.operands.length_eq, complete, resolves.op]

/-- The instruction is complete, and what it takes for addresses are those of labels. -/
structure Fits (lines : List Line) (j : Instruction Word) : Prop where
  complete : j.Complete
  targets : j.op.takesTargets = true → ∀ word ∈ j.operands,
    ∃ label address, Places lines label address ∧ word = Int64.ofNat address

theorem Resolves.fits {i : Instruction Name} {j : Instruction Word} (resolves : Resolves lines i j)
    (complete : i.Complete)
    (names : i.op.takesTargets = true → ∀ operand ∈ i.operands, LabelName operand) :
    Fits lines j where
  complete := resolves.complete complete
  targets := by
    intro takes word mem
    rw [resolves.op] at takes
    obtain ⟨operand, operandMem, stands⟩ := exists_mem_left resolves.operands word mem
    cases stands with
    | literal literal => exact absurd literal (names takes operand operandMem).not_literal
    | label places => exact ⟨operand, _, places, rfl⟩

/-- All instructions of a part of the lines are complete and go to labels. -/
theorem exists_fitting (emits : Emits lines part words)
    (complete : ∀ line ∈ part, line.Complete) (targets : ∀ line ∈ part, line.LabelTargets) :
    ∃ is, (∀ j ∈ is, Fits lines j) ∧ words = encodeAll is := by
  obtain ⟨is, resolve, rfl⟩ := exists_instructions emits
  refine ⟨is, fun j mem => ?_, rfl⟩
  obtain ⟨i, source, resolves⟩ := exists_mem_left resolve j mem
  obtain ⟨line, lineMem, isInstruction⟩ := List.mem_filterMap.1 source
  exact resolves.fits (complete line lineMem i isInstruction) (targets line lineMem i isInstruction)

/-! ### Boundaries -/

/-- The words up to the address are those of instructions, and so are the words from there on. -/
def Boundary (lines : List Line) (words : List Word) (address : Nat) : Prop :=
  ∃ front back, (∀ j ∈ front ++ back, Fits lines j) ∧ words = encodeAll (front ++ back) ∧
    address = (encodeAll front).length

variable {a : Nat} {op : Opcode}

theorem Boundary.le (boundary : Boundary lines words a) : a ≤ words.length := by
  obtain ⟨front, back, -, rfl, rfl⟩ := boundary
  rw [encodeAll_append, List.length_append]
  exact Nat.le_add_right _ _

/-- A boundary inside the code is the address of an instruction. -/
theorem Boundary.instruction (boundary : Boundary lines words a) (inside : a < words.length) :
    ∃ front j back, (∀ k ∈ front ++ j :: back, Fits lines k) ∧
      words = encodeAll (front ++ j :: back) ∧ a = (encodeAll front).length := by
  obtain ⟨front, _ | ⟨j, back⟩, fit, rfl, rfl⟩ := boundary
  · rw [List.append_nil] at inside
    exact absurd inside (Nat.lt_irrefl _)
  · exact ⟨front, j, back, fit, rfl, rfl⟩

/-- The words of an instruction, seen from its address. -/
theorem getElem?_encodeAll (front back : List (Instruction Word)) (j : Instruction Word) (n : Nat) :
    (encodeAll (front ++ j :: back))[(encodeAll front).length + n]? =
      (j.op.word :: (j.operands ++ encodeAll back))[n]? := by
  rw [encodeAll_append, List.getElem?_append_right (Nat.le_add_right _ _), Nat.add_sub_cancel_left,
    encodeAll_cons]

theorem Boundary.at_opcode (boundary : Boundary lines words a) (found : words[a]? = some op.word) :
    ∃ front j back, (∀ k ∈ front ++ j :: back, Fits lines k) ∧
      words = encodeAll (front ++ j :: back) ∧ a = (encodeAll front).length ∧ j.op = op := by
  obtain ⟨inside, -⟩ := List.getElem?_eq_some_iff.1 found
  obtain ⟨front, j, back, fit, rfl, rfl⟩ := boundary.instruction inside
  refine ⟨front, j, back, fit, rfl, rfl, ?_⟩
  have head := getElem?_encodeAll front back j 0
  rw [Nat.add_zero, found, List.getElem?_cons_zero, Option.some.injEq] at head
  exact Opcode.word_inj head.symm

theorem Boundary.next (boundary : Boundary lines words a) (found : words[a]? = some op.word) :
    Boundary lines words (a + 1 + op.operandCount) := by
  obtain ⟨front, j, back, fit, rfl, rfl, rfl⟩ := boundary.at_opcode found
  refine ⟨front ++ [j], back, ?_, ?_, ?_⟩
  · rwa [List.append_assoc]
  · rw [List.append_assoc]
    rfl
  · have complete := (fit j (by simp)).complete
    rw [Instruction.Complete] at complete
    simp [complete]
    omega

/-- The address of a label is a boundary. -/
theorem boundary_of_places {label : Name} (encodes : Encodes lines words)
    (complete : ∀ line ∈ lines, line.Complete) (targets : ∀ line ∈ lines, line.LabelTargets)
    (places : Places lines label a) : Boundary lines words a := by
  obtain ⟨before, line, after, rfl, -, rfl⟩ := places
  obtain ⟨front, back, rfl, length, emits, emits'⟩ := encodes.split
  rw [List.forall_mem_append] at complete targets
  obtain ⟨is, fit, rfl⟩ := exists_fitting emits complete.1 targets.1
  obtain ⟨js, fit', rfl⟩ := exists_fitting emits' complete.2 targets.2
  exact ⟨is, js, List.forall_mem_append.2 ⟨fit, fit'⟩, (encodeAll_append is js).symm, length.symm⟩

theorem toIndex?_ofNat {n : Nat} (small : n < 2 ^ 63) :
    Word.toIndex? (Int64.ofNat n) = some n := by
  rw [Word.toIndex?, Int64.toInt_ofNat_of_lt small]
  rfl

theorem Boundary.target {n : Nat} {word : Word} (boundary : Boundary lines words a)
    (found : words[a]? = some op.word) (takes : op.takesTargets = true) (pos : 0 < n)
    (le : n ≤ op.operandCount) (operand : words[a + n]? = some word) :
    ∃ label address, Places lines label address ∧ word = Int64.ofNat address := by
  obtain ⟨front, j, back, fit, rfl, rfl, rfl⟩ := boundary.at_opcode found
  obtain ⟨complete, targets⟩ := fit j (List.mem_append_right _ List.mem_cons_self)
  obtain ⟨k, rfl⟩ := Nat.exists_eq_succ_of_ne_zero (Nat.ne_of_gt pos)
  rw [getElem?_encodeAll, List.getElem?_cons_succ,
    List.getElem?_append_left (complete ▸ le)] at operand
  exact targets takes word (List.mem_of_getElem? operand)

/-- The code of a text whose targets are labels divides into its instructions. -/
theorem divides_of_labelTargets (valid : Valid text lines) (encodes : Encodes lines words)
    (targets : ∀ line ∈ lines, line.LabelTargets) (small : words.length < 2 ^ 63)
    (capacity : Nat) :
    Code.Divides ⟨capacity, words.toArray⟩ (Boundary lines words) := by
  have same (address : Nat) :
      Code.fetch? ⟨capacity, words.toArray⟩ address = words[address]? := by
    simp [Code.fetch?]
  have size : Code.size ⟨capacity, words.toArray⟩ = words.length := by simp [Code.size]
  refine ⟨?_, ?_, ?_, ?_, ?_⟩
  · obtain ⟨is, fit, rfl⟩ := exists_fitting encodes valid.complete targets
    exact ⟨[], is, fit, rfl, rfl⟩
  · intro a boundary
    rw [size]
    exact boundary.le
  · intro a boundary inside
    rw [size] at inside
    obtain ⟨front, j, back, -, rfl, rfl⟩ := boundary.instruction inside
    exact ⟨j.op, by rw [same]; exact getElem?_encodeAll front back j 0⟩
  · intro a op boundary found
    exact boundary.next (same a ▸ found)
  · intro a n op word boundary found takes pos le operand
    rw [same] at found operand
    obtain ⟨label, address, places, rfl⟩ := boundary.target found takes pos le operand
    have there := boundary_of_places encodes valid.complete targets places
    exact ⟨address, there, toIndex?_ofNat (Nat.lt_of_le_of_lt there.le small)⟩

/-- Listings find every boundary inside the code. -/
theorem Boundary.listed (boundary : Boundary lines words a) :
    (∃ e ∈ Listing.ofWords words, e.op.isSome = true ∧ e.address = a) ∨ a = words.length := by
  rcases Nat.lt_or_eq_of_le boundary.le with inside | atEnd
  · left
    obtain ⟨front, j, back, fit, rfl, rfl⟩ := boundary.instruction inside
    rw [Listing.ofWords_encodeAll fun k mem => (fit k mem).complete]
    refine ⟨_, Listing.mem_entriesAt 0 front back j, rfl, Nat.zero_add _⟩
  · exact .inr atEnd

/-! ### Runs -/

/-- Code that can be loaded is so short that every address in it is a word. -/
theorem length_lt_of_load {caps : Capacities} {code : Code} {m : Machine}
    (loaded : Machine.load? words.toArray caps = .ok (code, m)) : words.length < 2 ^ 63 := by
  obtain ⟨_, built, -⟩ := Effect.exists_ok_of_bind loaded
  unfold Code.ofWords? at built
  split at built
  · cases built
  · rename_i room
    obtain ⟨_, reserved, -⟩ := Effect.exists_ok_of_bind built
    unfold Segment.reserve at reserved
    split at reserved
    · rename_i below
      rw [List.size_toArray, Nat.not_lt] at room
      exact Nat.lt_of_le_of_lt (Nat.le_trans room below) (by decide)
    · cases reserved

/-- A program whose targets are labels is at an instruction of its listing or at the end of its
code, after every step up to the first HALT or trap. It meets no unknown opcode, and if it leaves
the code it does so at the end. -/
theorem stays_on_instructions {caps : Capacities} {code : Code} {m : Machine}
    (assembled : assemble text = .ok words) (targets : LabelTargets text)
    (loaded : Machine.load? words.toArray caps = .ok (code, m)) :
    (∀ k result m', Machine.advance code k m = .ok result m' →
      (∃ e ∈ Listing.ofWords words, e.op.isSome = true ∧ e.address = m'.pc) ∨
        m'.pc = words.length) ∧
      ∀ trap m', Machine.run code m = .error trap m' →
        (∀ word, trap.fault ≠ .badOpcode word) ∧
          ∀ address length, trap.fault = .outOfCode address length → address = words.length := by
  have small := length_lt_of_load loaded
  obtain ⟨rfl, rfl⟩ := Machine.load?_eq_ok loaded
  obtain ⟨lines, valid, targets⟩ := targets
  -- the lines whose targets are labels are the ones that were assembled
  obtain ⟨words', encodes⟩ := exists_encodes_iff.2 valid.operands
  have same := assemble_of_valid valid encodes
  rw [assembled, Except.ok.injEq] at same
  subst same
  have divides := divides_of_labelTargets valid encodes targets small caps.code
  have aligned := Machine.aligned_fresh caps divides
  constructor
  · intro k result m' advanced
    have ends := aligned.advance divides k
    rw [advanced] at ends
    exact Boundary.listed ends.pc
  · intro trap m' failed
    have fair := aligned.onlyAtEnd_of_run divides failed
    have size : Code.size ⟨caps.code, words.toArray⟩ = words.length := by simp [Code.size]
    rw [size] at fair
    refine ⟨fun word isFault => ?_, fun address length isFault => ?_⟩
    · rw [isFault] at fair
      exact fair
    · rw [isFault] at fair
      exact fair

/-- Both targets of the branch are the end of the code, and that is where the run ends. -/
theorem stays_on_instructions_up_to_the_end :
    ∃ code m m', Machine.load? #[1, 0, 6, 5, 5] {} = .ok (code, m) ∧
      Machine.advance code 2 m = .error ⟨2, .outOfCode 5 5⟩ m' ∧
      (∀ k result m', Machine.advance code k m = .ok result m' →
        (∃ e ∈ Listing.ofWords [1, 0, 6, 5, 5], e.op.isSome = true ∧ e.address = m'.pc) ∨
          m'.pc = 5) ∧
      ∀ trap m', Machine.run code m = .error trap m' →
        (∀ word, trap.fault ≠ .badOpcode word) ∧
          ∀ address length, trap.fault = .outOfCode address length → address = 5 := by
  have loaded : Machine.load? #[1, 0, 6, 5, 5] {} =
    .ok (⟨65536, #[1, 0, 6, 5, 5]⟩, Machine.fresh {}) := rfl
  have assembled : assemble "LDC 0\nSEL end, end\nend:" = .ok [1, 0, 6, 5, 5] := rfl
  have rows : "LDC 0\nSEL end, end\nend:".toList.splitOn '\n' =
    ["LDC 0".toList, "SEL end, end".toList, "end:".toList] := rfl
  have targets : LabelTargets "LDC 0\nSEL end, end\nend:" := by
    let lines : List Line := [⟨[], some ⟨.ldc, [['0']]⟩⟩,
      ⟨[], some ⟨.sel, ["end".toList, "end".toList]⟩⟩, ⟨["end".toList], none⟩]
    have name : LabelName "end".toList := isLabel_iff.1 rfl
    have zero : Stands lines ['0'] 0 :=
      .literal (.bare (List.cons_ne_nil _ _) (List.all_eq_true.1 rfl))
    have last : Stands lines "end".toList 5 :=
      .label ⟨lines.take 2, _, [], rfl, List.mem_singleton_self _, rfl⟩
    have encodes : Encodes lines [1, 0, 6, 5, 5] := by
      refine ⟨[[1, 0], [6, 5, 5], []], .cons ?_ (.cons ?_ (.cons (.nothing _) .nil)), rfl⟩
      · exact .instruction [] (.cons zero .nil)
      · exact .instruction [] (.cons last (.cons last .nil))
    refine ⟨lines, ⟨?_, List.nodup_singleton _, exists_encodes_iff.1 ⟨_, encodes⟩⟩, ?_⟩
    · rw [rows]
      refine .cons (@reads_of_means 1 _ _ ⟨rfl, rfl⟩) (.cons (@reads_of_means 2 _ _ ⟨rfl, rfl⟩) ?_)
      exact .cons (@reads_of_means 3 _ _ ⟨rfl, rfl⟩) .nil
    · refine List.forall_mem_cons.2 ⟨?_, List.forall_mem_cons.2 ⟨?_, ?_⟩⟩
      · rintro _ ⟨⟩ ⟨⟩
      · rintro _ ⟨⟩ -
        exact List.forall_mem_cons.2 ⟨name, List.forall_mem_singleton.2 name⟩
      · exact List.forall_mem_singleton.2 nofun
  exact ⟨_, _, _, loaded, rfl, stays_on_instructions assembled targets loaded⟩

end Secd.Assembly
