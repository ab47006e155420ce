import Secd.Proofs.Boundaries

/-!
Listings of assembled source show its instructions. There is one entry for each instruction of the
text, and it stands where the labels in front of the instruction point to.

      source     LDC 6      next:    SEL next, next
      words      1 6                 6 2 2
      entries    0: LDC 6            2: SEL 2 2

Words do not tell where instructions begin, and the operand 6 above is the opcode of SEL as well.
What keeps the listing in step is that it begins at an instruction and that each one is complete.
-/

namespace Secd.Assembly

open Instruction (encodeAll encodeAll_append)

/-- The entry is code: the instruction with what its operands stand for. -/
structure Shows (lines : List Line) (i : Instruction Name) (e : Listing.Entry) : Prop where
  op : e.op = some i.op
  operands : List.Forall₂ (Stands lines) i.operands e.operands

/-- The label is defined behind that many instructions, and so in front of the next one. -/
def Precedes (lines : List Line) (label : Name) (n : Nat) : Prop :=
  ∃ before line after, lines = before ++ line :: after ∧ label ∈ line.labels ∧
    n = (before.filterMap Line.instruction).length

variable {text : String} {lines part : List Line} {words : List Word} {label : Name} {a b : Nat}

/-! ### What labels stand for -/

theorem Valid.encodes (valid : Valid text lines) (assembled : assemble text = .ok words) :
    Encodes lines words := by
  obtain ⟨words', encodes⟩ := exists_encodes_iff.2 valid.operands
  have same := assemble_of_valid valid encodes
  rw [assembled, Except.ok.injEq] at same
  rwa [same]

theorem Places.unique (valid : Valid text lines) (here : Places lines label a)
    (there : Places lines label b) : a = b := by
  obtain ⟨layout, -, covers⟩ := Layout.covers_empty.exists_run valid.means valid.unique
  rw [List.nil_append] at covers
  have same := (covers.labels label a).2 here
  rw [(covers.labels label b).2 there, Option.some.injEq] at same
  exact same.symm

/-- A label stands for the one place where it is defined. -/
theorem Places.stands_iff (valid : Valid text lines) (places : Places lines label a) (word : Word) :
    Stands lines label word ↔ word = Int64.ofNat a := by
  constructor
  · intro stands
    cases stands with
    | literal literal => exact absurd literal (valid.names.of_places places).not_literal
    | label there => rw [there.unique valid places]
  · rintro rfl
    exact .label places

/-! ### Entries and instructions -/

/-- The words of a part of the lines are those of its instructions, which are complete. -/
theorem exists_complete (emits : Emits lines part words)
    (complete : ∀ line ∈ part, line.Complete) :
    ∃ is, List.Forall₂ (Resolves lines) (part.filterMap Line.instruction) is ∧
      (∀ j ∈ is, j.Complete) ∧ words = encodeAll is := by
  obtain ⟨is, resolve, rfl⟩ := exists_instructions emits
  refine ⟨is, resolve, fun j mem => ?_, rfl⟩
  obtain ⟨i, source, resolves⟩ := exists_mem_left resolve j mem
  obtain ⟨line, lineMem, isInstruction⟩ := List.mem_filterMap.1 source
  exact resolves.complete (complete line lineMem i isInstruction)

theorem forall₂_shows {is : List (Instruction Name)} {js : List (Instruction Word)}
    (resolve : List.Forall₂ (Resolves lines) is js) (address : Nat) :
    List.Forall₂ (Shows lines) is (Listing.entriesAt address js) := by
  induction resolve generalizing address with
  | nil => exact .nil
  | cons first _ ih => exact .cons ⟨congrArg some first.op, first.operands⟩ (ih _)

theorem Encodes.shows (encodes : Encodes lines words)
    (complete : ∀ line ∈ lines, line.Complete) :
    List.Forall₂ (Shows lines) (lines.filterMap Line.instruction) (Listing.ofWords words) := by
  obtain ⟨is, resolve, whole, rfl⟩ := exists_complete encodes complete
  rw [Listing.ofWords_encodeAll whole]
  exact forall₂_shows resolve 0

/-- The place of a label is the address of the entry of the instruction that it precedes. -/
theorem Encodes.places {n : Nat} {e : Listing.Entry} (encodes : Encodes lines words)
    (complete : ∀ line ∈ lines, line.Complete) (precedes : Precedes lines label n)
    (found : (Listing.ofWords words)[n]? = some e) : Places lines label e.address := by
  obtain ⟨before, line, after, rfl, mem, rfl⟩ := precedes
  refine ⟨before, line, after, rfl, mem, ?_⟩
  obtain ⟨front, back, rfl, length, emits, emits'⟩ := encodes.split
  rw [List.forall_mem_append] at complete
  obtain ⟨is, resolve, whole, rfl⟩ := exists_complete emits complete.1
  obtain ⟨js, -, whole', rfl⟩ := exists_complete emits' complete.2
  have all : ∀ j ∈ is ++ js, j.Complete := List.forall_mem_append.2 ⟨whole, whole'⟩
  -- the entries behind those of the lines before the label are the entries of `js`
  rw [← encodeAll_append, Listing.ofWords_encodeAll all, Listing.entriesAt_append,
    resolve.length_eq, List.getElem?_append_right (by simp), Listing.length_entriesAt,
    Nat.sub_self] at found
  cases js with
  | nil => cases found
  | cons j js =>
    cases found
    exact (Nat.zero_add _).trans length

/-- The listing of an assembled text has one entry for each of its instructions, in order, and all
of them are code; the entry is at the address that every label in front of its instruction stands
for. -/
theorem shows_instructions (assembled : assemble text = .ok words) :
    (∃ lines, Valid text lines) ∧ ∀ lines, Valid text lines →
      List.Forall₂ (Shows lines) (lines.filterMap Line.instruction) (Listing.ofWords words) ∧
        ∀ label n e, Precedes lines label n → (Listing.ofWords words)[n]? = some e →
          Places lines label e.address ∧
            ∀ word, Stands lines label word ↔ word = Int64.ofNat e.address := by
  constructor
  · obtain ⟨lines, valid, -⟩ := exists_lines_of_assemble assembled
    exact ⟨lines, valid⟩
  · intro lines valid
    have encodes := valid.encodes assembled
    refine ⟨encodes.shows valid.complete, fun label n e precedes found => ?_⟩
    have places := encodes.places valid.complete precedes found
    exact ⟨places, places.stands_iff valid⟩

/-- The first operand is the opcode of the second instruction, and the label that is used there has
a line of its own. -/
theorem shows_operand_like_opcode :
    assemble "LDC 6\nnext:\nSEL next, next" = .ok [1, 6, 6, 2, 2] ∧
      ∃ lines, Valid "LDC 6\nnext:\nSEL next, next" lines ∧ Precedes lines "next".toList 1 ∧
        Listing.ofWords [1, 6, 6, 2, 2] = [⟨0, some .ldc, [6]⟩, ⟨2, some .sel, [2, 2]⟩] ∧
        List.Forall₂ (Shows lines) (lines.filterMap Line.instruction)
          (Listing.ofWords [1, 6, 6, 2, 2]) ∧
        ∀ word, Stands lines "next".toList word ↔ word = 2 := by
  have assembled : assemble "LDC 6\nnext:\nSEL next, next" = .ok [1, 6, 6, 2, 2] := rfl
  have listed : Listing.ofWords [1, 6, 6, 2, 2] =
      [⟨0, some .ldc, [6]⟩, ⟨2, some .sel, [2, 2]⟩] := by
    have whole : ∀ j ∈ ([⟨.ldc, [6]⟩, ⟨.sel, [2, 2]⟩] : List (Instruction Word)), j.Complete :=
      List.forall_mem_cons.2 ⟨rfl, List.forall_mem_singleton.2 rfl⟩
    exact Listing.ofWords_encodeAll whole
  have rows : "LDC 6\nnext:\nSEL next, next".toList.splitOn '\n' =
    ["LDC 6".toList, "next:".toList, "SEL next, next".toList] := rfl
  let lines : List Line := [⟨[], some ⟨.ldc, [['6']]⟩⟩, ⟨["next".toList], none⟩,
    ⟨[], some ⟨.sel, ["next".toList, "next".toList]⟩⟩]
  have valid : Valid "LDC 6\nnext:\nSEL next, next" lines := by
    have six : Stands lines ['6'] 6 :=
      .literal (.bare (List.cons_ne_nil _ _) (List.all_eq_true.1 rfl))
    have next : Stands lines "next".toList 2 :=
      .label ⟨lines.take 1, _, lines.drop 2, rfl, List.mem_singleton_self _, rfl⟩
    have encodes : Encodes lines [1, 6, 6, 2, 2] := by
      refine ⟨[[1, 6], [], [6, 2, 2]], .cons ?_ (.cons (.nothing _) (.cons ?_ .nil)), rfl⟩
      · exact .instruction [] (.cons six .nil)
      · exact .instruction [] (.cons next (.cons next .nil))
    refine ⟨?_, List.nodup_singleton _, exists_encodes_iff.1 ⟨_, encodes⟩⟩
    rw [rows]
    refine .cons (@reads_of_means 1 _ _ ⟨rfl, rfl⟩) (.cons (@reads_of_means 2 _ _ ⟨rfl, rfl⟩) ?_)
    exact .cons (@reads_of_means 3 _ _ ⟨rfl, rfl⟩) .nil
  have precedes : Precedes lines "next".toList 1 :=
    ⟨lines.take 1, _, lines.drop 2, rfl, List.mem_singleton_self _, rfl⟩
  obtain ⟨shown, resolved⟩ := (shows_instructions assembled).2 lines valid
  have second : (Listing.ofWords [1, 6, 6, 2, 2])[1]? = some ⟨2, some .sel, [2, 2]⟩ := by
    rw [listed]
    rfl
  exact ⟨assembled, lines, valid, precedes, listed, shown, (resolved _ 1 _ precedes second).2⟩

end Secd.Assembly
