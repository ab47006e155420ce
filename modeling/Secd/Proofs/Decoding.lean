import Secd.Listing

/-!
Listings of whole instructions. Code that is nothing but complete instructions, one after the other,
is listed as those instructions, each at the address where it starts:

      LDC 7   SEL 5 8   HALT      instructions
      1 7 │ 6 5 8 │ 0             words
      0     2       5             addresses of the entries
-/

namespace Secd

namespace Instruction

/-- The instruction has as many operands as its opcode takes. -/
def Complete {α : Type} (i : Instruction α) : Prop := i.operands.length = i.op.operandCount

/-- The words of instructions in a row. -/
def encodeAll (is : List (Instruction Word)) : List Word := is.flatMap encode

@[simp] theorem encodeAll_nil : encodeAll [] = [] := rfl

@[simp] theorem encodeAll_cons (i : Instruction Word) (is : List (Instruction Word)) :
    encodeAll (i :: is) = i.op.word :: (i.operands ++ encodeAll is) := rfl

@[simp] theorem encodeAll_append (is js : List (Instruction Word)) :
    encodeAll (is ++ js) = encodeAll is ++ encodeAll js :=
  List.flatMap_append

end Instruction

namespace Listing

open Instruction

variable {is : List (Instruction Word)}

/-- The entries of instructions in a row, from the address of the first one on. -/
def entriesAt : Nat → List (Instruction Word) → List Entry
  | _, [] => []
  | address, i :: is => ⟨address, some i.op, i.operands⟩ :: entriesAt (address + i.size) is

/-- A complete instruction is decoded as itself, whatever follows it. -/
theorem decode_encode {i : Instruction Word} (complete : i.Complete) (address : Nat)
    (rest : List Word) :
    decode address i.op.word (i.operands ++ rest) = (⟨address, some i.op, i.operands⟩, rest) := by
  unfold decode
  rw [Opcode.ofWord?_word]
  simp only [splitExactly?_eq_some_iff.2 ⟨rfl, complete⟩]

theorem toList_entriesFrom (complete : ∀ i ∈ is, i.Complete) (listing : Array Entry)
    (address : Nat) : (entriesFrom listing address (encodeAll is)).toList =
      listing.toList ++ entriesAt address is := by
  induction is generalizing listing address with
  | nil => simp [entriesFrom, entriesAt]
  | cons i is ih =>
    obtain ⟨here, complete⟩ := List.forall_mem_cons.1 complete
    rw [encodeAll_cons, entriesFrom, decode_encode here]
    have size : (Entry.mk address (some i.op) i.operands).words.length = i.size := by
      rw [Entry.words, List.length_cons, Instruction.size, Nat.add_comm]
    rw [size, ih complete, Array.toList_push, List.append_assoc]
    rfl

/-- Complete instructions are listed as they are. -/
theorem ofWords_encodeAll (complete : ∀ i ∈ is, i.Complete) :
    ofWords (encodeAll is) = entriesAt 0 is := by
  rw [ofWords, toList_entriesFrom complete]
  rfl

/-- The entries of instructions begin where the words before them end. -/
theorem entriesAt_append (address : Nat) (front back : List (Instruction Word)) :
    entriesAt address (front ++ back) =
      entriesAt address front ++ entriesAt (address + (encodeAll front).length) back := by
  induction front generalizing address with
  | nil => rfl
  | cons i front ih =>
    have size : (encodeAll (i :: front)).length = i.size + (encodeAll front).length := by
      rw [encodeAll_cons, List.length_cons, List.length_append, Instruction.size]
      omega
    rw [List.cons_append, entriesAt, ih, size, Nat.add_assoc]
    rfl

@[simp] theorem length_entriesAt (address : Nat) (is : List (Instruction Word)) :
    (entriesAt address is).length = is.length := by
  induction is generalizing address with
  | nil => rfl
  | cons i is ih => simp [entriesAt, ih]

theorem mem_entriesAt (address : Nat) (front back : List (Instruction Word))
    (i : Instruction Word) :
    ⟨address + (encodeAll front).length, some i.op, i.operands⟩ ∈
      entriesAt address (front ++ i :: back) := by
  rw [entriesAt_append]
  exact List.mem_append_right _ List.mem_cons_self

end Listing

end Secd
