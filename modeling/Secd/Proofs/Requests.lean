import Secd.Proofs.Answers
import Secd.Proofs.Printing

/-!
Asking for a machine. Whatever the capacities, as long as every store has some room and can be set
aside, there are arguments that ask for exactly these, for each of the commands:

    secd --code-size 3 --stack-size 65536 --dump-size 65536 --heap-size 1048576 disasm
-/

namespace Secd

/-- There is some room in every store. -/
def Capacities.Positive (caps : Capacities) : Prop := ∀ segment : Segment, 0 < caps.get segment

namespace Cli

/-- The subcommand that stands for a command. -/
def Command.words : Command → List String
  | .run => []
  | .assemble => ["asm"]
  | .disassemble => ["disasm"]

/-- The option that sets the size of a store. -/
def sizeFlag (segment : Segment) : String := s!"--{segment.key}-size"

/-- The options that set all sizes. -/
def sizeFlags (caps : Capacities) : List String :=
  [Segment.code, .stack, .dump, .heap].flatMap fun segment =>
    [sizeFlag segment, (caps.get segment).repr]

/-- What these options say, the last one first. -/
def allSizes (caps : Capacities) : Options where
  sizes := [Segment.heap, .dump, .stack, .code].map fun segment => (segment, caps.get segment)

/-- A number in decimal begins with a digit, so never with a sign. -/
theorem repr_ne_cons {n : Nat} {c : Char} (noDigit : c.isDigit = false) (cs : List Char) :
    n.repr.toList ≠ c :: cs := by
  intro same
  have digit : c.isDigit = true := (isDigits_repr n).2 c (by simp [same])
  rw [noDigit] at digit
  cases digit

theorem shape_repr (n : Nat) : Shape.of n.repr = .plain := by
  have noDash (cs : List Char) : n.repr.toList ≠ '-' :: cs := repr_ne_cons rfl cs
  unfold Shape.of
  split
  · exact absurd ‹_› (noDash _)
  · exact absurd ‹_› (noDash _)
  · exact absurd ‹_› (noDash _)
  · rfl

theorem size_repr {n : Nat} (small : n ≤ Numeral.sizeMax) :
    Numeral.size n.repr.toList = .ok n := by
  unfold Numeral.size Numeral.unsigned
  split
  · exact absurd ‹_› (isDigits_repr n).1
  · exact absurd ‹_› (repr_ne_cons rfl _)
  · exact Numeral.magnitude_eq_ok_iff.2 ⟨isDigits_repr n, value_repr n, small⟩

theorem parseFrom_sizeFlag {o : Options} {segment : Segment} {n : Nat} (small : n ≤ Numeral.sizeMax)
    (first : o.sizes.lookup segment = none) (rest : List String) :
    Request.parseFrom .top o (sizeFlag segment :: n.repr :: rest) =
      Request.parseFrom .top { o with sizes := (segment, n) :: o.sizes } rest := by
  have shape : Shape.of (sizeFlag segment) = .long ((sizeFlag segment).toList.drop 2) none := by
    cases segment <;> decide +kernel
  have name : Setting.ofName? ((sizeFlag segment).toList.drop 2) = some (.size segment) := by
    cases segment <;> decide +kernel
  have noFlag : Scope.flag? .top ((sizeFlag segment).toList.drop 2) = none := by
    cases segment <;> decide +kernel
  rw [Request.parseFrom, shape]
  simp only [name, noFlag, shape_repr, Options.give?, size_repr small, first]
  rfl

variable {caps : Capacities}

theorem le_sizeMax_of_reservable (reservable : caps.Reservable) (segment : Segment) :
    caps.get segment ≤ Numeral.sizeMax := by
  have reserved : segment.reserve (caps.get segment) = .ok () := reservable segment
  unfold Segment.reserve at reserved
  split at reserved
  · rename_i small
    have itemsMax_le : segment.itemsMax ≤ Numeral.sizeMax := by cases segment <;> decide
    exact Nat.le_trans small itemsMax_le
  · cases reserved

theorem parse?_sizeFlags (reservable : caps.Reservable) (command : Command) :
    Request.parse? (sizeFlags caps ++ command.words) = some (.perform command (allSizes caps)) := by
  have small := le_sizeMax_of_reservable reservable
  change Request.parseFrom .top {} (sizeFlag .code :: (caps.get .code).repr ::
    sizeFlag .stack :: (caps.get .stack).repr :: sizeFlag .dump :: (caps.get .dump).repr ::
    sizeFlag .heap :: (caps.get .heap).repr :: command.words) = _
  rw [parseFrom_sizeFlag (small .code) rfl, parseFrom_sizeFlag (small .stack) rfl,
    parseFrom_sizeFlag (small .dump) rfl, parseFrom_sizeFlag (small .heap) rfl]
  cases command <;> rfl

theorem validate_of_positive (positive : caps.Positive) : caps.validate = .ok caps := by
  have all : caps.missing? = none := by
    refine List.find?_eq_none.2 fun segment _ nothing => ?_
    have room := positive segment
    rw [beq_iff_eq] at nothing
    omega
  rw [Capacities.validate, all]

/-- All capacities for which there is room can be asked for, whatever the command and the input. -/
theorem asks_sizeFlags (reservable : caps.Reservable) (positive : caps.Positive)
    (command : Command) (stdin : List UInt8) (files : FileSystem) (log : Log.Settings) :
    Invocation.Asks ⟨sizeFlags caps ++ command.words, stdin, files, log⟩ command (allSizes caps)
      caps (.bytes stdin) := by
  refine ⟨parse?_sizeFlags reservable command, ?_, rfl⟩
  have resized : (allSizes caps).resize {} = caps := by
    cases caps
    rfl
  change ((allSizes caps).resize {}).validate.mapError _ = _
  rw [resized, validate_of_positive positive]
  rfl

end Cli

end Secd
