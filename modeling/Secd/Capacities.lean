import Secd.Fault

/-!
How large the four stores of a machine are. Machines take any capacities; configurations and
command lines have to give positive ones.
-/

namespace Secd

/-- The name of a store as a setting. -/
def Segment.key : Segment → String
  | code => "code"
  | stack => "stack"
  | dump => "dump"
  | heap => "heap"

/-- The sizes of the four stores. -/
structure Capacities where
  code : Nat := 65536
  stack : Nat := 65536
  dump : Nat := 65536
  heap : Nat := 1048576
  deriving DecidableEq

namespace Capacities

/-- The size of one store. -/
def get (caps : Capacities) : Segment → Nat
  | .code => caps.code
  | .stack => caps.stack
  | .dump => caps.dump
  | .heap => caps.heap

/-- The capacities with another size for one store. -/
def set (caps : Capacities) (size : Nat) : Segment → Capacities
  | .code => { caps with code := size }
  | .stack => { caps with stack := size }
  | .dump => { caps with dump := size }
  | .heap => { caps with heap := size }

/-- The first store, in the order code, stack, dump and heap, that has no room at all. -/
def missing? (caps : Capacities) : Option Segment :=
  [Segment.code, .stack, .dump, .heap].find? fun segment => caps.get segment == 0

/-- Accepts capacities that are all positive; otherwise names the first store that has none. -/
def validate (caps : Capacities) : Except Segment Capacities :=
  match caps.missing? with
  | none => .ok caps
  | some segment => .error segment

/-- The wording for a store without room. -/
def missingMessage (segment : Segment) : String := s!"{segment.key} capacity must be positive"

end Capacities

end Secd
