import Secd.Heap

/-!
Environments as chains of cells. Both ways to read an environment follow the same links: `lookup`
goes as far as an index says, `depth` goes to the end and counts.

A link is a binding or a pending cell. Handles that the heap gave out itself always lead along links
to the empty environment. A handle from elsewhere may name a missing cell or a closure, which ends
both walks with the same fault, or may lead into a ring. A walk of more links than there are cells
has met one of them twice and so never ends; `depth` has no answer for it.
-/

namespace Secd.Heap

/-- What a link of a chain holds: its value, unless that is still to come, and the rest. -/
structure Link where
  head : Option Value
  tail : Env
  deriving DecidableEq

/-- The link at a cell. -/
def link (h : Heap) (cell : CellId) : Except Fault Link :=
  match h.cells[cell]? with
  | some (.binding value tail) => .ok ⟨some value, tail⟩
  | some (.pending tail) => .ok ⟨none, tail⟩
  | some (.closure _) => .error (.cellKind cell .binding .closure)
  | none => .error (.dangling cell)

/-- Follows `more` further links after `depth` of them to the binding number `index`. -/
def lookupFrom (h : Heap) (index : Nat) : (more depth : Nat) → Env → Except Fault Value
  | _, depth, none => .error (.unbound index depth)
  | 0, _, some cell =>
    match h.link cell with
    | .error fault => .error fault
    | .ok ⟨some value, _⟩ => .ok value
    | .ok ⟨none, _⟩ => .error (.untied index)
  | more + 1, depth, some cell =>
    match h.link cell with
    | .error fault => .error fault
    | .ok link => lookupFrom h index more (depth + 1) link.tail

/-- The value of the binding number `index`, counted from the innermost. -/
def lookup (h : Heap) (index : Nat) (env : Env) : Except Fault Value :=
  h.lookupFrom index index 0 env

/-- Counts the links that follow after `depth` of them, in at most `rounds` looks at the chain. -/
def depthFrom (h : Heap) : (rounds depth : Nat) → Env → Option (Except Fault Nat)
  | 0, _, _ => none
  | _ + 1, depth, none => some (.ok depth)
  | rounds + 1, depth, some cell =>
    match h.link cell with
    | .error fault => some (.error fault)
    | .ok link => depthFrom h rounds (depth + 1) link.tail

/-- The number of links of an environment, or `none` if they form a ring. -/
def depth (h : Heap) (env : Env) : Option (Except Fault Nat) :=
  h.depthFrom (h.size + 1) 0 env

end Secd.Heap
