import Secd.Word

/-!
What the machine holds: the values on its operand stack, the frames on its dump and the cells of
its heap. Environments and closures live in the heap and are named by the index of a cell, so that
every value, frame and cell is of fixed size.

An environment is a chain of cells, innermost binding first. A recursive closure sits in the very
chain that it captures:

      cell 5: binding 42, tail 3  ──▶  cell 3: binding 7, no tail      two bindings
      cell 8: binding (closure 9), tail 5  ◀──  cell 9: closure, env 8   a closure that sees itself
-/

namespace Secd

/-- A cell of the heap, by its index. -/
abbrev CellId := Nat

/-- An environment: empty, or the cell of its innermost binding. -/
abbrev Env := Option CellId

/-- A value: an integer, or a closure named by its cell. -/
inductive Value where
  | int (n : Word)
  | closure (cell : CellId)
  deriving DecidableEq

/-- The two kinds of values. -/
inductive Value.Kind where
  | integer | closure
  deriving DecidableEq

/-- The code and the environment that a closure joins. -/
structure Closure where
  entry : Nat
  env : Env
  deriving DecidableEq

/-- A frame of the dump: where to go on after a branch, or after a call and in which environment. -/
inductive Frame where
  | branch (resume : Nat)
  | call (resume : Nat) (env : Env)
  deriving DecidableEq

/-- The two kinds of frames. -/
inductive Frame.Kind where
  | branch | call
  deriving DecidableEq

/-- A cell of the heap. A pending cell is a link of a chain whose value is still to come. -/
inductive Cell where
  | binding (head : Value) (tail : Env)
  | pending (tail : Env)
  | closure (closure : Closure)
  deriving DecidableEq

/-- The three kinds of cells. -/
inductive Cell.Kind where
  | binding | pending | closure
  deriving DecidableEq

namespace Value

/-- The kind of a value. -/
def kind : Value → Kind
  | int _ => .integer
  | closure _ => .closure

/-- The name of a kind of values. -/
def Kind.name : Kind → String
  | integer => "integer"
  | closure => "closure"

/-- A value as text: an integer in decimal, a closure by its cell. -/
def render : Value → String
  | int n => Word.render n
  | closure cell => s!"<closure #{cell}>"

end Value

namespace Frame

/-- The kind of a frame. -/
def kind : Frame → Kind
  | branch _ => .branch
  | call _ _ => .call

/-- Where the frame resumes. -/
def resume : Frame → Nat
  | branch resume => resume
  | call resume _ => resume

/-- The name of a kind of frames. -/
def Kind.name : Kind → String
  | branch => "branch"
  | call => "call"

end Frame

namespace Cell

/-- The kind of a cell. -/
def kind : Cell → Kind
  | binding _ _ => .binding
  | pending _ => .pending
  | closure _ => .closure

/-- The name of a kind of cells. -/
def Kind.name : Kind → String
  | binding => "binding"
  | pending => "pending binding"
  | closure => "closure"

end Cell

end Secd
