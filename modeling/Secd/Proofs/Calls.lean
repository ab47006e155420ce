import Mathlib.Data.List.Nodup
import Secd.Heap.Chain

/-!
What a user of a heap does with it, and what the user may expect to read. A call works on the
handles that earlier calls gave out. Beside the heap stands a ledger, which knows nothing of cells:
in it an environment is a list, and a reserved binding is a slot that all lists made from it share.

      extend v e         v :: e
      reserve e          slot :: e, where the slot is empty
      tie slot c         the slot holds the closure c, in every list at once
      captureRec p e     a closure of p over  itself :: e

An environment handle is a name for a list in the ledger, a placeholder a name for a slot.
-/

namespace Secd.Heap

/-- A request to a heap. Inspecting a closure gives the environment that it captured. -/
inductive Call where
  | extend (value : Value) (env : Env)
  | reserve (env : Env)
  | tie (placeholder closure : CellId)
  | capture (entry : Nat) (env : Env)
  | captureRec (entry : Nat) (env : Env)
  | inspect (closure : CellId)
  deriving DecidableEq

/-- What a call gives back. -/
inductive Handle where
  | env (env : Env)
  | placeholder (cell : CellId)
  | closure (cell : CellId)
  deriving DecidableEq

namespace Call

/-- Makes the call. -/
def perform : Call → Effect Heap Handle
  | extend value env => return .env (← Heap.extend value env)
  | reserve env => return .placeholder (← Heap.reserve env)
  | tie placeholder closure => return .env (← Heap.tie placeholder closure)
  | capture entry env => return .closure (← Heap.capture entry env)
  | captureRec entry env => return .closure (← Heap.captureRec entry env)
  | inspect closure => do
    let closure ← Effect.check ((← get).closure closure)
    return .env closure.env

/-- How many cells the call takes if it ends well. -/
def cells : Call → Nat
  | extend _ _ | reserve _ | capture _ _ => 1
  | captureRec _ _ => 2
  | tie _ _ | inspect _ => 0

end Call

/-- What an environment lists: a value, or the slot of a placeholder. -/
inductive Item where
  | value (content : Value)
  | slot (placeholder : CellId)
  deriving DecidableEq

/-- The value of an item when these placeholders are tied to these closures, unless the item is the
slot of another placeholder. -/
def Item.value? (tied : List (CellId × CellId)) : Item → Option Value
  | .value content => some content
  | .slot placeholder => (tied.lookup placeholder).map .closure

/-- What a closure was made with: an environment, or the list that its environment reads as. -/
inductive Made where
  | plain (entry : Nat) (env : Env)
  | recursive (entry : Nat) (list : List Item)
  deriving DecidableEq

/-- What the handles given out so far stand for. -/
structure Ledger where
  envs : List (Env × List Item)
  placeholders : List CellId
  tied : List (CellId × CellId)
  closures : List (CellId × Made)
  deriving DecidableEq

namespace Ledger

/-- Before any call only the empty environment is known. -/
def blank : Ledger := ⟨[(none, [])], [], [], []⟩

/-- The list that an environment stands for. -/
def list (l : Ledger) (env : Env) : List Item := (l.envs.lookup env).getD []

/-- The values of a list, as far as its slots are filled by now. -/
def reading (l : Ledger) (list : List Item) : List (Option Value) := list.map (Item.value? l.tied)

/-- The environment was given out. -/
def KnowsEnv (l : Ledger) (env : Env) : Prop := env ∈ l.envs.map Prod.fst

/-- The closure was given out. -/
def KnowsClosure (l : Ledger) (cell : CellId) : Prop := cell ∈ l.closures.map Prod.fst

/-- The value is an integer or a closure that was given out. -/
def KnowsValue (l : Ledger) : Value → Prop
  | .int _ => True
  | .closure cell => l.KnowsClosure cell

/-- The call is given only handles from earlier calls, and no placeholder for the second time. -/
def Allows (l : Ledger) : Call → Prop
  | .extend value env => l.KnowsValue value ∧ l.KnowsEnv env
  | .reserve env => l.KnowsEnv env
  | .tie placeholder closure => (placeholder ∈ l.placeholders ∧ l.tied.lookup placeholder = none) ∧
      l.KnowsClosure closure
  | .capture _ env => l.KnowsEnv env
  | .captureRec _ env => l.KnowsEnv env
  | .inspect closure => l.KnowsClosure closure

instance (l : Ledger) (env : Env) : Decidable (l.KnowsEnv env) :=
  inferInstanceAs (Decidable (env ∈ l.envs.map Prod.fst))

instance (l : Ledger) (cell : CellId) : Decidable (l.KnowsClosure cell) :=
  inferInstanceAs (Decidable (cell ∈ l.closures.map Prod.fst))

instance (l : Ledger) (value : Value) : Decidable (l.KnowsValue value) :=
  match value with
  | .int _ => inferInstanceAs (Decidable True)
  | .closure cell => inferInstanceAs (Decidable (l.KnowsClosure cell))

instance (l : Ledger) (call : Call) : Decidable (l.Allows call) :=
  match call with
  | .extend value env => inferInstanceAs (Decidable (l.KnowsValue value ∧ l.KnowsEnv env))
  | .reserve env => inferInstanceAs (Decidable (l.KnowsEnv env))
  | .tie placeholder closure => inferInstanceAs (Decidable ((placeholder ∈ l.placeholders ∧
      l.tied.lookup placeholder = none) ∧ l.KnowsClosure closure))
  | .capture _ env => inferInstanceAs (Decidable (l.KnowsEnv env))
  | .captureRec _ env => inferInstanceAs (Decidable (l.KnowsEnv env))
  | .inspect closure => inferInstanceAs (Decidable (l.KnowsClosure closure))

/-- From now on the environment stands for the list. -/
def learn (l : Ledger) (env : Env) (list : List Item) : Ledger :=
  { l with envs := (env, list) :: l.envs }

/-- Notes what a call gave back. -/
def note (l : Ledger) : Call → Handle → Ledger
  | .extend value env, .env env' => l.learn env' (.value value :: l.list env)
  | .reserve env, .placeholder cell =>
    { l.learn (some cell) (.slot cell :: l.list env) with placeholders := cell :: l.placeholders }
  | .tie placeholder closure, .env env =>
    { l.learn env (l.list (some placeholder)) with tied := (placeholder, closure) :: l.tied }
  | .capture entry env, .closure cell =>
    { l with closures := (cell, .plain entry env) :: l.closures }
  | .captureRec entry env, .closure cell =>
    { l with
      closures := (cell, .recursive entry (.value (.closure cell) :: l.list env)) :: l.closures }
  | .inspect closure, .env env =>
    match l.closures.lookup closure with
    | some (.recursive _ list) => l.learn env list
    | _ => l
  | _, _ => l

end Ledger

/-- A heap that is in use, with the ledger of its user. -/
structure Session where
  heap : Heap
  ledger : Ledger

namespace Session

/-- The session of a heap without cells. -/
def start (capacity : Nat) : Session := ⟨⟨capacity, #[]⟩, .blank⟩

/-- The session after a call. A call that fails is not noted, but may have changed the heap. -/
def after (s : Session) (call : Call) : Session :=
  match call.perform s.heap with
  | .ok handle heap => ⟨heap, s.ledger.note call handle⟩
  | .error _ heap => { s with heap }

/-- Every call of a sequence is allowed when its turn comes. -/
def Allows (s : Session) : List Call → Prop
  | [] => True
  | call :: calls => s.ledger.Allows call ∧ (s.after call).Allows calls

instance decidableAllows (s : Session) : (calls : List Call) → Decidable (s.Allows calls)
  | [] => inferInstanceAs (Decidable True)
  | call :: calls =>
    have := decidableAllows (s.after call) calls
    inferInstanceAs (Decidable (s.ledger.Allows call ∧ (s.after call).Allows calls))

end Session

/-! ### What a user may expect -/

/-- What reading the item number `index` of a list gives. -/
def answer (index : Nat) (list : List (Option Value)) : Except Fault Value :=
  match list[index]? with
  | some (some value) => .ok value
  | some none => .error (.untied index)
  | none => .error (.unbound index list.length)

/-- The environment reads as the list, in which some values are not known yet. -/
structure Reads (h : Heap) (env : Env) (list : List (Option Value)) : Prop where
  lookup : ∀ index, h.lookup index env = answer index list
  depth : h.depth env = some (.ok list.length)

/-- All handles that were given out read as the ledger says, no two reservations share a slot, and a
call fails only if there are fewer free cells than it takes. So tying a placeholder never fails. -/
structure Session.Truthful (s : Session) : Prop where
  envs : ∀ env list, (env, list) ∈ s.ledger.envs → s.heap.Reads env (s.ledger.reading list)
  plain : ∀ cell entry env, (cell, .plain entry env) ∈ s.ledger.closures →
    s.heap.closure cell = .ok ⟨entry, env⟩
  recursive : ∀ cell entry list, (cell, .recursive entry list) ∈ s.ledger.closures →
    ∃ env, s.heap.closure cell = .ok ⟨entry, env⟩ ∧ s.heap.Reads env (s.ledger.reading list)
  distinct : s.ledger.placeholders.Nodup
  room : s.heap.size ≤ s.heap.capacity
  succeeds : ∀ call, s.ledger.Allows call →
    (∃ handle heap, call.perform s.heap = .ok handle heap) ∨
      ∃ heap, call.perform s.heap = .error (.exhausted .heap s.heap.capacity) heap ∧
        s.heap.capacity < s.heap.size + call.cells

end Secd.Heap
