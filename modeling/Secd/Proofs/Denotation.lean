import Secd.Machine.Parts

/-!
What handles stand for. Read through the heap, an environment is a list of values and a closure is
some code together with the list it captured; no cells are left in such a reading.

A recursive closure is the only one whose cell can be reached from its own environment, by the
binding with which that environment starts. It is read as a constructor of its own, over the rest
of the list, so that every reading is finite:

      cell 8: binding (closure 9), tail 5  ◀──  cell 9: closure p, env 8
      closure 9  stands for  recursive p (what the environment 5 stands for)

The reading is stable. Cells that are appended later change no reading, because a cell that was read
is a binding or a closure and stays what it is.
-/

namespace Secd

open Effect

/-- A value without cells: an integer, or a closure over the values that it captured. The code of a
closure is of any kind, such as an address or an expression. -/
inductive Datum (κ : Type) where
  | int (n : Word)
  | plain (body : κ) (env : List (Datum κ))
  | recursive (body : κ) (env : List (Datum κ))

/-- The code of a closure and what it sees behind its argument; a recursive closure sees itself. -/
def Datum.applied? {κ : Type} : Datum κ → Option (κ × List (Datum κ))
  | int _ => none
  | plain body env => some (body, env)
  | recursive body env => some (body, recursive body env :: env)

namespace Heap

variable {κ : Type}

/-- An environment starts with a binding to the closure at a cell. -/
def Tied (h : Heap) (cell : CellId) (env : Env) : Prop :=
  ∃ slot tail, env = some slot ∧ h.cells[slot]? = some (.binding (.closure cell) tail)

mutual

/-- A value stands for a datum, where `Entry` tells which code starts at an address. -/
inductive Denotes (Entry : Nat → κ → Prop) (h : Heap) : Value → Datum κ → Prop where
  | int (n : Word) : Denotes Entry h (.int n) (.int n)
  | plain {cell : CellId} {entry : Nat} {env : Env} {body : κ} {list : List (Datum κ)}
      (found : h.cells[cell]? = some (.closure ⟨entry, env⟩)) (untied : ¬ h.Tied cell env)
      (starts : Entry entry body) (captured : DenotesEnv Entry h env list) :
      Denotes Entry h (.closure cell) (.plain body list)
  | recursive {cell slot : CellId} {entry : Nat} {tail : Env} {body : κ} {list : List (Datum κ)}
      (found : h.cells[cell]? = some (.closure ⟨entry, some slot⟩))
      (tied : h.cells[slot]? = some (.binding (.closure cell) tail))
      (starts : Entry entry body) (captured : DenotesEnv Entry h tail list) :
      Denotes Entry h (.closure cell) (.recursive body list)

/-- An environment stands for the list of what its bindings stand for. -/
inductive DenotesEnv (Entry : Nat → κ → Prop) (h : Heap) : Env → List (Datum κ) → Prop where
  | nil : DenotesEnv Entry h none []
  | cons {cell : CellId} {head : Value} {tail : Env} {datum : Datum κ} {list : List (Datum κ)}
      (found : h.cells[cell]? = some (.binding head tail)) (first : Denotes Entry h head datum)
      (rest : DenotesEnv Entry h tail list) : DenotesEnv Entry h (some cell) (datum :: list)

end

variable {Entry : Nat → κ → Prop} {h : Heap}

/-! ### Readings are stable and unique -/

/-- An environment that can be read does not get tied later. -/
theorem DenotesEnv.untied_append {cell : CellId} {env : Env} {list : List (Datum κ)}
    (denotes : DenotesEnv Entry h env list) (untied : ¬ h.Tied cell env) (cells : Array Cell) :
    ¬ (h.append cells).Tied cell env := by
  rintro ⟨slot, tail, rfl, found'⟩
  cases denotes with
  | cons found first rest =>
    rw [getElem?_append cells found] at found'
    cases found'
    exact untied ⟨slot, tail, rfl, found⟩

mutual

theorem Denotes.append {value : Value} {datum : Datum κ} (denotes : Denotes Entry h value datum)
    (cells : Array Cell) : Denotes Entry (h.append cells) value datum := by
  cases denotes with
  | int n => exact .int n
  | plain found untied starts captured =>
    exact .plain (getElem?_append cells found) (captured.untied_append untied cells) starts
      (captured.append cells)
  | recursive found tied starts captured =>
    exact .recursive (getElem?_append cells found) (getElem?_append cells tied) starts
      (captured.append cells)

theorem DenotesEnv.append {env : Env} {list : List (Datum κ)}
    (denotes : DenotesEnv Entry h env list) (cells : Array Cell) :
    DenotesEnv Entry (h.append cells) env list := by
  cases denotes with
  | nil => exact .nil
  | cons found first rest =>
    exact .cons (getElem?_append cells found) (first.append cells) (rest.append cells)

end

mutual

/-- If an address starts only one code, then a value stands for one datum only. -/
theorem Denotes.unique {value : Value} {datum datum' : Datum κ}
    (one : ∀ entry body body', Entry entry body → Entry entry body' → body = body')
    (denotes : Denotes Entry h value datum) (denotes' : Denotes Entry h value datum') :
    datum = datum' := by
  cases denotes with
  | int n =>
    cases denotes'
    rfl
  | plain found untied starts captured =>
    cases denotes' with
    | plain found' untied' starts' captured' =>
      rw [found] at found'
      cases found'
      rw [one _ _ _ starts starts', captured.unique one captured']
    | recursive found' tied' starts' captured' =>
      rw [found] at found'
      cases found'
      exact absurd ⟨_, _, rfl, tied'⟩ untied
  | recursive found tied starts captured =>
    cases denotes' with
    | plain found' untied' starts' captured' =>
      rw [found] at found'
      cases found'
      exact absurd ⟨_, _, rfl, tied⟩ untied'
    | recursive found' tied' starts' captured' =>
      rw [found] at found'
      cases found'
      rw [tied] at tied'
      cases tied'
      rw [one _ _ _ starts starts', captured.unique one captured']

theorem DenotesEnv.unique {env : Env} {list list' : List (Datum κ)}
    (one : ∀ entry body body', Entry entry body → Entry entry body' → body = body')
    (denotes : DenotesEnv Entry h env list) (denotes' : DenotesEnv Entry h env list') :
    list = list' := by
  cases denotes with
  | nil =>
    cases denotes'
    rfl
  | cons found first rest =>
    cases denotes' with
    | cons found' first' rest' =>
      rw [found] at found'
      cases found'
      rw [first.unique one first', rest.unique one rest']

end

/-! ### Reading -/

theorem DenotesEnv.lookupFrom {index more : Nat} {env : Env} {list : List (Datum κ)}
    (denotes : DenotesEnv Entry h env list) (depth : Nat) :
    (∃ value datum, h.lookupFrom index more depth env = .ok value ∧ list[more]? = some datum ∧
        Denotes Entry h value datum) ∨
      h.lookupFrom index more depth env = .error (.unbound index (depth + list.length)) ∧
        list[more]? = none := by
  induction more generalizing env list depth with
  | zero =>
    cases denotes with
    | nil => exact .inr ⟨rfl, rfl⟩
    | cons found first rest =>
      exact .inl ⟨_, _, by rw [Heap.lookupFrom, link, found], rfl, first⟩
  | succ more ih =>
    cases denotes with
    | nil => exact .inr ⟨rfl, rfl⟩
    | cons found first rest =>
      simp only [Heap.lookupFrom, link, found, List.getElem?_cons_succ, List.length_cons]
      rw [← Nat.add_assoc, Nat.add_right_comm]
      exact ih rest (depth + 1)

/-- Looking up an index gives what stands there in the list, or tells how long the list is. -/
theorem DenotesEnv.lookup {env : Env} {list : List (Datum κ)}
    (denotes : DenotesEnv Entry h env list) (index : Nat) :
    (∃ value datum, h.lookup index env = .ok value ∧ list[index]? = some datum ∧
        Denotes Entry h value datum) ∨
      h.lookup index env = .error (.unbound index list.length) ∧ list[index]? = none := by
  rw [Heap.lookup, ← Nat.zero_add list.length]
  exact denotes.lookupFrom 0

/-- Only integers cannot be applied. -/
theorem Denotes.of_applied?_eq_none {value : Value} {datum : Datum κ}
    (denotes : Denotes Entry h value datum) (applied : datum.applied? = none) :
    ∃ n, value = .int n := by
  cases denotes with
  | int n => exact ⟨n, rfl⟩
  | plain | recursive => cases applied

/-- A value that can be applied names a closure of that code over that environment. -/
theorem Denotes.of_applied?_eq_some {value : Value} {datum : Datum κ} {body : κ}
    {list : List (Datum κ)} (denotes : Denotes Entry h value datum)
    (applied : datum.applied? = some (body, list)) :
    ∃ cell entry env, value = .closure cell ∧ h.closure cell = .ok ⟨entry, env⟩ ∧
      Entry entry body ∧ DenotesEnv Entry h env list := by
  cases denotes with
  | int n => cases applied
  | plain found untied starts captured =>
    cases applied
    exact ⟨_, _, _, rfl, by rw [Heap.closure, found], starts, captured⟩
  | recursive found tied starts captured =>
    cases applied
    exact ⟨_, _, _, rfl, by rw [Heap.closure, found], starts,
      .cons tied (.recursive found tied starts captured) captured⟩

/-! ### Making -/

theorem Denotes.lt_size {cell : CellId} {datum : Datum κ}
    (denotes : Denotes Entry h (.closure cell) datum) : cell < h.size := by
  cases denotes with
  | plain found => exact (Array.getElem?_eq_some_iff.1 found).1
  | recursive found => exact (Array.getElem?_eq_some_iff.1 found).1

/-- The fault of an operation that finds no free cell. -/
def OutOfHeap (fault : Fault) : Prop := ∃ capacity, fault = .exhausted .heap capacity

theorem DenotesEnv.extend {value : Value} {env : Env} {datum : Datum κ} {list : List (Datum κ)}
    (first : Denotes Entry h value datum) (rest : DenotesEnv Entry h env list) :
    DenotesEnv Entry (h.append #[.binding value env]) (some h.size) (datum :: list) :=
  .cons (getElem?_append_new _ 0) (first.append _) (rest.append _)

/-- A new closure is not tied: nothing that could be read before names its cell. -/
theorem DenotesEnv.not_tied_size {env : Env} {list : List (Datum κ)}
    (captured : DenotesEnv Entry h env list) : ¬ h.Tied h.size env := by
  rintro ⟨slot, tail, rfl, found⟩
  cases captured with
  | cons found' first rest =>
    rw [found] at found'
    cases found'
    exact absurd first.lt_size (Nat.lt_irrefl _)

/-- A way to make closures of some kind over environments: it appends the cells it needs, or finds
the heap full. -/
def Makes (Entry : Nat → κ → Prop) (capture : Nat → Env → Effect Heap CellId)
    (make : κ → List (Datum κ) → Datum κ) : Prop :=
  ∀ ⦃h : Heap⦄ ⦃entry : Nat⦄ ⦃env : Env⦄ ⦃body : κ⦄ ⦃list : List (Datum κ)⦄, Entry entry body →
    DenotesEnv Entry h env list →
    Ends (fun cell h' => ∃ cells, h' = h.append cells ∧
        Denotes Entry h' (.closure cell) (make body list))
      (fun fault _ => OutOfHeap fault) (capture entry env h)

theorem makes_capture : Makes Entry capture .plain := by
  intro h entry env body list starts captured
  rw [ends_capture]
  refine ⟨fun _ => ⟨_, rfl, ?_⟩, fun _ => ⟨_, rfl⟩⟩
  exact .plain (getElem?_append_new _ 0) (captured.untied_append captured.not_tied_size _) starts
    (captured.append _)

theorem makes_captureRec : Makes Entry captureRec .recursive := by
  intro h entry env body list starts captured
  rw [ends_captureRec]
  refine ⟨fun _ => ⟨_, rfl, ?_⟩, fun _ => ⟨_, rfl⟩, fun _ => ⟨_, rfl⟩⟩
  exact .recursive (getElem?_append_new _ 1) (getElem?_append_new _ 0) starts (captured.append _)

end Heap

end Secd
