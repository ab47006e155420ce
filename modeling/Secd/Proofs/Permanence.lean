import Secd.Proofs.Sharing

/-!
What a heap has once said, it says again. Calls may come in any order and with any handles, also
with handles that another heap gave out, so that chains can run into closures, into cells that do
not exist, or in circles. Still every cell is written once, and a pending cell once more:

      cell       binding v, tail      closure            pending, tail
      later      binding v, tail      closure            pending, tail   or   binding c, tail

A chain is followed by its tails, and no tail ever changes. So a walk along a chain meets the same
cells later, and ends in the same way unless it ended at a cell that was pending or missing.
-/

namespace Secd

open Effect

/-- What a cell may hold later on: the same, or a binding to a closure if it is pending. -/
inductive Cell.Becomes : Cell → Cell → Prop where
  | same (content : Cell) : Becomes content content
  | tied (tail : Env) (closure : CellId) :
    Becomes (.pending tail) (.binding (.closure closure) tail)

namespace Cell

variable {content content' content'' : Cell}

theorem Becomes.trans (first : content.Becomes content') (second : content'.Becomes content'') :
    content.Becomes content'' := by
  cases first with
  | same => exact second
  | tied tail closure =>
    cases second with
    | same => exact .tied tail closure

/-- A cell that has changed is no longer pending, and does not change again. -/
theorem Becomes.eq_of_ne (first : content.Becomes content') (changed : content' ≠ content)
    (second : content'.Becomes content'') : content'' = content' := by
  cases first with
  | same => exact absurd rfl changed
  | tied tail closure =>
    cases second with
    | same => rfl

end Cell

namespace Heap

variable {h h' h'' : Heap}

/-- All cells are still there, and hold what they may hold later on. -/
def Settles (h h' : Heap) : Prop :=
  ∀ (cell : CellId) (content : Cell), h.cells[cell]? = some content →
    ∃ content', h'.cells[cell]? = some content' ∧ content.Becomes content'

theorem Settles.refl (h : Heap) : h.Settles h :=
  fun _ content found => ⟨content, found, .same content⟩

theorem Settles.trans (first : h.Settles h') (second : h'.Settles h'') : h.Settles h'' := by
  intro cell content found
  obtain ⟨content', found', becomes⟩ := first cell content found
  obtain ⟨content'', found'', becomes'⟩ := second cell content' found'
  exact ⟨content'', found'', becomes.trans becomes'⟩

theorem Settles.size_le (settles : h.Settles h') : h.size ≤ h'.size := by
  rw [← Nat.not_lt]
  intro shorter
  -- the first cell that is missing later would be there before
  obtain ⟨content, found, -⟩ := settles h'.size _ (Array.getElem?_eq_getElem shorter)
  exact Nat.lt_irrefl _ (Array.getElem?_eq_some_iff.1 found).1

/-! ### Calls -/

/-- The heap that a call leaves, however it ends. -/
def after (h : Heap) (call : Call) : Heap :=
  match call.perform h with
  | .ok _ h' => h'
  | .error _ h' => h'

/-- What holds however a call ends holds after it. -/
theorem after_of_endsIn {P : Heap → Prop} {call : Call} (ends : EndsIn P (call.perform h)) :
    P (h.after call) := by
  unfold after
  cases ended : call.perform h with
  | ok handle h' =>
    rw [ended] at ends
    exact ends
  | error fault h' =>
    rw [ended] at ends
    exact ends

theorem settles_append (h : Heap) (cells : Array Cell) : h.Settles (h.append cells) :=
  fun _ content found => ⟨content, getElem?_append cells found, .same content⟩

theorem settles_tieCell {slot : CellId} {tail : Env}
    (pending : h.cells[slot]? = some (.pending tail)) (closure : CellId) :
    h.Settles (h.tieCell slot closure tail) := by
  intro cell content found
  by_cases here : cell = slot
  · subst here
    rw [pending, Option.some.injEq] at found
    subst found
    exact ⟨_, getElem?_tieCell_self pending, .tied tail closure⟩
  · exact ⟨content, (getElem?_tieCell_of_ne here).trans found, .same content⟩

/-- A cell that is not pending is not tied, and neither is one that does not exist. -/
theorem settles_tie (h : Heap) (slot closure : CellId) : EndsIn h.Settles (tie slot closure h) := by
  cases found : h.cells[slot]? with
  | none =>
    simp only [tie, found]
    exact .refl h
  | some content =>
    cases content with
    | pending tail =>
      rw [tie_of_pending found]
      exact settles_tieCell found closure
    | binding head tail =>
      simp only [tie, found]
      exact .refl h
    | closure content =>
      simp only [tie, found]
      exact .refl h

theorem settles_perform (h : Heap) (call : Call) : EndsIn h.Settles (call.perform h) := by
  cases call with
  | extend value env =>
    rw [EndsIn, Call.perform, ends_bind, ends_extend]
    exact ⟨fun _ => settles_append h _, fun _ => .refl h⟩
  | reserve env =>
    rw [EndsIn, Call.perform, ends_bind, reserve, ends_allocate]
    exact ⟨fun _ => settles_append h _, fun _ => .refl h⟩
  | tie slot closure => exact (settles_tie h slot closure).bind fun _ _ settles => settles
  | capture entry env =>
    rw [EndsIn, Call.perform, ends_bind, ends_capture]
    exact ⟨fun _ => settles_append h _, fun _ => .refl h⟩
  | captureRec entry env =>
    rw [EndsIn, Call.perform, ends_bind, ends_captureRec]
    exact ⟨fun _ => settles_append h _, fun _ => settles_append h _, fun _ => .refl h⟩
  | inspect closure =>
    simp only [EndsIn, Call.perform, ends_bind, ends_get, ends_check, ends_pure]
    exact ⟨fun _ _ => .refl h, fun _ _ => .refl h⟩

theorem settles_after (h : Heap) (call : Call) : h.Settles (h.after call) :=
  after_of_endsIn (settles_perform h call)

theorem settles_foldl_after (h : Heap) (calls : List Call) : h.Settles (calls.foldl after h) := by
  induction calls generalizing h with
  | nil => exact .refl h
  | cons call calls ih => exact (settles_after h call).trans (ih (h.after call))

/-! ### Answers -/

/-- A link stays a link with the same tail, and keeps its value once it has one. -/
theorem Settles.link_ok {cell : CellId} {link : Link} (settles : h.Settles h')
    (found : h.link cell = .ok link) :
    ∃ head, h'.link cell = .ok ⟨head, link.tail⟩ ∧ (link.head = none ∨ head = link.head) := by
  unfold Heap.link at found
  split at found
  · rename_i value tail held
    cases found
    obtain ⟨content', held', becomes⟩ := settles cell _ held
    cases becomes
    exact ⟨some value, by rw [Heap.link, held'], .inr rfl⟩
  · rename_i tail held
    cases found
    obtain ⟨content', held', becomes⟩ := settles cell _ held
    cases becomes with
    | same => exact ⟨none, by rw [Heap.link, held'], .inl rfl⟩
    | tied tail closure => exact ⟨some (.closure closure), by rw [Heap.link, held'], .inl rfl⟩
  · cases found
  · cases found

/-- A cell that ends every walk now also ends it later, unless it does not exist yet. -/
theorem Settles.link_error {cell : CellId} {fault : Fault} (settles : h.Settles h')
    (failed : h.link cell = .error fault) :
    h'.link cell = .error fault ∨ fault = .dangling cell := by
  unfold Heap.link at failed
  split at failed
  · cases failed
  · cases failed
  · rename_i closure held
    cases failed
    obtain ⟨content', held', becomes⟩ := settles cell _ held
    cases becomes
    exact .inl (by rw [Heap.link, held'])
  · cases failed
    exact .inr rfl

/-- A walk that finds a value, the end of the chain or a closure finds it again. -/
theorem Settles.lookupFrom (settles : h.Settles h') (index more depth : Nat) (env : Env) :
    h'.lookupFrom index more depth env = h.lookupFrom index more depth env ∨
      h.lookupFrom index more depth env = .error (.untied index) ∨
      ∃ cell, h.lookupFrom index more depth env = .error (.dangling cell) := by
  induction more generalizing depth env with
  | zero =>
    cases env with
    | none => exact .inl rfl
    | some cell =>
      simp only [Heap.lookupFrom]
      cases found : h.link cell with
      | error fault =>
        rcases settles.link_error found with again | rfl
        · rw [again]
          exact .inl rfl
        · exact .inr (.inr ⟨cell, rfl⟩)
      | ok link =>
        obtain ⟨head, found', kept⟩ := settles.link_ok found
        obtain ⟨value, tail⟩ := link
        rcases kept with rfl | rfl
        · exact .inr (.inl rfl)
        · rw [found']
          exact .inl rfl
  | succ more ih =>
    cases env with
    | none => exact .inl rfl
    | some cell =>
      simp only [Heap.lookupFrom]
      cases found : h.link cell with
      | error fault =>
        rcases settles.link_error found with again | rfl
        · rw [again]
          exact .inl rfl
        · exact .inr (.inr ⟨cell, rfl⟩)
      | ok link =>
        obtain ⟨head, found', -⟩ := settles.link_ok found
        rw [found']
        exact ih (depth + 1) link.tail

/-- A walk to the end of a chain takes the same way, whatever bound is put on its length. -/
theorem Settles.depthFrom (settles : h.Settles h') {rounds rounds' depth : Nat} {env : Env}
    {answer : Except Fault Nat} (more : rounds ≤ rounds')
    (counted : h.depthFrom rounds depth env = some answer) :
    h'.depthFrom rounds' depth env = some answer ∨ ∃ cell, answer = .error (.dangling cell) := by
  induction rounds generalizing rounds' depth env with
  | zero => cases counted
  | succ rounds ih =>
    obtain ⟨rounds', rfl⟩ : ∃ k, rounds' = k + 1 := ⟨rounds' - 1, by omega⟩
    cases env with
    | none => exact .inl counted
    | some cell =>
      simp only [Heap.depthFrom] at counted ⊢
      cases found : h.link cell with
      | error fault =>
        simp only [found, Option.some.injEq] at counted
        subst counted
        rcases settles.link_error found with again | rfl
        · rw [again]
          exact .inl rfl
        · exact .inr ⟨cell, rfl⟩
      | ok link =>
        obtain ⟨head, found', -⟩ := settles.link_ok found
        simp only [found] at counted
        rw [found']
        exact ih (Nat.le_of_succ_le_succ more) counted

theorem Settles.closure (settles : h.Settles h') (cell : CellId) :
    h'.closure cell = h.closure cell ∨
      h.closure cell = .error (.cellKind cell .closure .pending) ∨
      h.closure cell = .error (.dangling cell) := by
  cases held : h.cells[cell]? with
  | none => exact .inr (.inr (by rw [Heap.closure, held]))
  | some content =>
    obtain ⟨content', held', becomes⟩ := settles cell content held
    cases becomes with
    | same => exact .inl (by rw [Heap.closure, Heap.closure, held, held'])
    | tied => exact .inr (.inl (by rw [Heap.closure, held]; rfl))

/-- What a later heap still says: the contents of all cells, and every answer that did not depend on
a cell that was pending or missing. -/
structure Remembers (h h' : Heap) : Prop where
  cells : h.Settles h'
  lookup : ∀ index env, h'.lookup index env = h.lookup index env ∨
    h.lookup index env = .error (.untied index) ∨
    ∃ cell, h.lookup index env = .error (.dangling cell)
  depth : ∀ env, h'.depth env = h.depth env ∨ h.depth env = none ∨
    ∃ cell, h.depth env = some (.error (.dangling cell))
  closure : ∀ cell, h'.closure cell = h.closure cell ∨
    h.closure cell = .error (.cellKind cell .closure .pending) ∨
    h.closure cell = .error (.dangling cell)

theorem Settles.remembers (settles : h.Settles h') : h.Remembers h' where
  cells := settles
  lookup := fun index env => settles.lookupFrom index index 0 env
  depth := by
    intro env
    cases counted : h.depth env with
    | none => exact .inr (.inl rfl)
    | some answer =>
      rcases settles.depthFrom (Nat.succ_le_succ settles.size_le) counted with again | ⟨cell, rfl⟩
      · exact .inl again
      · exact .inr (.inr ⟨cell, rfl⟩)
  closure := settles.closure

/-- Whatever calls are made on a heap, with whatever handles, it remembers all that it has said; and
a cell that has changed by some time does not change after it. -/
theorem remembers_after (h : Heap) (calls later : List Call) :
    h.Remembers (calls.foldl after h) ∧
      ∀ (cell : CellId) (content : Cell), h.cells[cell]? = some content →
        (calls.foldl after h).cells[cell]? ≠ some content →
        ((calls ++ later).foldl after h).cells[cell]? = (calls.foldl after h).cells[cell]? := by
  have settles := settles_foldl_after h calls
  refine ⟨settles.remembers, fun cell content found changed => ?_⟩
  obtain ⟨content', found', becomes⟩ := settles cell content found
  obtain ⟨content'', found'', becomes'⟩ := settles_foldl_after (calls.foldl after h) later cell
    content' found'
  rw [found', ne_eq, Option.some.injEq] at changed
  rw [List.foldl_append, found', found'', becomes.eq_of_ne changed becomes']

/-- A pending cell that is its own tail, as a handle from elsewhere named it before it was there. It
is tied once, and a second time in vain; the chain through it never ends, but what it says at some
index stays. -/
theorem remembers_after_tie_in_ring :
    let h : Heap := ⟨4, #[.pending (some 0)]⟩
    let calls : List Call := [.extend (.int 7) (some 0), .tie 0 9]
    let later : List Call := [.tie 0 3, .capture 5 (some 8)]
    h.Remembers (calls.foldl after h) ∧
      (calls.foldl after h).cells[0]? ≠ some (.pending (some 0)) ∧
      ((calls ++ later).foldl after h).cells[0]? = some (.binding (.closure 9) (some 0)) ∧
      (calls.foldl after h).depth (some 1) = none ∧
      (calls.foldl after h).lookup 6 (some 1) = .ok (.closure 9) := by
  intro h calls later
  have changed : (calls.foldl after h).cells[0]? ≠ some (.pending (some 0)) := by decide +kernel
  obtain ⟨remembers, once⟩ := remembers_after h calls later
  refine ⟨remembers, changed, ?_, by decide +kernel, by decide +kernel⟩
  rw [once 0 _ rfl changed]
  decide +kernel

end Heap

end Secd
