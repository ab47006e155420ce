import Secd.Proofs.Permanence

/-!
What the calls on a heap cost, and what they leave behind when they fail. Again the handles may come
from anywhere. New cells are taken in order, behind those in use:

      extend, reserve, capture      one cell
      captureRec                    two cells, the binding before the closure
      tie                           none, but a pending cell becomes a binding

A call that fails leaves the heap as it was. Only a recursive closure is made in more than one part,
and with a single free cell left it stops between them. Its pending cell stays, and fills the heap;
no call has named it to anyone, and none will, except to a user who had its name already and ties
it. So the cells in use are those that the calls were asked for, and at most one more.
-/

namespace Secd.Heap

open Effect

variable {h h' : Heap} {call : Call} {handle : Handle}

/-! ### What calls use, spare and name -/

/-- The cells that a call adds to as many as there are, if it ends well. -/
def Call.contents (size : Nat) : Call → Array Cell
  | extend value env => #[.binding value env]
  | reserve env => #[.pending env]
  | capture entry env => #[.closure ⟨entry, env⟩]
  | captureRec entry env => #[.binding (.closure (size + 1)) env, .closure ⟨entry, some size⟩]
  | tie _ _ | inspect _ => #[]

/-- The cell that a call names in what it gives back. An inspected closure only repeats what it was
made with. -/
def Call.named : Call → Handle → Option CellId
  | inspect _, _ => none
  | _, .env env => env
  | _, .placeholder cell => some cell
  | _, .closure cell => some cell

/-- The cell that a call names, if it ends well. -/
def given (h : Heap) (call : Call) : Option CellId :=
  match call.perform h with
  | .ok handle _ => call.named handle
  | .error _ _ => none

/-- The cells that a sequence of calls names, in order. -/
def handedOut : Heap → List Call → List CellId
  | _, [] => []
  | h, call :: calls => (h.given call).toList ++ handedOut (h.after call) calls

/-- How many cells a call uses, if it ends well. -/
def cost (h : Heap) (call : Call) : Nat :=
  match call.perform h with
  | .ok _ _ => call.cells
  | .error _ _ => 0

/-- How many cells a sequence of calls uses, those apart that fail. -/
def spent : Heap → List Call → Nat
  | _, [] => 0
  | h, call :: calls => h.cost call + spent (h.after call) calls

/-- A call that ends well uses the cells of its kind, in order and behind those in use. It names one
of them, or else the cell that it has tied, which is the only old cell to change. -/
structure Uses (h : Heap) (call : Call) (handle : Handle) (h' : Heap) : Prop where
  capacity : h'.capacity = h.capacity
  room : 0 < call.cells → h.size + call.cells ≤ h.capacity
  size : h'.size = h.size + call.cells
  added : ∀ i < call.cells, h'.cells[h.size + i]? = (call.contents h.size)[i]?
  kept : ∀ cell < h.size, (∀ closure, call ≠ .tie cell closure) → h'.cells[cell]? = h.cells[cell]?
  named : ∀ cell ∈ call.named handle, (h.size ≤ cell ∧ cell < h'.size) ∨
    cell < h.size ∧ ∃ closure, call = .tie cell closure

/-- A call that fails leaves the heap as it was, or has made the first half of a recursive
closure. -/
inductive Spares (h : Heap) : Call → Fault → Heap → Prop where
  | whole {call : Call} {fault : Fault}
    (full : 0 < call.cells → fault = .exhausted .heap h.capacity) : Spares h call fault h
  | half {entry : Nat} {env : Env} (one : h.remaining = 1) :
    Spares h (.captureRec entry env) (.exhausted .heap h.capacity) (h.append #[.pending env])

/-- The accounts of a heap whose calls have used so many cells and have named some of them. -/
structure Accounted (capacity used : Nat) (named : List CellId) (h : Heap) : Prop where
  room : h.size ≤ capacity
  remaining : h.size + h.remaining = capacity
  /-- All cells were used by a call that ended well, but for a single one that was left over. -/
  total : h.size = used ∨ h.size = used + 1 ∧ h.remaining = 0
  uses : ∀ (call : Call) handle h', call.perform h = .ok handle h' → Uses h call handle h'
  recursive : ∀ entry env fault h', (Call.captureRec entry env).perform h = .error fault h' →
    fault = .exhausted .heap capacity
  spares : ∀ (call : Call) fault h', call.perform h = .error fault h' →
    h' = h ∨ h.remaining = 1 ∧ ∃ entry env, call = .captureRec entry env
  leftover : h.remaining = 1 → ∀ entry env,
    (Call.captureRec entry env).perform h =
        .error (.exhausted .heap capacity) (h.append #[.pending env]) ∧
      (h.append #[.pending env]).remaining = 0 ∧ h.size ∉ named ∧
      ∀ later, h.size ∈ handedOut (h.append #[.pending env]) later →
        ∃ closure, .tie h.size closure ∈ later

/-! ### One call -/

theorem Call.size_contents (size : Nat) (call : Call) :
    (call.contents size).size = call.cells := by
  cases call <;> rfl

@[simp] theorem size_append (h : Heap) (cells : Array Cell) :
    (h.append cells).size = h.size + cells.size := Array.size_append

/-- The call has put its cells behind the old ones and names the last of them. -/
theorem uses_append (room : h.size + call.cells ≤ h.capacity) (takes : 0 < call.cells)
    (names : call.named handle = some (h.size + (call.cells - 1))) :
    Uses h call handle (h.append (call.contents h.size)) where
  capacity := rfl
  room := fun _ => room
  size := by rw [size_append, call.size_contents]
  added := fun i _ => getElem?_append_new _ i
  kept := fun cell inside _ => Array.getElem?_append_left inside
  named := by
    intro cell isNamed
    rw [names] at isNamed
    cases isNamed
    refine .inl ⟨Nat.le_add_right _ _, ?_⟩
    rw [size_append, call.size_contents]
    exact Nat.add_lt_add_left (Nat.sub_lt takes Nat.one_pos) _

theorem uses_tieCell {slot closure : CellId} {tail : Env}
    (pending : h.cells[slot]? = some (.pending tail)) :
    Uses h (.tie slot closure) (.env (some slot)) (h.tieCell slot closure tail) where
  capacity := rfl
  room := fun takes => absurd takes (Nat.lt_irrefl 0)
  size := size_tieCell
  added := fun i inside => absurd inside (Nat.not_lt_zero i)
  kept := by
    intro cell _ other
    refine getElem?_tieCell_of_ne ?_
    rintro rfl
    exact other closure rfl
  named := by
    rintro _ ⟨⟩
    exact .inr ⟨(Array.getElem?_eq_some_iff.1 pending).1, closure, rfl⟩

theorem uses_inspect (h : Heap) (closure : CellId) (handle : Handle) :
    Uses h (.inspect closure) handle h where
  capacity := rfl
  room := fun takes => absurd takes (Nat.lt_irrefl 0)
  size := rfl
  added := fun i inside => absurd inside (Nat.not_lt_zero i)
  kept := fun _ _ _ => rfl
  named := by rintro _ ⟨⟩

theorem ends_tie {Q : Env → Heap → Prop} {E : Fault → Heap → Prop} {slot closure : CellId} :
    Ends Q E (tie slot closure h) ↔
      (∀ tail, h.cells[slot]? = some (.pending tail) →
        Q (some slot) (h.tieCell slot closure tail)) ∧
      (∀ content, h.cells[slot]? = some content → content.kind ≠ .pending →
        E (.cellKind slot .pending content.kind) h) ∧
      (h.cells[slot]? = none → E (.dangling slot) h) := by
  cases found : h.cells[slot]? with
  | none => simp [tie, found]
  | some content =>
    cases content with
    | pending tail =>
      rw [tie_of_pending found]
      simp [tieCell, Cell.kind]
    | binding head tail => simp [tie, found, Cell.kind]
    | closure content => simp [tie, found, Cell.kind]

/-- However a call ends, it has used its cells or spared the heap. -/
theorem perform_uses (h : Heap) (call : Call) :
    Ends (Uses h call) (Spares h call) (call.perform h) := by
  cases call with
  | extend value env =>
    rw [Call.perform, ends_bind, ends_extend]
    exact ⟨fun room => uses_append room Nat.one_pos rfl, fun _ => .whole fun _ => rfl⟩
  | reserve env =>
    rw [Call.perform, ends_bind, reserve, ends_allocate]
    exact ⟨fun room => uses_append room Nat.one_pos rfl, fun _ => .whole fun _ => rfl⟩
  | capture entry env =>
    rw [Call.perform, ends_bind, ends_capture]
    exact ⟨fun room => uses_append room Nat.one_pos rfl, fun _ => .whole fun _ => rfl⟩
  | captureRec entry env =>
    rw [Call.perform, ends_bind, ends_captureRec]
    refine ⟨fun room => uses_append room Nat.two_pos rfl, fun one => .half ?_,
      fun _ => .whole fun _ => rfl⟩
    rw [remaining]
    omega
  | tie slot closure =>
    rw [Call.perform, ends_bind, ends_tie]
    have free : ¬ 0 < (Call.tie slot closure).cells := Nat.lt_irrefl 0
    exact ⟨fun tail => uses_tieCell, fun _ _ _ => .whole fun takes => absurd takes free,
      fun _ => .whole fun takes => absurd takes free⟩
  | inspect closure =>
    simp only [Call.perform, ends_bind, ends_get, ends_check, ends_pure]
    exact ⟨fun _ _ => uses_inspect h closure _,
      fun _ _ => .whole fun takes => absurd takes (Nat.lt_irrefl 0)⟩

/-- With one free cell left a recursive closure always stops halfway. -/
theorem perform_captureRec_of_one (one : h.remaining = 1) (entry : Nat) (env : Env) :
    (Call.captureRec entry env).perform h =
      .error (.exhausted .heap h.capacity) (h.append #[.pending env]) := by
  have last : h.size + 1 = h.capacity := by
    rw [remaining] at one
    omega
  have ends : Ends (fun _ _ => False)
      (fun fault h' => fault = .exhausted .heap h.capacity ∧ h' = h.append #[.pending env])
      ((Call.captureRec entry env).perform h) := by
    rw [Call.perform, ends_bind, ends_captureRec]
    exact ⟨fun two => absurd two (by omega), fun _ => ⟨rfl, rfl⟩,
      fun full => absurd full (by omega)⟩
  cases ended : (Call.captureRec entry env).perform h with
  | ok handle h' =>
    rw [ended] at ends
    exact ends.elim
  | error fault h' =>
    rw [ended] at ends
    obtain ⟨rfl, rfl⟩ := ends
    rfl

theorem capacity_after (h : Heap) (call : Call) : (h.after call).capacity = h.capacity := by
  refine after_of_endsIn ((perform_uses h call).imp (fun _ _ uses => uses.capacity) ?_)
  intro fault h' spares
  cases spares <;> rfl

/-- A call either uses what it costs, for which there was room, or takes the last cell in vain. -/
theorem size_after (h : Heap) (call : Call) :
    ((h.after call).size = h.size + h.cost call ∧
        (0 < h.cost call → h.size + h.cost call ≤ h.capacity)) ∨
      (h.after call).size = h.size + 1 ∧ h.cost call = 0 ∧ h.size + 1 = h.capacity := by
  have ends := perform_uses h call
  unfold after cost
  cases ended : call.perform h with
  | ok handle h' =>
    rw [ended] at ends
    exact .inl ⟨ends.size, ends.room⟩
  | error fault h' =>
    rw [ended] at ends
    cases ends with
    | whole => exact .inl ⟨rfl, fun costs => absurd costs (Nat.lt_irrefl 0)⟩
    | half one =>
      rw [remaining] at one
      exact .inr ⟨size_append h _, rfl, by omega⟩

theorem given_cases {cell : CellId} (named : h.given call = some cell) :
    (h.size ≤ cell ∧ cell < (h.after call).size) ∨
      cell < h.size ∧ ∃ closure, call = .tie cell closure := by
  have ends := perform_uses h call
  unfold given at named
  unfold after
  cases ended : call.perform h with
  | ok handle h' =>
    rw [ended] at ends named
    exact ends.named cell named
  | error fault h' =>
    rw [ended] at named
    cases named

theorem size_le_after (h : Heap) (call : Call) : h.size ≤ (h.after call).size :=
  (settles_after h call).size_le

/-- All cells that were named are in use. -/
theorem lt_size_of_handedOut {cell : CellId} {calls : List Call}
    (named : cell ∈ handedOut h calls) : cell < (calls.foldl after h).size := by
  induction calls generalizing h with
  | nil => cases named
  | cons call calls ih =>
    rw [handedOut, List.mem_append, Option.mem_toList] at named
    rw [List.foldl_cons]
    rcases named with now | later
    · have inUse : cell < (h.after call).size := by
        rcases given_cases now with ⟨-, new⟩ | ⟨old, -⟩
        · exact new
        · exact Nat.lt_of_lt_of_le old (size_le_after h call)
      exact Nat.lt_of_lt_of_le inUse (settles_foldl_after _ calls).size_le
    · exact ih later

/-- A cell in use is named again only by tying it. -/
theorem tie_of_handedOut {cell : CellId} {calls : List Call} (inUse : cell < h.size)
    (named : cell ∈ handedOut h calls) : ∃ closure, .tie cell closure ∈ calls := by
  induction calls generalizing h with
  | nil => cases named
  | cons call calls ih =>
    rw [handedOut, List.mem_append, Option.mem_toList] at named
    rcases named with now | later
    · rcases given_cases now with ⟨new, -⟩ | ⟨-, closure, rfl⟩
      · exact absurd inUse (Nat.not_lt.2 new)
      · exact ⟨closure, List.mem_cons_self⟩
    · obtain ⟨closure, mem⟩ := ih (Nat.lt_of_lt_of_le inUse (size_le_after h call)) later
      exact ⟨closure, List.mem_cons_of_mem _ mem⟩

theorem capacity_foldl_after (h : Heap) (calls : List Call) :
    (calls.foldl after h).capacity = h.capacity := by
  induction calls generalizing h with
  | nil => rfl
  | cons call calls ih => exact (ih (h.after call)).trans (capacity_after h call)

theorem size_foldl_after_le (room : h.size ≤ h.capacity) (calls : List Call) :
    (calls.foldl after h).size ≤ h.capacity := by
  induction calls generalizing h with
  | nil => exact room
  | cons call calls ih =>
    have same := capacity_after h call
    have rest := @ih (h.after call)
    have now := size_after h call
    rw [List.foldl_cons]
    omega

/-- On a full heap nothing is used any more. -/
theorem foldl_after_of_full (full : h.capacity ≤ h.size) (calls : List Call) :
    (calls.foldl after h).size = h.size ∧ h.spent calls = 0 := by
  induction calls generalizing h with
  | nil => exact ⟨rfl, rfl⟩
  | cons call calls ih =>
    have same := capacity_after h call
    have now := size_after h call
    have rest := @ih (h.after call)
    rw [List.foldl_cons, spent]
    omega

/-- A cell that is left over fills the heap, so there is at most one. -/
theorem size_foldl_after (h : Heap) (calls : List Call) :
    (calls.foldl after h).size = h.size + h.spent calls ∨
      (calls.foldl after h).size = h.size + h.spent calls + 1 ∧
        (calls.foldl after h).size = h.capacity := by
  induction calls generalizing h with
  | nil => exact .inl rfl
  | cons call calls ih =>
    have same := capacity_after h call
    have rest := ih (h.after call)
    rw [List.foldl_cons, spent]
    rcases size_after h call with ⟨used, -⟩ | ⟨leftOver, none, last⟩
    · omega
    · have full := foldl_after_of_full (h := h.after call) (by omega) calls
      omega

theorem empty?_eq_ok {capacity : Nat} (made : Heap.empty? capacity = .ok h) :
    h = ⟨capacity, #[]⟩ := by
  obtain ⟨-, -, made⟩ := exists_ok_of_bind made
  cases made
  rfl

theorem accounted_of_room {used : Nat} {named : List CellId} (room : h.size ≤ h.capacity)
    (total : h.size = used ∨ h.size = used + 1 ∧ h.size = h.capacity)
    (inUse : ∀ cell ∈ named, cell < h.size) : Accounted h.capacity used named h where
  room := room
  remaining := Nat.add_sub_cancel' room
  total := by
    rw [remaining]
    omega
  uses := by
    intro call handle h' ended
    have ends := perform_uses h call
    rw [ended] at ends
    exact ends
  recursive := by
    intro entry env fault h' ended
    have ends := perform_uses h (.captureRec entry env)
    rw [ended] at ends
    cases ends with
    | whole full => exact full Nat.two_pos
    | half => rfl
  spares := by
    intro call fault h' ended
    have ends := perform_uses h call
    rw [ended] at ends
    cases ends with
    | whole => exact .inl rfl
    | half one => exact .inr ⟨one, _, _, rfl⟩
  leftover := by
    intro one entry env
    refine ⟨perform_captureRec_of_one one entry env, ?_, fun mem => ?_, fun later mem => ?_⟩
    · rw [remaining] at one ⊢
      rw [size_append]
      change h.capacity - (h.size + 1) = 0
      omega
    · exact Nat.lt_irrefl _ (inUse _ mem)
    · refine tie_of_handedOut ?_ mem
      rw [size_append]
      exact Nat.lt_succ_self h.size

/-- Whatever calls are made on a new heap, with whatever handles, its accounts are in order: it has
room for its cells, a call uses what its kind uses, and a call that fails spares the heap unless it
has made half of a recursive closure, which fills the heap and which nobody has a name for. -/
theorem accounted_foldl_after {capacity : Nat} (made : Heap.empty? capacity = .ok h)
    (calls : List Call) :
    Accounted capacity (h.spent calls) (h.handedOut calls) (calls.foldl after h) := by
  obtain rfl := empty?_eq_ok made
  have same := capacity_foldl_after ⟨capacity, #[]⟩ calls
  have room := size_foldl_after_le (h := ⟨capacity, #[]⟩) (Nat.zero_le capacity) calls
  have total := size_foldl_after ⟨capacity, #[]⟩ calls
  rw [← same] at room total
  rw [show (⟨capacity, #[]⟩ : Heap).size = 0 from rfl, Nat.zero_add] at total
  have accounted := accounted_of_room room total fun _ named => lt_size_of_handedOut named
  rwa [same] at accounted

/-- A heap with four cells, one of them free. A call with a handle of the wrong kind fails and
spares it; a recursive closure leaves its pending cell, which only a call that ties it can name. -/
theorem accounted_foldl_after_of_one_free :
    let calls : List Call := [.extend (.int 5) (some 9), .captureRec 7 (some 0), .tie 2 1]
    ∃ h, Heap.empty? 4 = .ok h ∧ h.handedOut calls = [0, 2] ∧
      (calls.foldl after h).size = h.spent calls ∧ (calls.foldl after h).remaining = 1 ∧
      (Call.captureRec 8 (some 2)).perform (calls.foldl after h) =
        .error (.exhausted .heap 4) ((calls.foldl after h).append #[.pending (some 2)]) ∧
      3 ∉ h.handedOut calls ∧
      handedOut ((calls.foldl after h).append #[.pending (some 2)]) [.reserve none, .tie 3 2] =
        [3] := by
  intro calls
  have made : Heap.empty? 4 = .ok ⟨4, #[]⟩ := rfl
  have one : (calls.foldl after ⟨4, #[]⟩).remaining = 1 := by decide +kernel
  have accounted := accounted_foldl_after made calls
  obtain ⟨failed, -, unnamed, -⟩ := accounted.leftover one 8 (some 2)
  have total := accounted.total
  rw [one] at total
  exact ⟨_, made, by decide +kernel, total.resolve_right fun full => absurd full.2 Nat.one_ne_zero,
    one, failed, unnamed, by decide +kernel⟩

end Secd.Heap
