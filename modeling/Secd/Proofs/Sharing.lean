import Mathlib.Data.List.Basic
import Secd.Proofs.Calls
import Secd.Machine.Parts

/-!
Environments read as lists with shared slots. Whatever sequence of calls a user makes on a heap,
every handle that was ever given out reads as its list in the ledger, at every point.

      handle ── tails ──▶ cell, cell, …      each cell is a link of the list's item:
                                             a binding if the item has a value, else pending

A tail is always an older cell than the link it hangs on, so every list ends. A cell is written when
it is allocated; only a pending cell is written again, and that is the slot which all lists through
it share.
-/

namespace Secd.Heap

open Effect

variable {h : Heap} {l : Ledger} {tied : List (CellId × CellId)}

/-! ### Chains that read as lists -/

/-- The cell of a link: a binding if the value is known, else pending. -/
def cellOf (head : Option Value) (tail : Env) : Cell :=
  match head with
  | some value => .binding value tail
  | none => .pending tail

theorem cellOf_eq_pending_iff {head : Option Value} {tail tail' : Env} :
    cellOf head tail = .pending tail' ↔ head = none ∧ tail = tail' := by
  cases head <;> simp [cellOf]

/-- The environment is a chain of cells, one for each item of the list. -/
inductive Represents (h : Heap) (tied : List (CellId × CellId)) : Env → List Item → Prop where
  | nil : Represents h tied none []
  | cons {cell : CellId} {tail : Env} {item : Item} {items : List Item}
      (found : h.cells[cell]? = some (cellOf (item.value? tied) tail))
      (own : ∀ placeholder, item = .slot placeholder → placeholder = cell)
      (older : ∀ t ∈ tail, t < cell) (rest : Represents h tied tail items) :
      Represents h tied (some cell) (item :: items)

theorem link_of_cellOf {cell : CellId} {head : Option Value} {tail : Env}
    (found : h.cells[cell]? = some (cellOf head tail)) : h.link cell = .ok ⟨head, tail⟩ := by
  cases head <;> simp only [link, found, cellOf]

theorem Represents.lt_size {env : Env} {list : List Item}
    (represents : Represents h tied env list) : ∀ cell ∈ env, cell < h.size := by
  cases represents with
  | nil => exact nofun
  | cons found =>
    rintro _ ⟨⟩
    exact (Array.getElem?_eq_some_iff.1 found).1

/-- A list is not longer than the number of cells up to that of its first item. -/
theorem Represents.length_le {env : Env} {list : List Item}
    (represents : Represents h tied env list) (bound : Nat) (below : ∀ cell ∈ env, cell < bound) :
    list.length ≤ bound := by
  induction represents generalizing bound with
  | nil => exact Nat.zero_le bound
  | @cons cell tail item items found own older rest ih =>
    have first : cell < bound := below cell rfl
    have others : items.length ≤ cell := ih cell older
    exact Nat.succ_le_of_lt (Nat.lt_of_le_of_lt others first)

theorem Represents.lookupFrom {env : Env} {list : List Item}
    (represents : Represents h tied env list) (index more depth : Nat) :
    h.lookupFrom index more depth env =
      match (list.map (Item.value? tied))[more]? with
      | some (some value) => .ok value
      | some none => .error (.untied index)
      | none => .error (.unbound index (depth + list.length)) := by
  induction represents generalizing more depth with
  | nil => cases more <;> rfl
  | @cons cell tail item items found own older rest ih =>
    have linked := link_of_cellOf found
    rw [List.map_cons]
    cases more with
    | zero =>
      rw [Heap.lookupFrom, linked]
      cases item.value? tied <;> rfl
    | succ more =>
      simp only [Heap.lookupFrom, linked]
      rw [ih, List.getElem?_cons_succ, List.length_cons, Nat.add_assoc, Nat.add_comm 1]

/-- Looking up an index gives the item's value, and tells an empty slot from the end of the list. -/
theorem Represents.lookup {env : Env} {list : List Item} (represents : Represents h tied env list)
    (index : Nat) : h.lookup index env = answer index (list.map (Item.value? tied)) := by
  have read := represents.lookupFrom index index 0
  rw [Nat.zero_add] at read
  rw [Heap.lookup, answer, List.length_map]
  exact read

theorem Represents.depthFrom {env : Env} {list : List Item}
    (represents : Represents h tied env list) (rounds depth : Nat) (enough : list.length < rounds) :
    h.depthFrom rounds depth env = some (.ok (depth + list.length)) := by
  induction represents generalizing rounds depth with
  | nil =>
    obtain ⟨rounds, rfl⟩ := Nat.exists_eq_succ_of_ne_zero (Nat.ne_of_gt enough)
    rfl
  | @cons cell tail item items found own older rest ih =>
    rw [List.length_cons] at enough ⊢
    obtain ⟨rounds, rfl⟩ := Nat.exists_eq_succ_of_ne_zero (Nat.ne_of_gt (Nat.zero_lt_of_lt enough))
    simp only [Heap.depthFrom, link_of_cellOf found]
    rw [ih rounds (depth + 1) (Nat.lt_of_succ_lt_succ enough), Nat.add_assoc, Nat.add_comm 1]

/-- Counting the links of an environment ends, with the length of its list. -/
theorem Represents.depth {env : Env} {list : List Item} (represents : Represents h tied env list) :
    h.depth env = some (.ok list.length) := by
  have short := represents.length_le h.size represents.lt_size
  rw [Heap.depth, represents.depthFrom _ _ (Nat.lt_succ_of_le short), Nat.zero_add]

theorem Represents.reads {env : Env} {list : List Item} (represents : Represents h tied env list) :
    h.Reads env (list.map (Item.value? tied)) where
  lookup := represents.lookup
  depth := by rw [List.length_map, represents.depth]

/-! ### Chains that stay what they are -/

theorem Represents.append {env : Env} {list : List Item} (represents : Represents h tied env list)
    (cells : Array Cell) : Represents (h.append cells) tied env list := by
  induction represents with
  | nil => exact .nil
  | cons found own older rest ih => exact .cons (getElem?_append cells found) own older ih

/-- One more link in front of a chain. -/
theorem Represents.link_new {env : Env} {list : List Item} {item : Item} {cells : Array Cell}
    (represents : Represents h tied env list)
    (first : cells[0]? = some (cellOf (item.value? tied) env))
    (own : ∀ placeholder, item = .slot placeholder → placeholder = h.size) :
    Represents (h.append cells) tied (some h.size) (item :: list) :=
  .cons ((getElem?_append_new cells 0).trans first) own represents.lt_size (represents.append cells)

/-- The heap in which a pending cell has become a binding to a closure. -/
def tieCell (h : Heap) (slot closure : CellId) (tail : Env) : Heap :=
  { h with cells := h.cells.setIfInBounds slot (.binding (.closure closure) tail) }

section Tie

variable {slot closure : CellId} {tail : Env}

@[simp] theorem size_tieCell : (h.tieCell slot closure tail).size = h.size := by
  simp [tieCell, size]

theorem getElem?_tieCell_self (pending : h.cells[slot]? = some (.pending tail)) :
    (h.tieCell slot closure tail).cells[slot]? = some (.binding (.closure closure) tail) := by
  obtain ⟨inside, -⟩ := Array.getElem?_eq_some_iff.1 pending
  rw [tieCell, Array.getElem?_setIfInBounds, if_pos rfl, if_pos inside]

theorem getElem?_tieCell_of_ne {cell : CellId} (other : cell ≠ slot) :
    (h.tieCell slot closure tail).cells[cell]? = h.cells[cell]? := by
  rw [tieCell, Array.getElem?_setIfInBounds, if_neg other.symm]

/-- A cell that is not pending is not the one that is tied. -/
theorem getElem?_tieCell {cell : CellId} {content : Cell}
    (pending : h.cells[slot]? = some (.pending tail)) (found : h.cells[cell]? = some content)
    (written : content.kind ≠ .pending) :
    (h.tieCell slot closure tail).cells[cell]? = some content := by
  rw [getElem?_tieCell_of_ne, found]
  rintro rfl
  rw [pending, Option.some.injEq] at found
  exact written (found ▸ rfl)

end Tie

/-- Tying a placeholder fills its slot in every list and changes no other item. -/
theorem Represents.tie {slot closure : CellId} {tail : Env}
    (pending : h.cells[slot]? = some (.pending tail)) {env : Env} {list : List Item}
    (represents : Represents h tied env list) :
    Represents (h.tieCell slot closure tail) ((slot, closure) :: tied) env list := by
  have filled : (Item.slot slot).value? ((slot, closure) :: tied) = some (.closure closure) := by
    rw [Item.value?, List.lookup_cons_self]
    rfl
  have kept (placeholder : CellId) (other : placeholder ≠ slot) :
      (Item.slot placeholder).value? ((slot, closure) :: tied) =
        (Item.slot placeholder).value? tied := by
    rw [Item.value?, Item.value?, List.lookup_cons, beq_false_of_ne other]
  induction represents with
  | nil => exact .nil
  | @cons cell tail' item items found own older rest ih =>
    refine .cons ?_ own older ih
    cases item with
    | value value => exact getElem?_tieCell pending found nofun
    | slot placeholder =>
      obtain rfl := own placeholder rfl
      by_cases same : placeholder = slot
      · -- the slot is empty before, as its cell is pending
        subst same
        rw [pending, Option.some.injEq] at found
        obtain ⟨-, rfl⟩ := cellOf_eq_pending_iff.1 found.symm
        rw [filled, getElem?_tieCell_self pending]
        rfl
      · rw [kept placeholder same, getElem?_tieCell_of_ne same, found]

/-! ### Sessions -/

/-- The closure at a cell is what the ledger says it was made with. -/
def Holds (h : Heap) (tied : List (CellId × CellId)) (cell : CellId) : Made → Prop
  | .plain entry env => h.cells[cell]? = some (.closure ⟨entry, env⟩)
  | .recursive entry list =>
    ∃ env, h.cells[cell]? = some (.closure ⟨entry, env⟩) ∧ Represents h tied env list

/-- The ledger is true of the heap. -/
structure Faithful (h : Heap) (l : Ledger) : Prop where
  room : h.size ≤ h.capacity
  envs : ∀ known ∈ l.envs, Represents h l.tied known.1 known.2
  closures : ∀ known ∈ l.closures, Holds h l.tied known.1 known.2
  distinct : l.placeholders.Nodup
  inside : ∀ slot ∈ l.placeholders, slot < h.size
  named : ∀ slot ∈ l.placeholders, l.KnowsEnv (some slot)
  reserved : ∀ known ∈ l.tied, known.1 ∈ l.placeholders
  pending : ∀ slot ∈ l.placeholders, l.tied.lookup slot = none →
    ∃ tail, h.cells[slot]? = some (.pending tail)

theorem Ledger.mem_envs {env : Env} (known : l.KnowsEnv env) : (env, l.list env) ∈ l.envs := by
  obtain ⟨⟨env', list⟩, mem, same⟩ := List.mem_map.1 known
  obtain rfl : env' = env := same
  have found : (l.envs.lookup env').isSome = true :=
    List.lookup_isSome_iff.2 ⟨(env', list), mem, beq_self_eq_true env'⟩
  obtain ⟨list, found⟩ := Option.isSome_iff_exists.1 found
  obtain ⟨before, after, parts, -⟩ := List.lookup_eq_some_iff.1 found
  rw [Ledger.list, found, parts]
  exact List.mem_append_cons_self

theorem Holds.append {cell : CellId} {made : Made} (holds : Holds h tied cell made)
    (cells : Array Cell) : Holds (h.append cells) tied cell made := by
  cases made with
  | plain entry env => exact getElem?_append cells holds
  | recursive entry list =>
    obtain ⟨env, found, represents⟩ := holds
    exact ⟨env, getElem?_append cells found, represents.append cells⟩

theorem Holds.tie {slot closure : CellId} {tail : Env}
    (pending : h.cells[slot]? = some (.pending tail)) {cell : CellId} {made : Made}
    (holds : Holds h tied cell made) :
    Holds (h.tieCell slot closure tail) ((slot, closure) :: tied) cell made := by
  cases made with
  | plain entry env => exact getElem?_tieCell pending holds nofun
  | recursive entry list =>
    obtain ⟨env, found, represents⟩ := holds
    exact ⟨env, getElem?_tieCell pending found nofun, represents.tie pending⟩

/-- More cells, of which no handle is known yet, leave the ledger true. -/
theorem Faithful.append (faithful : Faithful h l) (cells : Array Cell)
    (room : h.size + cells.size ≤ h.capacity) : Faithful (h.append cells) l where
  room := by rwa [size, Heap.append, Array.size_append]
  envs := fun known mem => (faithful.envs known mem).append cells
  closures := fun known mem => (faithful.closures known mem).append cells
  distinct := faithful.distinct
  inside := by
    intro slot mem
    rw [size, Heap.append, Array.size_append]
    exact Nat.lt_add_right _ (faithful.inside slot mem)
  named := faithful.named
  reserved := faithful.reserved
  pending := by
    intro slot mem untied
    obtain ⟨tail, found⟩ := faithful.pending slot mem untied
    exact ⟨tail, getElem?_append cells found⟩

theorem Faithful.learn (faithful : Faithful h l) {env : Env} {list : List Item}
    (represents : Represents h l.tied env list) : Faithful h (l.learn env list) :=
  { faithful with
    envs := List.forall_mem_cons.2 ⟨represents, faithful.envs⟩
    named := fun slot mem => List.mem_cons_of_mem _ (faithful.named slot mem) }

theorem Faithful.withClosure (faithful : Faithful h l) {cell : CellId} (made : Made)
    (holds : Holds h l.tied cell made) :
    Faithful h { l with closures := (cell, made) :: l.closures } :=
  { faithful with closures := List.forall_mem_cons.2 ⟨holds, faithful.closures⟩ }

/-- A cell that is not in use is the slot of no placeholder. -/
theorem Faithful.not_reserved_size (faithful : Faithful h l) : h.size ∉ l.placeholders :=
  fun mem => Nat.lt_irrefl _ (faithful.inside _ mem)

theorem Faithful.not_tied_size (faithful : Faithful h l) : l.tied.lookup h.size = none := by
  rw [List.lookup_eq_none_iff]
  intro known mem
  rw [bne_iff_ne]
  intro same
  exact faithful.not_reserved_size (same ▸ faithful.reserved known mem)

/-- The new cell of a reservation is a placeholder. -/
theorem Faithful.withPlaceholder (faithful : Faithful h l) {tail : Env} {list : List Item}
    (room : h.size < h.capacity)
    (represents : Represents (h.append #[.pending tail]) l.tied (some h.size) list) :
    Faithful (h.append #[.pending tail])
      { l.learn (some h.size) list with placeholders := h.size :: l.placeholders } := by
  have grown := (faithful.append #[.pending tail] room).learn represents
  refine { grown with
    distinct := List.nodup_cons.2 ⟨faithful.not_reserved_size, faithful.distinct⟩
    inside := List.forall_mem_cons.2 ⟨?_, grown.inside⟩
    named := List.forall_mem_cons.2 ⟨List.mem_cons_self, grown.named⟩
    reserved := fun known mem => List.mem_cons_of_mem _ (faithful.reserved known mem)
    pending := List.forall_mem_cons.2 ⟨fun _ => ⟨tail, getElem?_append_new _ 0⟩, grown.pending⟩ }
  simp [size, Heap.append]

/-- A placeholder that is tied leaves the others as they are. -/
theorem Faithful.tie (faithful : Faithful h l) {slot closure : CellId} {tail : Env}
    (reserved : slot ∈ l.placeholders) (pending : h.cells[slot]? = some (.pending tail)) :
    Faithful (h.tieCell slot closure tail) { l with tied := (slot, closure) :: l.tied } where
  room := by
    rw [size_tieCell]
    exact faithful.room
  envs := fun known mem => (faithful.envs known mem).tie pending
  closures := fun known mem => (faithful.closures known mem).tie pending
  distinct := faithful.distinct
  inside := by
    rw [size_tieCell]
    exact faithful.inside
  named := faithful.named
  reserved := List.forall_mem_cons.2 ⟨reserved, faithful.reserved⟩
  pending := by
    intro other mem untied
    rw [List.lookup_cons] at untied
    split at untied
    · cases untied
    · rename_i differs
      obtain ⟨tail', found⟩ := faithful.pending other mem untied
      exact ⟨tail', by rw [getElem?_tieCell_of_ne (ne_of_beq_false differs), found]⟩

/-! ### Calls -/

/-- What a call may leave behind: a heap of which the ledger is true, with the result noted; or, if
there are too few free cells, one of which the ledger is true as it was. -/
def Kept (h : Heap) (l : Ledger) (call : Call) : EStateM.Result Fault Heap Handle → Prop :=
  Ends (fun handle h' => Faithful h' (l.note call handle))
    (fun fault h' => Faithful h' l ∧ fault = .exhausted .heap h.capacity ∧
      h.capacity < h.size + call.cells)

theorem Faithful.kept_extend (faithful : Faithful h l) {value : Value} {env : Env}
    (known : l.KnowsEnv env) :
    Kept h l (.extend value env) ((Call.extend value env).perform h) := by
  rw [Kept, Call.perform, ends_bind, ends_extend]
  have represents := faithful.envs _ (Ledger.mem_envs known)
  refine ⟨fun room => ?_, fun full => ⟨faithful, rfl, Nat.lt_succ_of_le full⟩⟩
  exact (faithful.append #[.binding value env] room).learn (represents.link_new rfl nofun)

theorem Faithful.kept_reserve (faithful : Faithful h l) {env : Env} (known : l.KnowsEnv env) :
    Kept h l (.reserve env) ((Call.reserve env).perform h) := by
  rw [Kept, Call.perform, ends_bind, reserve, ends_allocate]
  have represents := faithful.envs _ (Ledger.mem_envs known)
  refine ⟨fun room => ?_, fun full => ⟨faithful, rfl, Nat.lt_succ_of_le full⟩⟩
  have empty : (Item.slot h.size).value? l.tied = none := by
    rw [Item.value?, faithful.not_tied_size]
    rfl
  refine faithful.withPlaceholder room (represents.link_new ?_ ?_)
  · rw [empty]
    rfl
  · rintro _ ⟨⟩
    rfl

/-- A placeholder that was not tied before can always be tied. -/
theorem Faithful.kept_tie (faithful : Faithful h l) {slot closure : CellId}
    (reserved : slot ∈ l.placeholders) (untied : l.tied.lookup slot = none) :
    Kept h l (.tie slot closure) ((Call.tie slot closure).perform h) := by
  obtain ⟨tail, pending⟩ := faithful.pending slot reserved untied
  rw [Kept, Call.perform, ends_bind, tie_of_pending pending]
  have represents := faithful.envs _ (Ledger.mem_envs (faithful.named slot reserved))
  exact (faithful.tie reserved pending).learn (represents.tie pending)

theorem Faithful.kept_capture (faithful : Faithful h l) {entry : Nat} {env : Env} :
    Kept h l (.capture entry env) ((Call.capture entry env).perform h) := by
  rw [Kept, Call.perform, ends_bind, ends_capture]
  refine ⟨fun room => ?_, fun full => ⟨faithful, rfl, Nat.lt_succ_of_le full⟩⟩
  exact (faithful.append #[.closure ⟨entry, env⟩] room).withClosure (.plain entry env)
    (getElem?_append_new _ 0)

/-- The environment of a recursive closure lists the closure itself first. If only one cell is free,
no handle leads to the pending cell that is left. -/
theorem Faithful.kept_captureRec (faithful : Faithful h l) {entry : Nat} {env : Env}
    (known : l.KnowsEnv env) :
    Kept h l (.captureRec entry env) ((Call.captureRec entry env).perform h) := by
  rw [Kept, Call.perform, ends_bind, ends_captureRec]
  have represents := faithful.envs _ (Ledger.mem_envs known)
  refine ⟨fun room => ?_, fun one => ⟨faithful.append _ ?_, rfl, ?_⟩,
    fun full => ⟨faithful, rfl, ?_⟩⟩
  · let cells : Array Cell := #[.binding (.closure (h.size + 1)) env, .closure ⟨entry, some h.size⟩]
    exact (faithful.append cells room).withClosure (.recursive entry _)
      ⟨some h.size, getElem?_append_new _ 1, represents.link_new rfl nofun⟩
  · exact Nat.le_of_eq one
  · exact one ▸ Nat.lt_succ_self _
  · exact Nat.lt_of_le_of_lt full (Nat.lt_add_of_pos_right (Nat.zero_lt_succ 1))

theorem Holds.closure {cell : CellId} {made : Made} (holds : Holds h tied cell made) :
    ∃ closure, h.closure cell = .ok closure := by
  cases made with
  | plain entry env => exact ⟨_, by rw [Heap.closure, holds]⟩
  | recursive entry list =>
    obtain ⟨env, found, -⟩ := holds
    exact ⟨_, by rw [Heap.closure, found]⟩

theorem Faithful.kept_inspect (faithful : Faithful h l) {cell : CellId}
    (known : l.KnowsClosure cell) : Kept h l (.inspect cell) ((Call.inspect cell).perform h) := by
  obtain ⟨made, mem⟩ : ∃ made, (cell, made) ∈ l.closures := by
    simpa [Ledger.KnowsClosure] using known
  obtain ⟨closure, opened⟩ := (faithful.closures _ mem).closure
  simp only [Kept, Call.perform, ends_bind, ends_get, check_of_ok opened, ends_ok, ends_pure,
    Ledger.note]
  split
  · -- the list is that of the same closure, whichever entry of the ledger is taken
    rename_i entry list found
    obtain ⟨before, after, parts, -⟩ := List.lookup_eq_some_iff.1 found
    have mem' : (cell, Made.recursive entry list) ∈ l.closures := parts ▸ List.mem_append_cons_self
    obtain ⟨env, held, represents⟩ := faithful.closures _ mem'
    rw [Heap.closure, held] at opened
    cases opened
    exact faithful.learn represents
  · exact faithful

theorem Faithful.kept (faithful : Faithful h l) {call : Call} (allowed : l.Allows call) :
    Kept h l call (call.perform h) := by
  cases call with
  | extend value env => exact faithful.kept_extend allowed.2
  | reserve env => exact faithful.kept_reserve allowed
  | tie slot closure => exact faithful.kept_tie allowed.1.1 allowed.1.2
  | capture entry env => exact faithful.kept_capture
  | captureRec entry env => exact faithful.kept_captureRec allowed
  | inspect closure => exact faithful.kept_inspect allowed

namespace Session

variable {s : Session} {calls : List Call}

theorem faithful_start (capacity : Nat) :
    Faithful (start capacity).heap (start capacity).ledger where
  room := Nat.zero_le capacity
  envs := by
    rintro _ (_ | ⟨_, ⟨⟩⟩)
    exact .nil
  closures := List.forall_mem_nil _
  distinct := List.nodup_nil
  inside := List.forall_mem_nil _
  named := List.forall_mem_nil _
  reserved := List.forall_mem_nil _
  pending := List.forall_mem_nil _

/-- An allowed call keeps the ledger true, however it ends. -/
theorem faithful_after (faithful : Faithful s.heap s.ledger) {call : Call}
    (allowed : s.ledger.Allows call) : Faithful (s.after call).heap (s.after call).ledger := by
  have kept := faithful.kept allowed
  unfold after
  cases ended : call.perform s.heap with
  | ok handle heap =>
    rw [ended] at kept
    exact kept
  | error fault heap =>
    rw [ended] at kept
    exact kept.1

theorem faithful_foldl (faithful : Faithful s.heap s.ledger) (allowed : s.Allows calls) :
    Faithful (calls.foldl after s).heap (calls.foldl after s).ledger := by
  induction calls generalizing s with
  | nil => exact faithful
  | cons call calls ih => exact ih (faithful_after faithful allowed.1) allowed.2

/-- Whatever calls are made, each with handles from the calls before it, every environment ever
given out reads as its list with the slots that are filled by then, and every closure is what it was
made with. -/
theorem truthful_of_allows {capacity : Nat} (allowed : (start capacity).Allows calls) :
    (calls.foldl after (start capacity)).Truthful := by
  have faithful := faithful_foldl (faithful_start capacity) allowed
  refine ⟨fun env list mem => ?_, fun cell entry env mem => ?_, fun cell entry list mem => ?_,
    faithful.distinct, faithful.room, fun call allows => ?_⟩
  · exact (faithful.envs _ mem).reads
  · have held := faithful.closures _ mem
    rw [Heap.closure, held]
  · obtain ⟨env, found, represents⟩ := faithful.closures _ mem
    exact ⟨env, by rw [Heap.closure, found], represents.reads⟩
  · have kept := faithful.kept allows
    cases ended : call.perform (calls.foldl after (start capacity)).heap with
    | ok handle heap => exact .inl ⟨handle, heap, rfl⟩
    | error fault heap =>
      rw [ended] at kept
      obtain ⟨-, rfl, short⟩ := kept
      exact .inr ⟨heap, rfl, short⟩

/-- A list that was made before its slot is filled, a closure that sees itself, and a last call that
finds a single free cell where it takes two. -/
theorem truthful_of_late_tie :
    let calls : List Call := [.reserve none, .extend (.int 5) (some 0), .capture 7 (some 1),
      .tie 0 2, .captureRec 3 (some 1), .inspect 4, .captureRec 9 none]
    (start 6).Allows calls ∧ (calls.foldl after (start 6)).Truthful ∧
      (calls.foldl after (start 6)).ledger.envs.head? =
        some (some 3, [.value (.closure 4), .value (.int 5), .slot 0]) ∧
      (calls.foldl after (start 6)).heap.lookup 2 (some 3) = .ok (.closure 2) := by
  intro calls
  have allowed : (start 6).Allows calls := by decide +kernel
  exact ⟨allowed, truthful_of_allows allowed, by decide +kernel, by decide +kernel⟩

end Session

end Secd.Heap
