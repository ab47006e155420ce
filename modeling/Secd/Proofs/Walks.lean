import Mathlib.Data.Fintype.Pigeonhole
import Secd.Heap.Chain

/-!
Chains of any kind. A handle may have been given out by another heap, and then its chain can run
into a closure, to a cell that does not exist, or back into itself. Looking up a binding and
counting the links are two loops, and each has its own way to follow the chain and its own way to
stop. Still they take the same walk, and one tells how the other ends:

      the walk from env                   count        binding i < d        binding i ≥ d
      d links, then no cell               d            value or untied      unbound i d
      d links, then a cell that is none   fault        value or untied      the same fault
      never ends                          never ends   value or untied

A walk that ends meets no cell twice, so it has at most as many links as the heap has cells.
-/

namespace Secd.Heap

variable {h : Heap} {env env' : Env} {links : Nat} {answer : Except Fault Nat}

/-! ### Loops and how they end -/

/-- Looking up a binding as a loop, for at most so many rounds. The loop has no bound of its own: it
counts links until the count is the index. -/
def lookupWithin (h : Heap) (index : Nat) :
    (rounds depth : Nat) → Env → Option (Except Fault Value)
  | 0, _, _ => none
  | _ + 1, depth, none => some (.error (.unbound index depth))
  | rounds + 1, depth, some cell =>
    match h.link cell with
    | .error fault => some (.error fault)
    | .ok link =>
      if depth = index then
        match link.head with
        | some value => some (.ok value)
        | none => some (.error (.untied index))
      else
        lookupWithin h index rounds (depth + 1) link.tail

/-- Counting the links of a chain visits so many of them and gives its answer in the next round. -/
def CountsTo (h : Heap) (env : Env) (links : Nat) (answer : Except Fault Nat) : Prop :=
  h.depthFrom links 0 env = none ∧ h.depthFrom (links + 1) 0 env = some answer

/-- There is a binding with the index, though its value may still be to come. -/
def Bound (h : Heap) (env : Env) (index : Nat) : Prop :=
  (∃ value, h.lookup index env = .ok value) ∨ h.lookup index env = .error (.untied index)

/-- Counting the links of an environment and looking up its bindings fit together. -/
structure Agrees (h : Heap) (env : Env) : Prop where
  /-- Looking up a binding ends, in the round after that of the index at the latest. -/
  lookup_ends : ∀ index rounds, index < rounds →
    h.lookupWithin index rounds 0 env = some (h.lookup index env)
  /-- Counting ends within one round more than there are cells, or never. -/
  depth_ends : ∀ answer, (∃ rounds, h.depthFrom rounds 0 env = some answer) ↔
    h.depthFrom (h.size + 1) 0 env = some answer
  whole : ∀ d, h.depth env = some (.ok d) → h.CountsTo env d (.ok d) ∧
    (∀ index < d, h.Bound env index) ∧
    ∀ index, d ≤ index → h.lookup index env = .error (.unbound index d)
  broken : ∀ fault, h.depth env = some (.error fault) → ∃ d, h.CountsTo env d (.error fault) ∧
    (∀ index < d, h.Bound env index) ∧ ∀ index, d ≤ index → h.lookup index env = .error fault
  endless : (∀ rounds, h.depthFrom rounds 0 env = none) → ∀ index, h.Bound env index

/-! ### Walks -/

/-- Where the walk from an environment is after so many links, unless it has ended before. -/
def walk (h : Heap) : (links : Nat) → Env → Option Env
  | 0, env => some env
  | _ + 1, none => none
  | links + 1, some cell =>
    match h.link cell with
    | .ok link => walk h links link.tail
    | .error _ => none

theorem walk_succ_eq_some_iff :
    h.walk (links + 1) env = some env' ↔
      ∃ cell link, env = some cell ∧ h.link cell = .ok link ∧
        h.walk links link.tail = some env' := by
  cases env with
  | none => simp [walk]
  | some cell =>
    simp only [walk, Option.some.injEq]
    cases linked : h.link cell <;> simp [linked]

theorem walk_add (first second : Nat) (env : Env) :
    h.walk (first + second) env = (h.walk first env).bind (h.walk second) := by
  induction first generalizing env with
  | zero =>
    rw [Nat.zero_add]
    rfl
  | succ first ih =>
    rw [Nat.succ_add]
    cases env with
    | none => rfl
    | some cell =>
      simp only [walk]
      cases h.link cell with
      | error fault => rfl
      | ok link => exact ih link.tail

/-- Before its end a walk is at a link. -/
theorem exists_link_of_walk {earlier : Nat} (walked : h.walk links env = some env')
    (before : earlier < links) :
    ∃ cell link, h.walk earlier env = some (some cell) ∧ h.link cell = .ok link := by
  obtain ⟨more, rfl⟩ := Nat.exists_eq_add_of_lt before
  rw [Nat.add_assoc, walk_add, Option.bind_eq_some_iff] at walked
  obtain ⟨here, arrived, onward⟩ := walked
  obtain ⟨cell, link, rfl, linked, -⟩ := walk_succ_eq_some_iff.1 onward
  exact ⟨cell, link, arrived, linked⟩

theorem lt_size_of_link {cell : CellId} {link : Link} (linked : h.link cell = .ok link) :
    cell < h.size := by
  rw [← Nat.not_le]
  intro outside
  rw [Heap.link, Array.getElem?_eq_none outside] at linked
  cases linked

/-- A walk that ends does not come back to a cell: from there it would go on as it did before, and
so it would have ended earlier. -/
theorem walk_ne_of_lt {cell : CellId} {i j : Nat} (walked : h.walk links env = some env')
    (ended : ∀ last ∈ env', ∀ link, h.link last ≠ .ok link) (first : i < j) (before : j ≤ links)
    (there : h.walk i env = some (some cell)) : h.walk j env ≠ some (some cell) := by
  intro again
  have rest : h.walk (links - j) (some cell) = some env' := by
    rw [← Nat.add_sub_cancel' before, walk_add, again] at walked
    exact walked
  have early : h.walk (i + (links - j)) env = some env' := by
    rw [walk_add, there]
    exact rest
  obtain ⟨last, link, arrived, linked⟩ :=
    exists_link_of_walk walked (show i + (links - j) < links by omega)
  rw [early, Option.some.injEq] at arrived
  exact ended last arrived link linked

/-- A walk that ends visits no more cells than there are. -/
theorem links_le_size (walked : h.walk links env = some env')
    (ended : ∀ cell ∈ env', ∀ link, h.link cell ≠ .ok link) : links ≤ h.size := by
  rw [← Nat.not_lt]
  intro longer
  have visited (n : Fin (h.size + 1)) :
      ∃ cell, h.walk n env = some (some cell) ∧ cell < h.size := by
    obtain ⟨cell, link, arrived, linked⟩ :=
      exists_link_of_walk walked (Nat.lt_of_lt_of_le n.isLt longer)
    exact ⟨cell, arrived, lt_size_of_link linked⟩
  choose cell arrived inside using visited
  have before (n : Fin (h.size + 1)) : (n : Nat) ≤ links :=
    Nat.le_trans (Nat.le_of_lt_succ n.isLt) (Nat.le_of_lt longer)
  -- more visits than cells: some cell is visited twice
  obtain ⟨i, j, distinct, same⟩ := Fintype.exists_ne_map_eq_of_card_lt
    (fun n => (⟨cell n, inside n⟩ : Fin h.size)) (by simp)
  have again : cell i = cell j := congrArg Fin.val same
  rcases lt_or_gt_of_ne distinct with first | first
  · exact walk_ne_of_lt walked ended first (before j) (arrived i) (again ▸ arrived j)
  · exact walk_ne_of_lt walked ended first (before i) (arrived j) (again ▸ arrived i)

/-! ### Both loops follow the walk -/

theorem lookupFrom_of_walk {index : Nat} (walked : h.walk links env = some env')
    (more depth : Nat) :
    h.lookupFrom index (links + more) depth env =
      h.lookupFrom index more (depth + links) env' := by
  induction links generalizing env depth with
  | zero =>
    cases walked
    rw [Nat.zero_add, Nat.add_zero]
  | succ links ih =>
    obtain ⟨cell, link, rfl, linked, onward⟩ := walk_succ_eq_some_iff.1 walked
    rw [Nat.succ_add, lookupFrom, linked]
    simp only
    rw [ih onward, Nat.add_assoc, Nat.add_comm 1]

theorem depthFrom_of_walk (walked : h.walk links env = some env') (rounds depth : Nat) :
    h.depthFrom (links + rounds) depth env = h.depthFrom rounds (depth + links) env' := by
  induction links generalizing env depth with
  | zero =>
    cases walked
    rw [Nat.zero_add, Nat.add_zero]
  | succ links ih =>
    obtain ⟨cell, link, rfl, linked, onward⟩ := walk_succ_eq_some_iff.1 walked
    rw [Nat.succ_add, depthFrom, linked]
    simp only
    rw [ih onward, Nat.add_assoc, Nat.add_comm 1]

/-- A count that ends has walked to the place where it does. -/
theorem exists_walk_of_depthFrom {rounds depth : Nat}
    (counted : h.depthFrom rounds depth env = some answer) :
    ∃ links env', h.walk links env = some env' ∧
      h.depthFrom 1 (depth + links) env' = some answer := by
  induction rounds generalizing depth env with
  | zero => cases counted
  | succ rounds ih =>
    cases env with
    | none => exact ⟨0, none, rfl, counted⟩
    | some cell =>
      simp only [depthFrom] at counted
      cases linked : h.link cell with
      | error fault =>
        rw [linked] at counted
        exact ⟨0, some cell, rfl, by rw [depthFrom, linked]; exact counted⟩
      | ok link =>
        rw [linked] at counted
        obtain ⟨links, env', walked, last⟩ := ih counted
        refine ⟨links + 1, env', walk_succ_eq_some_iff.2 ⟨cell, link, rfl, linked, walked⟩, ?_⟩
        rwa [Nat.add_assoc, Nat.add_comm 1] at last

/-- A count that has not ended has walked on. -/
theorem exists_link_of_depthFrom {links depth : Nat}
    (unfinished : h.depthFrom (links + 1) depth env = none) :
    ∃ cell link, h.walk links env = some (some cell) ∧ h.link cell = .ok link := by
  induction links generalizing depth env with
  | zero =>
    cases env with
    | none => cases unfinished
    | some cell =>
      simp only [depthFrom] at unfinished
      cases linked : h.link cell with
      | error fault =>
        rw [linked] at unfinished
        cases unfinished
      | ok link => exact ⟨cell, link, rfl, linked⟩
  | succ links ih =>
    cases env with
    | none => cases unfinished
    | some cell =>
      rw [depthFrom] at unfinished
      cases linked : h.link cell with
      | error fault =>
        rw [linked] at unfinished
        cases unfinished
      | ok link =>
        rw [linked] at unfinished
        obtain ⟨last, link', walked, linked'⟩ := ih unfinished
        refine ⟨last, link', ?_, linked'⟩
        exact walk_succ_eq_some_iff.2 ⟨cell, link, rfl, linked, walked⟩

/-- A walk at a link has found the binding of that number. -/
theorem bound_of_walk {index : Nat} {cell : CellId} {link : Link}
    (walked : h.walk index env = some (some cell)) (linked : h.link cell = .ok link) :
    h.Bound env index := by
  have found : h.lookup index env = h.lookupFrom index 0 (0 + index) (some cell) :=
    lookupFrom_of_walk walked 0 0
  rw [lookupFrom, linked] at found
  obtain ⟨head, tail⟩ := link
  cases head with
  | some value => exact .inl ⟨value, found⟩
  | none => exact .inr found

/-- The place where a walk ends answers every look-up that does not stop before it. -/
theorem lookup_of_walk (walked : h.walk links env = some env') {index : Nat}
    (behind : links ≤ index) :
    h.lookup index env = h.lookupFrom index (index - links) links env' := by
  have found : h.lookupFrom index (links + (index - links)) 0 env =
      h.lookupFrom index (index - links) (0 + links) env' :=
    lookupFrom_of_walk walked (index - links) 0
  rw [Nat.add_sub_cancel' behind, Nat.zero_add] at found
  exact found

/-! ### Both loops end -/

theorem lookupWithin_eq (h : Heap) (more depth : Nat) (env : Env) (rounds : Nat)
    (enough : more < rounds) :
    h.lookupWithin (depth + more) rounds depth env =
      some (h.lookupFrom (depth + more) more depth env) := by
  induction more generalizing depth env rounds with
  | zero =>
    obtain ⟨rounds, rfl⟩ := Nat.exists_eq_succ_of_ne_zero (Nat.ne_of_gt enough)
    cases env with
    | none => rfl
    | some cell =>
      rw [lookupWithin, lookupFrom]
      cases h.link cell with
      | error fault => rfl
      | ok link =>
        obtain ⟨head, tail⟩ := link
        simp only [Nat.add_zero, if_true]
        cases head <;> rfl
  | succ more ih =>
    obtain ⟨rounds, rfl⟩ := Nat.exists_eq_succ_of_ne_zero (Nat.ne_of_gt (Nat.zero_lt_of_lt enough))
    cases env with
    | none => rfl
    | some cell =>
      rw [lookupWithin, lookupFrom]
      cases h.link cell with
      | error fault => rfl
      | ok link =>
        have other : depth ≠ depth + (more + 1) := by omega
        simp only [if_neg other]
        rw [← Nat.add_assoc, Nat.add_right_comm]
        exact ih (depth + 1) link.tail rounds (Nat.lt_of_succ_lt_succ enough)

/-- The walk from an environment ends after so many links, with this answer to the count. -/
inductive Stops (h : Heap) (env : Env) (links : Nat) : Except Fault Nat → Prop where
  | whole (walked : h.walk links env = some none) : Stops h env links (.ok links)
  | broken {cell : CellId} {fault : Fault} (walked : h.walk links env = some (some cell))
    (failed : h.link cell = .error fault) : Stops h env links (.error fault)

theorem stops_of_walk (walked : h.walk links env = some env')
    (last : h.depthFrom 1 links env' = some answer) : h.Stops env links answer := by
  cases env' with
  | none =>
    cases last
    exact .whole walked
  | some cell =>
    rw [depthFrom] at last
    cases linked : h.link cell with
    | error fault =>
      rw [linked] at last
      cases last
      exact .broken walked linked
    | ok link =>
      rw [linked] at last
      cases last

theorem Stops.exists_walk (stops : h.Stops env links answer) :
    ∃ env', h.walk links env = some env' ∧
      ∀ rounds, h.depthFrom (rounds + 1) links env' = some answer := by
  cases stops with
  | whole walked => exact ⟨none, walked, fun _ => rfl⟩
  | broken walked failed => exact ⟨_, walked, fun rounds => by rw [depthFrom, failed]⟩

theorem Stops.le_size (stops : h.Stops env links answer) : links ≤ h.size := by
  cases stops with
  | whole walked => exact links_le_size walked (by rintro cell ⟨⟩)
  | broken walked failed =>
    refine links_le_size walked ?_
    rintro cell ⟨⟩ link linked
    rw [failed] at linked
    cases linked

/-- The count ends where the walk does, after as many links. -/
theorem Stops.depthFrom (stops : h.Stops env links answer) (rounds : Nat) :
    h.depthFrom (links + (rounds + 1)) 0 env = some answer := by
  obtain ⟨env', walked, last⟩ := stops.exists_walk
  rw [depthFrom_of_walk walked, Nat.zero_add]
  exact last rounds

theorem Stops.countsTo (stops : h.Stops env links answer) : h.CountsTo env links answer := by
  obtain ⟨env', walked, -⟩ := stops.exists_walk
  exact ⟨depthFrom_of_walk walked 0 0, stops.depthFrom 0⟩

theorem Stops.bound (stops : h.Stops env links answer) {index : Nat} (before : index < links) :
    h.Bound env index := by
  obtain ⟨env', walked, -⟩ := stops.exists_walk
  obtain ⟨cell, link, arrived, linked⟩ := exists_link_of_walk walked before
  exact bound_of_walk arrived linked

/-- A count that ends at all ends within one round more than there are cells. -/
theorem exists_stops_of_depthFrom {rounds : Nat}
    (counted : h.depthFrom rounds 0 env = some answer) : ∃ links, h.Stops env links answer := by
  obtain ⟨links, env', walked, last⟩ := exists_walk_of_depthFrom counted
  rw [Nat.zero_add] at last
  exact ⟨links, stops_of_walk walked last⟩

theorem depth_eq_some_iff : h.depth env = some answer ↔ ∃ links, h.Stops env links answer := by
  refine ⟨exists_stops_of_depthFrom, ?_⟩
  rintro ⟨links, stops⟩
  have counted := stops.depthFrom (h.size - links)
  rwa [← Nat.add_assoc, Nat.add_sub_cancel' stops.le_size] at counted

/-- Whatever the cells of a heap hold and wherever an environment leads, its bindings can be looked
up, and how that ends is what counting its links says. -/
theorem lookup_agrees_depth (h : Heap) (env : Env) : h.Agrees env where
  lookup_ends := by
    intro index rounds enough
    have ended := lookupWithin_eq h index 0 env rounds enough
    rw [Nat.zero_add] at ended
    exact ended
  depth_ends := by
    intro answer
    constructor
    · rintro ⟨rounds, counted⟩
      exact depth_eq_some_iff.2 (exists_stops_of_depthFrom counted)
    · intro counted
      exact ⟨h.size + 1, counted⟩
  whole := by
    intro d counted
    obtain ⟨links, stops⟩ := depth_eq_some_iff.1 counted
    cases stops with
    | whole walked =>
      refine ⟨(Stops.whole walked).countsTo, fun index => (Stops.whole walked).bound, ?_⟩
      intro index behind
      rw [lookup_of_walk walked behind, lookupFrom]
  broken := by
    intro fault counted
    obtain ⟨d, stops⟩ := depth_eq_some_iff.1 counted
    refine ⟨d, stops.countsTo, fun index => stops.bound, ?_⟩
    intro index behind
    cases stops with
    | broken walked failed =>
      rw [lookup_of_walk walked behind]
      cases index - d <;> simp only [lookupFrom, failed]
  endless := by
    intro endless index
    obtain ⟨cell, link, arrived, linked⟩ := exists_link_of_depthFrom (endless (index + 1))
    exact bound_of_walk arrived linked

/-- A binding and a pending cell in a ring, and behind a binding a cell that does not exist. The
handle of the ring has every binding, half of them without a value; the other one has a single
binding and then leads astray for either loop. -/
theorem lookup_agrees_depth_in_ring_and_astray :
    let h : Heap :=
      ⟨4, #[.binding (.int 7) (some 1), .pending (some 0), .binding (.int 3) (some 9)]⟩
    (∀ rounds, h.depthFrom rounds 0 (some 0) = none) ∧ h.Bound (some 0) 1001 ∧
      h.lookup 1001 (some 0) = .error (.untied 1001) ∧
      h.depth (some 2) = some (.error (.dangling 9)) ∧
      ∃ d, h.CountsTo (some 2) d (.error (.dangling 9)) ∧
        ∀ index, d ≤ index → h.lookup index (some 2) = .error (.dangling 9) := by
  intro h
  have unfinished : h.depthFrom (h.size + 1) 0 (some 0) = none := by decide +kernel
  have ring (rounds : Nat) : h.depthFrom rounds 0 (some 0) = none := by
    rw [← Option.not_isSome_iff_eq_none, Option.isSome_iff_exists]
    rintro ⟨answer, counted⟩
    rw [(lookup_agrees_depth h (some 0)).depth_ends answer |>.1 ⟨rounds, counted⟩] at unfinished
    cases unfinished
  have astray : h.depth (some 2) = some (.error (.dangling 9)) := by decide +kernel
  obtain ⟨d, counts, -, behind⟩ := (lookup_agrees_depth h (some 2)).broken _ astray
  exact ⟨ring, (lookup_agrees_depth h (some 0)).endless ring 1001, by decide +kernel, astray, d,
    counts, behind⟩

end Secd.Heap
