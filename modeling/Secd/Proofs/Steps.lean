import Mathlib.Logic.Function.Iterate
import Secd.Machine.Run
import Secd.Machine.Parts

/-!
Steps in a row, in the two ways a machine can be driven. `advance` takes steps up to the first HALT
or trap, as a run does. `next` takes a step and looks only at the machine it leaves, so that its
iterates go past HALT and past any number of traps, through whatever a failed instruction left
half done.

      advance k    step ─ step ─ … ─ step        stops early at HALT or a trap
      next^[n]     step ─ trap ─ step ─ trap ─   never stops
-/

namespace Secd.Machine

open Effect

variable {code : Code} {m : Machine}

/-- Takes `k` steps, or fewer up to HALT or a trap. -/
def advance (code : Code) : Nat → EStateM Trap Machine (Option Value)
  | 0 => pure none
  | k + 1 => do
    match ← step code with
    | some value => return some value
    | none => advance code k

/-- The machine that a step leaves behind, however it ends. -/
def next (code : Code) (m : Machine) : Machine :=
  match step code m with
  | .ok _ m' => m'
  | .error _ m' => m'

/-- The machine that a run starts from. -/
def fresh (caps : Capacities) : Machine where
  pc := 0
  env := none
  stack := ⟨.stack, caps.stack, #[], 0⟩
  dump := ⟨.dump, caps.dump, #[], 0⟩
  heap := ⟨caps.heap, #[]⟩
  steps := 0

theorem init?_eq_ok {caps : Capacities} (started : init? caps = .ok m) : m = fresh caps := by
  obtain ⟨stack, hstack, hm⟩ := exists_ok_of_bind started
  obtain ⟨dump, hdump, hm⟩ := exists_ok_of_bind hm
  obtain ⟨heap, hheap, hm⟩ := exists_ok_of_bind hm
  obtain ⟨-, -, hstack⟩ := exists_ok_of_bind hstack
  obtain ⟨-, -, hdump⟩ := exists_ok_of_bind hdump
  obtain ⟨-, -, hheap⟩ := exists_ok_of_bind hheap
  cases hstack; cases hdump; cases hheap; cases hm
  rfl

/-- Loading only checks sizes: the words become the code, beside a fresh machine. -/
theorem load?_eq_ok {words : Array Word} {caps : Capacities}
    (loaded : load? words caps = .ok (code, m)) :
    code = ⟨caps.code, words⟩ ∧ m = fresh caps := by
  obtain ⟨code', hcode, loaded⟩ := exists_ok_of_bind loaded
  obtain ⟨m', hm, loaded⟩ := exists_ok_of_bind loaded
  cases loaded
  refine ⟨?_, init?_eq_ok hm⟩
  unfold Code.ofWords? at hcode
  split at hcode
  · cases hcode
  · obtain ⟨-, -, hcode⟩ := exists_ok_of_bind hcode
    cases hcode
    rfl

/-! ### Up to the end -/

theorem advance_succ_of_none {m' : Machine} (h : step code m = .ok none m') (k : Nat) :
    advance code (k + 1) m = advance code k m' := by
  change EStateM.bind (step code) _ m = _
  simp only [EStateM.bind, h]

theorem advance_succ_of_some {value : Value} {m' : Machine}
    (h : step code m = .ok (some value) m') (k : Nat) :
    advance code (k + 1) m = .ok (some value) m' := by
  change EStateM.bind (step code) _ m = _
  simp only [EStateM.bind, h]
  rfl

theorem advance_succ_of_error {trap : Trap} {m' : Machine} (h : step code m = .error trap m')
    (k : Nat) : advance code (k + 1) m = .error trap m' := by
  change EStateM.bind (step code) _ m = _
  simp only [EStateM.bind, h]

/-- Steps that did not end the run can be followed by more of them. -/
theorem advance_add {j : Nat} {m' : Machine} (h : advance code j m = .ok none m') (k : Nat) :
    advance code (j + k) m = advance code k m' := by
  induction j generalizing m with
  | zero =>
    cases h
    rw [Nat.zero_add]
  | succ j ih =>
    rw [Nat.add_right_comm]
    rcases hstep : step code m with ⟨_ | value, m₁⟩ | ⟨trap, m₁⟩
    · rw [advance_succ_of_none hstep] at h ⊢
      exact ih h
    · rw [advance_succ_of_some hstep] at h
      cases h
    · rw [advance_succ_of_error hstep] at h
      cases h

/-- A run ends as its first steps do, or goes on where they lead. -/
theorem run_eq_advance (k : Nat) :
    run code m = match advance code k m with
      | .ok (some value) m' => .ok value m'
      | .ok none m' => run code m'
      | .error trap m' => .error trap m' := by
  induction k generalizing m with
  | zero => rfl
  | succ k ih =>
    rw [run_eq]
    rcases hstep : step code m with ⟨_ | value, m'⟩ | ⟨trap, m'⟩
    · rw [advance_succ_of_none hstep]
      exact ih
    · rw [advance_succ_of_some hstep]
    · rw [advance_succ_of_error hstep]

theorem exists_run_eq_error {trap : Trap} (k : Nat)
    (ends : Ends (fun _ _ => False) (fun trap' _ => trap' = trap) (advance code k m)) :
    ∃ m', run code m = .error trap m' := by
  obtain ⟨m', advanced⟩ := eq_error_of_ends ends
  exact ⟨m', by rw [run_eq_advance k, advanced]⟩

/-! ### Past every end -/

theorem next_of_ends {I : Machine → Prop}
    (h : Ends (fun _ m' => I m') (fun _ m' => I m') (step code m)) : I (next code m) := by
  unfold next
  cases hstep : step code m with
  | ok x m' => rw [hstep] at h; exact h
  | error trap m' => rw [hstep] at h; exact h

/-- What every step keeps, however it ends, holds of the machine after any number of steps. -/
theorem iterate_next {I : Machine → Prop}
    (kept : ∀ m, I m → Ends (fun _ m' => I m') (fun _ m' => I m') (step code m)) (n : Nat)
    (start : I m) : I ((next code)^[n] m) := by
  induction n with
  | zero => exact start
  | succ n ih =>
    rw [Function.iterate_succ_apply']
    exact next_of_ends (kept _ ih)

end Secd.Machine
