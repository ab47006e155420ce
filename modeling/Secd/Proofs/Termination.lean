import Mathlib.Algebra.Order.Ring.Nat
import Secd.Proofs.Steps

/-!
How long a run can last. The potential of a machine bounds the number of its steps from above, and
at the start it is a numeral of a single digit, what lies ahead of address 0, at the place that the
capacity of the dump allows. With `L` words of code and room for `c - 1` frames this is

      (L + 1) * (L + 2) ^ (c - 1)  <  (L + 2) ^ c

so the last step comes after at most `(L + 2) ^ c` of them. A dump of capacity 0 holds as little as
one of capacity 1.
-/

namespace Secd.Machine

variable {code : Code} {m : Machine}

/-- The run of the machine is over after `k` steps, or fewer. -/
def RunsWithin (code : Code) (k : Nat) (m : Machine) : Prop :=
  (∃ value m', advance code k m = .ok (some value) m' ∧ run code m = .ok value m') ∨
    ∃ trap m', advance code k m = .error trap m' ∧ run code m = .error trap m'

theorem RunsWithin.succ {k : Nat} {m' : Machine} (hstep : step code m = .ok none m')
    (rest : RunsWithin code k m') : RunsWithin code (k + 1) m := by
  unfold RunsWithin
  rw [advance_succ_of_none hstep, run_eq, hstep]
  exact rest

/-- One step more than the potential is enough. -/
theorem exists_runsWithin (code : Code) (m : Machine) :
    ∃ k ≤ potential code m + 1, RunsWithin code k m := by
  induction h : potential code m using Nat.strong_induction_on generalizing m with
  | _ p ih =>
    rcases hstep : step code m with ⟨_ | value, m'⟩ | ⟨trap, m'⟩
    · have less := potential_lt_of_step hstep
      obtain ⟨k, le, rest⟩ := ih _ (h ▸ less) m' rfl
      exact ⟨k + 1, by omega, rest.succ hstep⟩
    · refine ⟨1, by omega, .inl ⟨value, m', advance_succ_of_some hstep 0, ?_⟩⟩
      rw [run_eq, hstep]
    · refine ⟨1, by omega, .inr ⟨trap, m', advance_succ_of_error hstep 0, ?_⟩⟩
      rw [run_eq, hstep]

theorem place_eq_pow (code : Code) (room : Nat) : place code room = (code.size + 2) ^ room := by
  induction room with
  | zero => rfl
  | succ room ih => rw [place, ih, pow_succ, Nat.mul_comm]

/-- At the start only the program counter has a digit. -/
theorem potential_fresh (code : Code) (caps : Capacities) :
    potential code (fresh caps) = (code.size + 1) * (code.size + 2) ^ (caps.dump - 1) := by
  simp [potential, fresh, framesAhead, ahead, Stack.height, place_eq_pow]

/-- Every run ends, by HALT or by a trap, within a number of steps that only the length of the code
and the capacity of the dump decide. -/
theorem runsWithin_of_load {words : Array Word} {caps : Capacities}
    (loaded : load? words caps = .ok (code, m)) :
    ∃ k ≤ (words.size + 2) ^ max caps.dump 1, RunsWithin code k m := by
  obtain ⟨rfl, rfl⟩ := load?_eq_ok loaded
  obtain ⟨k, le, ends⟩ := exists_runsWithin ⟨caps.code, words⟩ (fresh caps)
  refine ⟨k, le.trans ?_, ends⟩
  rw [potential_fresh, Code.size]
  have room : max caps.dump 1 = caps.dump - 1 + 1 := by omega
  have pos : 0 < (words.size + 2) ^ (caps.dump - 1) := Nat.pow_pos (Nat.succ_pos _)
  calc (words.size + 1) * (words.size + 2) ^ (caps.dump - 1) + 1
      ≤ (words.size + 1) * (words.size + 2) ^ (caps.dump - 1) +
          (words.size + 2) ^ (caps.dump - 1) := Nat.add_le_add_left pos _
    _ = (words.size + 2) ^ max caps.dump 1 := by
        rw [room, pow_succ, ← Nat.succ_mul, Nat.mul_comm]

/-- A function that calls itself for ever is stopped by a dump of capacity 3. -/
theorem runsWithin_of_endless_recursion :
    ∃ code m, load? #[8, 5, 1, 0, 9, 2, 1, 2, 0, 9] { dump := 3 } = .ok (code, m) ∧
      ∃ k ≤ 12 ^ 3, RunsWithin code k m := by
  have loaded : load? #[8, 5, 1, 0, 9, 2, 1, 2, 0, 9] { dump := 3 } =
    .ok (⟨65536, #[8, 5, 1, 0, 9, 2, 1, 2, 0, 9]⟩, fresh { dump := 3 }) := rfl
  exact ⟨_, _, loaded, runsWithin_of_load loaded⟩

end Secd.Machine
