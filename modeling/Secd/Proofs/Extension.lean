import Secd.Proofs.Composition
import Secd.Proofs.Steps

/-!
Code that is appended does not change a run that stays inside the code before it. Two parts of an
instruction look at the length of the code, the fetch of a word and the check of an address, and
both only ask whether an address lies in it:

      address       0 ────────────── size ────────────── size'
      code          a word           outside             outside
      longer code   the same word    some word           outside

Where the shorter code has a word, the longer one has the same word. Where it has none, the
instruction fails with an address outside the code. So over both an instruction ends alike, unless
it fails in just this way over the shorter one, and a run is followed instruction by instruction.
-/

namespace Secd

open Effect

/-- The fault is an address outside the code. -/
def Fault.IsOutOfCode : Fault → Prop
  | .outOfCode _ _ => True
  | _ => False

/-- The code begins with the words of the other. -/
def Code.Extends (code' code : Code) : Prop := ∃ words, code'.words = code.words ++ words

/-- Two computations leave the same and end alike, but for faults outside the code in the first. -/
def AlikeInside {ε α σ : Type} (faultOf : ε → Fault) :
    EStateM.Result ε σ α → EStateM.Result ε σ α → Prop :=
  Matching (fun e => (faultOf e).IsOutOfCode) (fun x s y t => x = y ∧ s = t) Eq

theorem alike_refl {ε α σ : Type} {faultOf : ε → Fault} (r : EStateM.Result ε σ α) :
    AlikeInside faultOf r r := by
  cases r with
  | ok x s => exact .ok ⟨rfl, rfl⟩
  | error e s => exact .error rfl

/-- Sequences end alike if their first parts do and their second parts do from the same state. -/
theorem AlikeInside.bind {ε α β σ : Type} {faultOf : ε → Fault} {a b : EStateM ε σ α}
    {f g : α → EStateM ε σ β} {s : σ} (first : AlikeInside faultOf (a s) (b s))
    (second : ∀ x t, AlikeInside faultOf (f x t) (g x t)) :
    AlikeInside faultOf ((a >>= f) s) ((b >>= g) s) :=
  Matching.bind first fun x t y u ⟨same, same'⟩ => by
    subst same same'
    exact second x t

namespace Machine

variable {code code' : Code} {m : Machine}

/-! ### What depends on the code -/

theorem alike_fetch (longer : code'.Extends code) (m : Machine) :
    AlikeInside id (fetch code m) (fetch code' m) := by
  obtain ⟨words, same⟩ := longer
  cases found : code.fetch? m.pc with
  | none =>
    rw [fetch_of_none found]
    exact .excused trivial
  | some word =>
    obtain ⟨inside, -⟩ := Array.getElem?_eq_some_iff.1 found
    have found' : code'.fetch? m.pc = some word := by
      rw [Code.fetch?, same, Array.getElem?_append_left inside]
      exact found
    rw [fetch_of_some found, fetch_of_some found']
    exact alike_refl _

theorem alike_address (longer : code'.Extends code) (target : Word) (m : Machine) :
    AlikeInside id ((check (code.address target) : Effect Machine Nat) m)
      ((check (code'.address target) : Effect Machine Nat) m) := by
  obtain ⟨words, same⟩ := longer
  have le : code.size ≤ code'.size := by
    rw [Code.size, Code.size, same, Array.size_append]
    exact Nat.le_add_right _ _
  unfold Code.address
  split
  · rename_i a index
    by_cases inside : a < code.size
    · rw [if_pos inside, if_pos (Nat.lt_of_lt_of_le inside le)]
      exact alike_refl _
    · rw [if_neg inside]
      exact .excused trivial
  · exact .excused trivial

/-! ### Instructions, steps and runs -/

/-- What is composed of parts ends alike, since the other parts do not look at the code. -/
theorem Composed.alike {α : Type} {a : Code → Effect Machine α} (composed : Composed a)
    (longer : code'.Extends code) (m : Machine) : AlikeInside id (a code m) (a code' m) := by
  induction composed generalizing m with
  | fetch => exact alike_fetch longer m
  | address target => exact alike_address longer target m
  | read _ _ ih => exact ih m m
  | bind _ _ first second => exact (first m).bind second
  | _ => exact alike_refl _

theorem alike_step (longer : code'.Extends code) (m : Machine) :
    AlikeInside Trap.fault (step code m) (step code' m) := by
  have instruction := Composed.instruction.alike longer m
  rw [step_eq, step_eq]
  generalize (decode code >>= exec code) m = r at instruction
  generalize (decode code' >>= exec code') m = r' at instruction
  cases instruction with
  | ok good => exact .ok good
  | error bad => exact .error bad
  | excused excuse => exact .excused excuse

/-- A step that does not leave the code is the same step over longer code. -/
theorem step_eq_of_extends (longer : code'.Extends code)
    (inside : ∀ trap m', step code m = .error trap m' → ¬ trap.fault.IsOutOfCode) :
    step code' m = step code m := by
  have alike := alike_step longer m
  generalize step code m = r at alike inside ⊢
  generalize step code' m = r' at alike ⊢
  cases alike with
  | ok good => rw [good.1, good.2]
  | error bad => rw [bad]
  | excused excuse => exact absurd excuse (inside _ _ rfl)

/-- A run that does not leave the code is the same run over longer code, step by step. -/
theorem run_eq_of_extends (longer : code'.Extends code)
    (inside : ∀ trap m', run code m = .error trap m' → ¬ trap.fault.IsOutOfCode) :
    (∀ k, advance code' k m = advance code k m) ∧ run code' m = run code m := by
  rw [run_eq code']
  fun_induction run code m with
  | case1 m value m' stepped =>
    have same : step code' m = .ok (some value) m' := by
      rw [step_eq_of_extends longer (by simp [stepped]), stepped]
    refine ⟨fun k => ?_, by rw [same]⟩
    cases k with
    | zero => rfl
    | succ k => rw [advance_succ_of_some same, advance_succ_of_some stepped]
  | case2 m m' stepped ih =>
    have same : step code' m = .ok none m' := by
      rw [step_eq_of_extends longer (by simp [stepped]), stepped]
    obtain ⟨steps, rest⟩ := ih inside
    refine ⟨fun k => ?_, by rw [same, ← rest, ← run_eq]⟩
    cases k with
    | zero => rfl
    | succ k => rw [advance_succ_of_none same, advance_succ_of_none stepped, steps]
  | case3 m trap m' stepped =>
    have same : step code' m = .error trap m' := by
      rw [step_eq_of_extends longer fun trap' t failed => ?_, stepped]
      rw [stepped] at failed
      cases failed
      exact inside trap m' rfl
    refine ⟨fun k => ?_, by rw [same]⟩
    cases k with
    | zero => rfl
    | succ k => rw [advance_succ_of_error same, advance_succ_of_error stepped]

/-- Loading the same words with others behind them gives a machine that passes through the same
states and ends in the same way, if the run of the first does not end outside its code. -/
theorem run_append {words more : Array Word} {caps : Capacities} {m' : Machine}
    (loaded : load? words caps = .ok (code, m))
    (loaded' : load? (words ++ more) caps = .ok (code', m'))
    (inside : ∀ trap t, run code m = .error trap t →
      ∀ address length, trap.fault ≠ .outOfCode address length) :
    m' = m ∧ (∀ k, advance code' k m' = advance code k m) ∧ run code' m' = run code m := by
  obtain ⟨rfl, rfl⟩ := load?_eq_ok loaded
  obtain ⟨rfl, rfl⟩ := load?_eq_ok loaded'
  refine ⟨rfl, run_eq_of_extends ⟨more, rfl⟩ fun trap t failed isOutside => ?_⟩
  have differs := inside trap t failed
  cases fault : trap.fault with
  | outOfCode address length => exact differs address length fault
  | _ => simp [fault, Fault.IsOutOfCode] at isOutside

/-- A call that ends at the last word, which is no opcode. The words behind it, two instructions and
then a HALT, are never reached. -/
theorem run_append_of_unknown_opcode :
    ∃ code m code' m', load? #[7, 5, 1, 7, 9, 2, 0, 99] {} = .ok (code, m) ∧
      load? (#[7, 5, 1, 7, 9, 2, 0, 99] ++ #[10, 0]) {} = .ok (code', m') ∧
      (∃ t, run code m = .error ⟨7, .badOpcode 99⟩ t) ∧
      m' = m ∧ (∀ k, advance code' k m' = advance code k m) ∧ run code' m' = run code m := by
  have loaded : load? #[7, 5, 1, 7, 9, 2, 0, 99] {} =
    .ok (⟨65536, #[7, 5, 1, 7, 9, 2, 0, 99]⟩, fresh {}) := rfl
  have loaded' : load? (#[7, 5, 1, 7, 9, 2, 0, 99] ++ #[10, 0]) {} =
    .ok (⟨65536, #[7, 5, 1, 7, 9, 2, 0, 99, 10, 0]⟩, fresh {}) := rfl
  obtain ⟨t, stops⟩ : ∃ t, run ⟨65536, #[7, 5, 1, 7, 9, 2, 0, 99]⟩ (fresh {}) =
      .error ⟨7, .badOpcode 99⟩ t := exists_run_eq_error 5 (by decide +kernel)
  refine ⟨_, _, _, _, loaded, loaded', ⟨t, stops⟩, run_append loaded loaded' ?_⟩
  rintro trap t' failed address length
  rw [stops] at failed
  cases failed
  exact nofun

end Machine

end Secd
