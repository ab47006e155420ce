import Mathlib.Data.List.Forall2
import Secd.Proofs.Statistics

/-!
The log of a run replays the run. A run calls for one step after the other, up to HALT or a trap,
and its log is written beside it:

      run     m₀ ── step ── m₁ ── step ── m₂ ── … ── mₖ ── step ── HALT or trap
      log     run.start     step          step       step?         run.halt or run.trap

The event of a step shows its machine as it was before the instruction took effect. Only the last
step may go without one, if it traps before it has an instruction, and just then it is not counted.
-/

namespace Secd.Machine

open Effect
open Log (Event)

variable {code : Code} {m m' : Machine} {visited : List Machine}
  {r : EStateM.Result Trap Machine Value}

/-- A run takes its steps from these machines, one after the other, and ends so. -/
inductive Course (code : Code) :
    Machine → List Machine → EStateM.Result Trap Machine Value → Prop where
  | halt {m m' : Machine} {value : Value} (stepped : step code m = .ok (some value) m') :
      Course code m [m] (.ok value m')
  | trap {m m' : Machine} {trap : Trap} (stepped : step code m = .error trap m') :
      Course code m [m] (.error trap m')
  | onward {m m' : Machine} {visited : List Machine} {r : EStateM.Result Trap Machine Value}
      (stepped : step code m = .ok none m') (rest : Course code m' visited r) :
      Course code m (m :: visited) r

/-- The step that the machine takes next is counted. -/
def Counted (code : Code) (m : Machine) : Prop := (next code m).steps = m.steps + 1

instance : DecidablePred (Counted code) :=
  fun m => inferInstanceAs (Decidable ((next code m).steps = m.steps + 1))

/-- The event shows the instruction at which the machine stands, and how high its stacks are. -/
def Reports (code : Code) (m : Machine) (e : Event) : Prop :=
  ∃ op : Opcode, code.fetch? m.pc = some op.word ∧
    e = .step m.pc op m.stack.height m.dump.height

/-- The event tells how a run has ended, with so many steps counted. -/
def Concludes (count : Nat) : EStateM.Result Trap Machine Value → Event → Prop
  | .ok value m, e => e = .runHalt value m.stats ∧ m.stats.steps = count
  | .error trap m, e => e = .runTrap trap count ∧ m.stats.steps = count

theorem exists_course (code : Code) (m : Machine) :
    ∃ visited, Course code m visited (run code m) := by
  fun_induction run code m with
  | case1 m value m' stepped => exact ⟨[m], .halt stepped⟩
  | case2 m m' stepped ih =>
    obtain ⟨visited, rest⟩ := ih
    exact ⟨m :: visited, .onward stepped rest⟩
  | case3 m trap m' stepped => exact ⟨[m], .trap stepped⟩

theorem observe_of_found {op : Opcode} (found : code.fetch? m.pc = some op.word) :
    (observe code m).1 = some (.step m.pc op m.stack.height m.dump.height) := by
  have decodes : decode code m = .ok op m.decoded := by
    rw [decode, bind_of_ok (fetch_of_some found), Opcode.ofWord?_word]
    rfl
  simp only [observe, decodes]
  rfl

theorem observe_of_undecoded (stopped : undecoded code m = true) : (observe code m).1 = none := by
  cases decodes : decode code m with
  | error fault m' => simp only [observe, decodes]
  | ok op m' =>
    have here : Ends (fun op _ => code.fetch? m.pc = some op.word) (fun _ _ => True)
        (decode code m) :=
      ends_decode.2 ⟨fun _ found => found, fun _ _ _ => trivial, fun _ => trivial⟩
    rw [decodes] at here
    rw [undecoded_eq_false_iff.2 ⟨op, here⟩] at stopped
    cases stopped

theorem counted_iff (recorded : m.Recorded) : Counted code m ↔ undecoded code m = false := by
  rw [Counted, (counters_next recorded code).1]
  cases undecoded code m <;> simp

/-- One step has an event if it is counted, and none if it is not. -/
theorem reports_step (recorded : m.Recorded) (code : Code) :
    List.Forall₂ (Reports code) ([m].filter (Counted code ·)) (observe code m).1.toList ∧
      (next code m).steps = m.steps + (observe code m).1.toList.length := by
  have steps := (counters_next recorded code).1
  have counted : Counted code m ↔ undecoded code m = false := counted_iff recorded
  cases stopped : undecoded code m with
  | false =>
    obtain ⟨op, found⟩ := undecoded_eq_false_iff.1 stopped
    rw [stopped] at steps
    rw [observe_of_found found, List.filter_singleton, decide_eq_true (counted.2 stopped)]
    exact ⟨.cons ⟨op, found, rfl⟩ .nil, steps⟩
  | true =>
    rw [stopped] at steps counted
    rw [observe_of_undecoded stopped, List.filter_singleton, decide_eq_false (by simp [counted])]
    exact ⟨.nil, steps⟩

theorem record_all (log : Array Event) (events : List Event) :
    record (fun _ => true) log events = log ++ events := by
  rw [record, List.filter_true]

/-- The log goes on with the event of a step, and then with the end or with the steps to come. -/
theorem logSteps_eq (code : Code) (m : Machine) (log : Array Event) :
    logSteps (fun _ => true) code m log = match step code m with
      | .ok (some value) m' => log ++ ((observe code m).1.toList ++ [Event.runHalt value m'.stats])
      | .ok none m' => logSteps (fun _ => true) code m' (log ++ (observe code m).1.toList)
      | .error trap m' => log ++ ((observe code m).1.toList ++ [Event.runTrap trap m'.steps]) := by
  rw [logSteps, step]
  simp only [record_all]
  split <;> rename_i observed <;> rw [observed]

theorem logSteps_of_onward (stepped : step code m = .ok none m') (log : Array Event) :
    logSteps (fun _ => true) code m log =
      logSteps (fun _ => true) code m' (log ++ (observe code m).1.toList) := by
  rw [logSteps_eq, stepped]

theorem logSteps_of_halt {value : Value} (stepped : step code m = .ok (some value) m')
    (log : Array Event) :
    logSteps (fun _ => true) code m log =
      log ++ ((observe code m).1.toList ++ [Event.runHalt value m'.stats]) := by
  rw [logSteps_eq, stepped]

theorem logSteps_of_trap {trap : Trap} (stepped : step code m = .error trap m')
    (log : Array Event) :
    logSteps (fun _ => true) code m log =
      log ++ ((observe code m).1.toList ++ [Event.runTrap trap m'.steps]) := by
  rw [logSteps_eq, stepped]

theorem next_of_step {result : Option Value} (stepped : step code m = .ok result m') :
    next code m = m' := by
  rw [next, stepped]

theorem next_of_trap {trap : Trap} (stepped : step code m = .error trap m') :
    next code m = m' := by
  rw [next, stepped]

/-- What is logged along the course of a run: the counted steps in order, and how it ends. -/
theorem Course.reports (course : Course code m visited r) (recorded : m.Recorded)
    (log : Array Event) :
    ∃ events last,
      (logSteps (fun _ => true) code m log).toList = log.toList ++ (events ++ [last]) ∧
      List.Forall₂ (Reports code) (visited.filter (Counted code ·)) events ∧
      Concludes (m.steps + events.length) r last := by
  induction course generalizing log with
  | @halt m m' value stepped =>
    obtain ⟨here, steps⟩ := reports_step recorded code
    rw [next_of_step stepped] at steps
    refine ⟨_, .runHalt value m'.stats, ?_, here, rfl, steps⟩
    rw [logSteps_of_halt stepped, Array.toList_appendList]
  | @trap m m' trap stepped =>
    obtain ⟨here, steps⟩ := reports_step recorded code
    rw [next_of_trap stepped] at steps
    refine ⟨_, .runTrap trap m'.steps, ?_, here, by rw [steps], steps⟩
    rw [logSteps_of_trap stepped, Array.toList_appendList]
  | @onward m m' visited r stepped rest ih =>
    obtain ⟨here, steps⟩ := reports_step recorded code
    obtain ⟨-, stack, dump⟩ := counters_next recorded code
    rw [next_of_step stepped] at steps stack dump
    obtain ⟨events, last, logged, reports, concludes⟩ :=
      ih ⟨stack.recorded, dump.recorded⟩ (log ++ (observe code m).1.toList)
    refine ⟨(observe code m).1.toList ++ events, last, ?_, ?_, ?_⟩
    · rw [logSteps_of_onward stepped]
      simp only [logged, Array.toList_appendList, List.append_assoc]
    · rw [← List.singleton_append, List.filter_append]
      exact List.rel_append here reports
    · rwa [List.length_append, ← Nat.add_assoc, ← steps]

/-- The log of a run of whatever code holds the beginning, one event for each step that is counted,
in order, as its machine was before the instruction, and the end, which gives the result and the
statistics or the trap. The steps that it gives are as many as there are events of steps. -/
theorem runLog_replays {caps : Capacities} (started : init? caps = .ok m) (code : Code) :
    ∃ visited events last, Course code m visited (run code m) ∧
      runLog (fun _ => true) code m =
        .runStart code.size caps.stack caps.dump caps.heap :: (events ++ [last]) ∧
      List.Forall₂ (Reports code) (visited.filter (Counted code ·)) events ∧
      Concludes events.length (run code m) last := by
  obtain rfl := init?_eq_ok started
  obtain ⟨visited, course⟩ := exists_course code (fresh caps)
  obtain ⟨events, last, logged, reports, concludes⟩ := course.reports (recorded_fresh caps)
    (record (fun _ => true) #[] [startEvent code (fresh caps)])
  rw [show (fresh caps).steps = 0 from rfl, Nat.zero_add] at concludes
  refine ⟨visited, events, last, course, ?_, reports, concludes⟩
  rw [runLog, logged]
  rfl

/-- A branch to a word that is no opcode: the third step traps, has no event and is not counted. -/
theorem runLog_replays_up_to_unknown_opcode :
    let code : Code := ⟨16, #[1, 0, 6, 5, 5, 42]⟩
    ∃ m visited, init? {} = .ok m ∧ Course code m visited (run code m) ∧
      runLog (fun _ => true) code m =
        [.runStart 6 65536 65536 1048576, .step 0 .ldc 0 0, .step 2 .sel 1 0,
         .runTrap ⟨5, .badOpcode 42⟩ 2] ∧
      (visited.filter (Counted code ·)).length = 2 := by
  intro code
  have started : init? {} = .ok (fresh {}) := rfl
  have log : runLog (fun _ => true) code (fresh {}) =
      [.runStart 6 65536 65536 1048576, .step 0 .ldc 0 0, .step 2 .sel 1 0,
       .runTrap ⟨5, .badOpcode 42⟩ 2] := by
    let loaded : Machine := { fresh {} with
      pc := 2, stack := (fresh {}).stack.pushed (.int 0), steps := 1 }
    let branched : Machine := { loaded with
      pc := 5, stack := loaded.stack.withItems #[], dump := loaded.dump.pushed (.branch 5)
      steps := 2 }
    have first : step code (fresh {}) = .ok none loaded := rfl
    have second : step code loaded = .ok none branched := rfl
    have third : step code branched = .error ⟨5, .badOpcode 42⟩ { branched with pc := 6 } := rfl
    rw [runLog, logSteps_of_onward first, logSteps_of_onward second, logSteps_of_trap third]
    rfl
  obtain ⟨visited, events, last, course, logged, reports, -⟩ := runLog_replays started code
  rw [log, List.cons.injEq] at logged
  have lengths := congrArg List.length logged.2
  rw [List.length_append, List.length_singleton] at lengths
  refine ⟨fresh {}, visited, started, course, log, ?_⟩
  rw [reports.length_eq]
  exact (Nat.succ.inj lengths).symm

end Secd.Machine
