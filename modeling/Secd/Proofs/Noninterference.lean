import Secd.Proofs.Requests
import Secd.Proofs.Room

/-!
Watching a run does not disturb it. The settings of the log decide which events are among the
diagnostics, and about nothing else. The statistics are one line, behind the events and before any
error:

      without --stats       with --stats
      events                events
                            steps=2 peak_stack=1 peak_dump=0 heap_cells=0
      Error: ...            Error: ...

Every layer of a command is compared with itself while the log is off: whatever the filter, it gives
the same report behind some events, and these do not depend on whether statistics are wanted.
-/

namespace Secd.Cli

open Log (Event Filter)

/-! ### Asking for statistics -/

namespace Options

variable {o next : Options}

/-- The other options differ in that statistics are wanted. -/
def withStats (o : Options) : Options := { o with stats := true }

theorem withStats_of_give? {setting : Setting} {value : String}
    (given : o.give? setting value = some next) :
    next.stats = o.stats ∧ o.withStats.give? setting value = some next.withStats := by
  cases setting with
  | config =>
    simp only [give?, Option.ite_none_left_eq_some, Option.some.injEq] at given
    obtain ⟨allowed, rfl⟩ := given
    exact ⟨rfl, if_neg allowed⟩
  | size segment =>
    simp only [give?] at given ⊢
    cases size : Numeral.size value.toList with
    | error e => simp [size] at given
    | ok n =>
      simp only [size, Option.ite_none_left_eq_some, Option.some.injEq] at given
      obtain ⟨allowed, rfl⟩ := given
      exact ⟨rfl, if_neg allowed⟩

theorem withStats_of_giveFile? {path : String} (given : o.giveFile? path = some next) :
    next.stats = o.stats ∧ o.withStats.giveFile? path = some next.withStats := by
  simp only [giveFile?, Option.ite_none_left_eq_some, Option.some.injEq] at given
  obtain ⟨allowed, rfl⟩ := given
  exact ⟨rfl, if_neg allowed⟩

theorem withStats_of_giveFiles? {paths : List String} (given : o.giveFiles? paths = some next) :
    next.stats = o.stats ∧ o.withStats.giveFiles? paths = some next.withStats := by
  induction paths generalizing o with
  | nil =>
    cases given
    exact ⟨rfl, rfl⟩
  | cons path paths ih =>
    obtain ⟨between, first, rest⟩ := Option.bind_eq_some_iff.1 given
    obtain ⟨same, shown⟩ := withStats_of_giveFile? first
    obtain ⟨still, later⟩ := ih rest
    exact ⟨still.trans same, Option.bind_eq_some_iff.2 ⟨_, shown, later⟩⟩

end Options

/-- A request to run is read before any subcommand. It wants the statistics if they were wanted
before; else it can be read with the statistics as well. -/
theorem withStats_of_parseFrom {scope : Scope} {o o' : Options} {args : List String}
    (possible : ∀ before, scope ≠ .sub .run before)
    (parsed : Request.parseFrom scope o args = some (.perform .run o')) :
    scope = .top ∧ (o.stats = true → o'.stats = true) ∧
      (o'.stats = false →
        Request.parseFrom .top o.withStats args = some (.perform .run o'.withStats)) := by
  fun_induction Request.parseFrom scope o args with
  | case1 scope o =>
    cases scope with
    | top =>
      cases parsed
      exact ⟨rfl, id, fun _ => rfl⟩
    | sub command before =>
      cases parsed
      exact absurd rfl (possible before)
  | case2 scope o arg rest shape =>
    obtain ⟨next, given, parsed⟩ := Option.bind_eq_some_iff.1 parsed
    obtain ⟨same, shown⟩ := Options.withStats_of_giveFiles? given
    cases scope with
    | top =>
      cases parsed
      refine ⟨rfl, same.trans, fun _ => ?_⟩
      rw [Request.parseFrom, shape]
      simp only [shown]
      rfl
    | sub command before =>
      cases parsed
      exact absurd rfl (possible before)
  | case6 scope o arg rest shape command named ih =>
    -- the commands that have a name are others
    have possible (before : Options) : Scope.sub command o ≠ .sub .run before := by
      rintro ⟨⟩
      unfold Scope.subcommand? at named
      split at named <;> cases named
    cases (ih possible parsed).1
  | case7 scope o arg rest shape named help =>
    unfold Request.helpFor? at parsed
    split at parsed
    · cases parsed
    · split at parsed <;> cases parsed
    · cases parsed
  | case8 scope o arg rest shape named noHelp ih =>
    obtain ⟨next, given, parsed⟩ := Option.bind_eq_some_iff.1 parsed
    obtain ⟨same, shown⟩ := Options.withStats_of_giveFile? given
    obtain ⟨rfl, kept, free⟩ := ih next possible parsed
    refine ⟨rfl, fun wanted => kept (same.trans wanted), fun unwanted => ?_⟩
    rw [Request.parseFrom, shape]
    simp only [named, if_neg noHelp, shown]
    exact free unwanted
  | case12 scope o arg rest name flag unset shape ih =>
    -- behind the flag itself the statistics are wanted for good
    obtain ⟨rfl, kept, -⟩ := ih possible parsed
    exact ⟨rfl, fun _ => kept rfl, fun unwanted => absurd (kept rfl) (by simp [unwanted])⟩
  | case13 scope o arg rest name setting value isSetting noFlag shape ih =>
    obtain ⟨next, given, parsed⟩ := Option.bind_eq_some_iff.1 parsed
    obtain ⟨same, shown⟩ := Options.withStats_of_give? given
    obtain ⟨rfl, kept, free⟩ := ih next possible parsed
    refine ⟨rfl, fun wanted => kept (same.trans wanted), fun unwanted => ?_⟩
    rw [Request.parseFrom, shape]
    simp only [isSetting, noFlag, shown]
    exact free unwanted
  | case15 scope o arg name setting isSetting noFlag value rest plain shape ih =>
    obtain ⟨next, given, parsed⟩ := Option.bind_eq_some_iff.1 parsed
    obtain ⟨same, shown⟩ := Options.withStats_of_give? given
    obtain ⟨rfl, kept, free⟩ := ih next possible parsed
    refine ⟨rfl, fun wanted => kept (same.trans wanted), fun unwanted => ?_⟩
    rw [Request.parseFrom, shape]
    simp only [isSetting, noFlag, if_pos plain, shown]
    exact free unwanted
  | case3 | case4 | case5 | case9 | case10 | case11 | case14 | case16 | case17 => cases parsed

theorem parse?_stats {o : Options} {args : List String}
    (parsed : Request.parse? args = some (.perform .run o)) (unwanted : o.stats = false) :
    Request.parse? ("--stats" :: args) = some (.perform .run o.withStats) := by
  have shape : Shape.of "--stats" = .long "stats".toList none := by decide +kernel
  have flag : Scope.flag? .top "stats".toList = some .stats := by decide +kernel
  have front : Request.parse? ("--stats" :: args) =
      Request.parseFrom .top (Options.withStats {}) args := by
    rw [Request.parse?, Request.parseFrom, shape]
    dsimp only
    rw [flag]
    rfl
  have possible (before : Options) : Scope.top ≠ .sub .run before := by rintro ⟨⟩
  rw [front]
  exact (withStats_of_parseFrom possible parsed).2.2 unwanted

/-! ### Diagnostics with events -/

/-- The line is an event of the log. -/
def Line.isEvent : Line → Bool
  | .event _ => true
  | .text _ => false

namespace Report

variable {ι : Type} {r r₀ : ι → Report}

/-- Each of these reports is the other one behind some events, the same for all of them. -/
def Behind (r r₀ : ι → Report) : Prop :=
  ∃ events : List Event, ∀ i, r i = (r₀ i).after (events.map .event)

theorem Behind.refl (r : ι → Report) : Behind r r := ⟨[], fun _ => rfl⟩

theorem Behind.after (behind : Behind r r₀) (earlier : List Event) :
    Behind (fun i => (r i).after (earlier.map .event)) r₀ := by
  obtain ⟨events, same⟩ := behind
  refine ⟨earlier ++ events, fun i => ?_⟩
  simp only [same, Report.after, List.map_append, List.append_assoc]

end Report

namespace Response

/-- The answer without the events of the log. -/
def withoutLog (r : Response) : Response :=
  { r with stderr := r.stderr.filter fun line => !line.isEvent }

/-- The other answer differs only in these lines, which it has behind events that both have. -/
def Gains (r : Response) (lines : List Line) (r' : Response) : Prop :=
  r'.status = r.status ∧ r'.stdout = r.stdout ∧
    ∃ (events : List Event) (rest : List Line),
      r.stderr = events.map .event ++ rest ∧ r'.stderr = events.map .event ++ lines ++ rest

theorem filter_events (events : List Event) :
    (events.map Line.event).filter (fun line => !line.isEvent) = [] := by
  rw [List.filter_eq_nil_iff]
  intro line mem
  obtain ⟨e, -, rfl⟩ := List.mem_map.1 mem
  exact Bool.false_ne_true

theorem withoutLog_ofReport_after (r : Report) (events : List Event) :
    (ofReport (r.after (events.map .event))).withoutLog = (ofReport r).withoutLog := by
  obtain ⟨lines, outcome⟩ := r
  cases outcome with
  | ok output => simp [ofReport, withoutLog, Report.after, filter_events]
  | error f => simp [ofReport, withoutLog, Report.after, filter_events]

theorem gains_ofReport_after (events : List Event) (lines : List Line)
    (outcome : Except Failure String) :
    (ofReport (Report.after (events.map .event) ⟨[], outcome⟩)).Gains lines
      (ofReport (Report.after (events.map .event) ⟨lines, outcome⟩)) := by
  cases outcome with
  | ok output => exact ⟨rfl, rfl, events, [], by simp [ofReport, Report.after]⟩
  | error f => exact ⟨rfl, rfl, events, f.lines.map .text, by simp [ofReport, Report.after]⟩

end Response

/-! ### Commands with the log off -/

namespace Invocation

open Report (Behind)

variable {inv : Invocation} {o : Options}

theorem behind_runMachine (filter : Option Filter) (code : Code) (m : Machine) :
    Behind (runMachine filter · code m) (runMachine none · code m) := by
  obtain ⟨events, log⟩ := exists_runLog filter code m
  refine ⟨events, fun stats => ?_⟩
  simp only [runMachine, log]
  rfl

theorem behind_run (filter : Option Filter) (caps : Capacities) (code : Code) :
    Behind (run filter caps · code) (run none caps · code) := by
  unfold run
  cases Machine.init? caps with
  | error fault => exact .refl _
  | ok m => exact (behind_runMachine filter code m).after _

theorem behind_withCode (filter : Option Filter) (caps : Capacities)
    (input : Except Failure Source) {ι : Type} {next next₀ : ι → Code → Report}
    (behind : ∀ code, Behind (next · code) (next₀ · code)) :
    Behind (fun i => withCode filter caps input (next i))
      (fun i => withCode none caps input (next₀ i)) := by
  unfold withCode
  cases Code.empty? caps.code with
  | error fault => exact .refl _
  | ok empty =>
    cases input with
    | error f => exact .refl _
    | ok source =>
      cases read : Bytecode.read source empty with
      | error e code =>
        simp only [read]
        exact .refl _
      | ok report code =>
        simp only [read]
        exact (behind code).after _

theorem capacities_stats (stdin : List UInt8) (files : FileSystem) (o : Options) (stats : Bool) :
    capacities stdin files { o with stats } = capacities stdin files o :=
  rfl

/-- Whatever the filter, a command gives what it gives while the log is off, behind some events. -/
theorem behind_perform (inv : Invocation) (filter : Option Filter) (command : Command)
    (o : Options) :
    Behind (fun stats => inv.perform filter command { o with stats })
      (fun stats => inv.perform none command { o with stats }) := by
  unfold perform
  simp only [capacities_stats]
  cases capacities inv.stdin inv.files o with
  | error f => exact .refl _
  | ok caps =>
    cases command with
    | assemble => exact .refl _
    | disassemble => exact behind_withCode filter caps _ fun code => .refl _
    | run => exact behind_withCode filter caps _ (behind_run filter caps)

/-! ### The statistics -/

/-- The code and the machine of a run with these options, if it comes to a run. -/
def built? (inv : Invocation) (o : Options) : Option (Code × Machine) :=
  match capacities inv.stdin inv.files o with
  | .error _ => none
  | .ok caps =>
    match openInput (stdinAfter inv.stdin inv.files o.config) inv.files o.file with
    | .error _ => none
    | .ok source =>
      match Bytecode.load caps.code source, Machine.init? caps with
      | .ok (code, _), .ok m => some (code, m)
      | _, _ => none

/-- The line with the statistics of this run; no line, if it does not come to a run. -/
def statsLines (inv : Invocation) (o : Options) : List Line :=
  match inv.built? o with
  | none => []
  | some (code, m) => [.text (Machine.left (m.run code)).stats.render]

/-- With the log off, code that is read is only loaded. -/
theorem withCode_none (caps : Capacities) (source : Source) (next : Code → Report) :
    withCode none caps (.ok source) next =
      match Bytecode.load caps.code source with
      | .error e => .fail (.ofMessages e.messages)
      | .ok (code, _) => next code := by
  unfold withCode Bytecode.load
  cases Code.empty? caps.code with
  | error fault => rfl
  | ok empty =>
    cases read : Bytecode.read source empty with
    | error e code => simp only [read]
    | ok report code =>
      simp only [read]
      rfl

theorem exists_failure_of_unopened (caps : Capacities) (f : Failure) :
    ∃ failure, ∀ next, withCode none caps (.error f) next = .fail failure := by
  unfold withCode
  cases Code.empty? caps.code with
  | error fault => exact ⟨⟨fault.message, []⟩, fun _ => rfl⟩
  | ok empty => exact ⟨f, fun _ => rfl⟩

/-- With the log off, a run shows its statistics if they are wanted, and ends as it does anyhow. -/
theorem exists_outcome_of_perform (inv : Invocation) (o : Options) :
    ∃ outcome, ∀ stats, inv.perform none .run { o with stats } =
      ⟨if stats then inv.statsLines o else [], outcome⟩ := by
  -- A failure before the run has no line, and there are no statistics either.
  have early (f : Failure) (unbuilt : inv.built? o = none) (stats : Bool) :
      Report.fail f = ⟨if stats then inv.statsLines o else [], .error f⟩ := by
    rw [statsLines, unbuilt]
    cases stats <;> rfl
  unfold perform
  simp only [capacities_stats]
  cases sized : capacities inv.stdin inv.files o with
  | error f => exact ⟨_, early f (by rw [built?, sized])⟩
  | ok caps =>
    cases input : openInput (stdinAfter inv.stdin inv.files o.config) inv.files o.file with
    | error f =>
      obtain ⟨failure, failed⟩ := exists_failure_of_unopened caps f
      refine ⟨.error failure, fun stats => ?_⟩
      simp only [failed]
      exact early failure (by rw [built?, sized]; simp only [input]) stats
    | ok source =>
      simp only [withCode_none]
      cases loaded : Bytecode.load caps.code source with
      | error e => exact ⟨_, early _ (by rw [built?, sized]; simp only [input, loaded])⟩
      | ok loadedCode =>
        obtain ⟨code, report⟩ := loadedCode
        simp only [run]
        cases built : Machine.init? caps with
        | error fault =>
          exact ⟨_, early _ (by rw [built?, sized]; simp only [input, loaded, built])⟩
        | ok m =>
          have shown : inv.statsLines o = [.text (Machine.left (m.run code)).stats.render] := by
            rw [statsLines, built?, sized]
            simp only [input, loaded, built]
          rw [shown]
          simp only [runMachine]
          cases m.run code with
          | ok value m' => exact ⟨_, fun stats => by cases stats <;> rfl⟩
          | error trap m' => exact ⟨_, fun stats => by cases stats <;> rfl⟩

/-- The statistics are one line. -/
theorem newline_notMem_render (s : Stats) : '\n' ∉ s.render.toList := by
  have digits (n : Nat) : '\n' ∉ n.repr.toList := fun mem => by cases (isDigits_repr n).2 _ mem
  have text : s.render = "steps=" ++ s.steps.repr ++ " " ++ ("peak_stack=" ++ s.peakStack.repr) ++
      " " ++ ("peak_dump=" ++ s.peakDump.repr) ++ " " ++ ("heap_cells=" ++ s.heapCells.repr) :=
    rfl
  simp only [text, String.toList_append, List.mem_append, digits]
  decide

theorem newline_notMem_statsLines (inv : Invocation) (o : Options) :
    ∀ line ∈ inv.statsLines o, '\n' ∉ line.render.toList := by
  unfold statsLines
  split
  · exact nofun
  · exact List.forall_mem_singleton.2 (newline_notMem_render _)

/-! ### Answers -/

theorem withoutLog_perform (inv : Invocation) (filter : Option Filter) (command : Command)
    (o : Options) :
    (Response.ofReport (inv.perform filter command o)).withoutLog =
      (Response.ofReport (inv.perform none command o)).withoutLog := by
  obtain ⟨events, same⟩ := behind_perform inv filter command o
  have behind : inv.perform filter command o =
      (inv.perform none command o).after (events.map .event) := same o.stats
  rw [behind, Response.withoutLog_ofReport_after]

theorem gains_perform (filter : Option Filter) (unwanted : o.stats = false) :
    (Response.ofReport (inv.perform filter .run o)).Gains (inv.statsLines o)
      (Response.ofReport (inv.perform filter .run o.withStats)) := by
  obtain ⟨events, same⟩ := behind_perform inv filter .run o
  obtain ⟨outcome, ends⟩ := exists_outcome_of_perform inv o
  have report (stats : Bool) : inv.perform filter .run { o with stats } =
      Report.after (events.map .event) ⟨if stats then inv.statsLines o else [], outcome⟩ :=
    (same stats).trans (congrArg (Report.after (events.map .event)) (ends stats))
  have unset : { o with stats := false } = o := by rw [← unwanted]
  have without := report false
  rw [unset] at without
  rw [without, Options.withStats, report true]
  exact Response.gains_ofReport_after events (inv.statsLines o) outcome

/-- The settings of the log change nothing but the events in the diagnostics. Statistics can be
asked for with every run. If it comes to the run, they are one line behind the events and before the
error; else there is no line, and nothing else changes. -/
theorem respond_undisturbed (inv : Invocation) :
    (∀ log, ({ inv with log } : Invocation).respond.withoutLog = inv.respond.withoutLog) ∧
      ∀ o, Request.parse? inv.args = some (.perform .run o) → o.stats = false →
        Request.parse? ("--stats" :: inv.args) = some (.perform .run o.withStats) ∧
          (∀ line ∈ inv.statsLines o, '\n' ∉ line.render.toList) ∧
          ∀ args, Request.parse? args = some (.perform .run o.withStats) →
            inv.respond.Gains (inv.statsLines o) ({ inv with args } : Invocation).respond := by
  constructor
  · intro log
    unfold respond
    rcases Request.parse? inv.args with _ | _ | _ | ⟨command, o⟩
    · rfl
    · rfl
    · rfl
    · exact (withoutLog_perform inv log.filter? command o).trans
        (withoutLog_perform inv inv.log.filter? command o).symm
  · intro o parsed unwanted
    refine ⟨parse?_stats parsed unwanted, newline_notMem_statsLines inv o, fun args again => ?_⟩
    rw [respond, parsed, respond, again]
    exact gains_perform inv.log.filter? unwanted

/-- A run that ends in a trap, with the whole log: the statistics stand before the error. -/
theorem respond_undisturbed_by_trap :
    let inv : Invocation := ⟨[], Text.encodeUtf8 "1 7 3", fun _ => .error .notFound,
      ⟨some "trace", none⟩⟩
    let unlogged : Invocation := { inv with log := ⟨none, none⟩ }
    let counted : Invocation := { inv with args := ["--stats"] }
    Request.parse? inv.args = some (.perform .run {}) ∧ Options.stats {} = false ∧
      Request.parse? counted.args = some (.perform .run (Options.withStats {})) ∧
      inv.statsLines {} = [.text "steps=2 peak_stack=1 peak_dump=0 heap_cells=0"] ∧
      unlogged.respond.withoutLog = inv.respond.withoutLog ∧
      inv.respond.Gains (inv.statsLines {}) counted.respond := by
  intro inv unlogged counted
  have parsed : Request.parse? inv.args = some (.perform .run {}) := rfl
  obtain ⟨same, more⟩ := respond_undisturbed inv
  obtain ⟨again, -, gains⟩ := more {} parsed rfl
  have loaded : Bytecode.load 65536 (.bytes inv.stdin) =
      .ok (⟨65536, #[1, 7, 3]⟩, ⟨3, .complete 1⟩) := by decide +kernel
  have built : inv.built? {} = some (⟨65536, #[1, 7, 3]⟩, Machine.fresh {}) := by
    have sized : capacities inv.stdin inv.files {} = .ok {} := rfl
    have opened : openInput (stdinAfter inv.stdin inv.files none) inv.files none =
        .ok (.bytes inv.stdin) := rfl
    have fresh : Machine.init? {} = .ok (Machine.fresh {}) := rfl
    rw [built?, sized]
    simp only [opened, loaded, fresh]
  have lines : inv.statsLines {} =
      [.text "steps=2 peak_stack=1 peak_dump=0 heap_cells=0"] := by
    rw [statsLines, built]
    change [Line.text (Machine.left (Machine.run _ _)).stats.render] = _
    rw [Machine.run_eq]
    change [Line.text (Machine.left (Machine.run _ _)).stats.render] = _
    rw [Machine.run_eq]
    rfl
  exact ⟨parsed, rfl, again, lines, same ⟨none, none⟩, gains counted.args again⟩

end Invocation

end Secd.Cli
