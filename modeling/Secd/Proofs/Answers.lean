import Secd.Cli.Invocation
import Secd.Proofs.Loading
import Secd.Proofs.Steps

/-!
What the program answers. There is output only if nothing failed, whatever the command. A run
reads as many words as there is room for, and then its answer tells how these words end in a fresh
machine:

      the words end with      status      output      diagnostics
      an integer n            0           n           any
      a closure               1           none        any, then an error
      a trap                  1           none        any, then the error of the trap
-/

namespace Secd

/-! ### Machines with room -/

/-- Every store of a machine of these capacities can be set aside. -/
def Capacities.Reservable (caps : Capacities) : Prop :=
  ∀ segment : Segment, segment.reserve (caps.get segment) = .ok ()

/-- What a run ends with, without the machine that it leaves. -/
def Machine.ending : EStateM.Result Trap Machine Value → Except Trap Value
  | .ok value _ => .ok value
  | .error trap _ => .error trap

theorem Code.empty?_eq {capacity : Nat} (reserved : Segment.code.reserve capacity = .ok ()) :
    Code.empty? capacity = .ok ⟨capacity, #[]⟩ := by
  rw [Code.empty?, reserved]
  rfl

namespace Capacities.Reservable

variable {caps : Capacities}

theorem init?_eq (reservable : caps.Reservable) :
    Machine.init? caps = .ok (Machine.fresh caps) := by
  have stack : Segment.stack.reserve caps.stack = .ok () := reservable .stack
  have dump : Segment.dump.reserve caps.dump = .ok () := reservable .dump
  have heap : Segment.heap.reserve caps.heap = .ok () := reservable .heap
  rw [Machine.init?, Stack.empty?, stack, Stack.empty?, dump, Heap.empty?, heap]
  rfl

theorem load?_eq (reservable : caps.Reservable) {words : Array Word}
    (fits : words.size ≤ caps.code) :
    Machine.load? words caps = .ok (⟨caps.code, words⟩, Machine.fresh caps) := by
  have code : Segment.code.reserve caps.code = .ok () := reservable .code
  rw [Machine.load?, Code.ofWords?, if_neg (Nat.not_lt.2 fits), code, reservable.init?_eq]
  rfl

/-- Words that fit are run in a fresh machine. -/
theorem execute_eq (reservable : caps.Reservable) {words : Array Word}
    (fits : words.size ≤ caps.code) :
    Machine.execute words caps =
      Machine.ending (Machine.run ⟨caps.code, words⟩ (Machine.fresh caps)) := by
  rw [Machine.execute, reservable.load?_eq fits]
  exact rfl

end Capacities.Reservable

/-! ### Text -/

namespace Source

/-- What the decoder gives is the text of a source. -/
theorem text_bytes (bytes : List UInt8) :
    text (.bytes bytes) = match String.fromUTF8? ⟨bytes.toArray⟩ with
      | some text => .ok text
      | none => .error .invalidUtf8 :=
  rfl

theorem exists_bytes_of_text {source : Source} {text : String} (isText : source.text = .ok text) :
    ∃ bytes, source = .bytes bytes ∧ Text.decodeUtf8? bytes = some text.toList := by
  cases source with
  | directory => cases isText
  | bytes bytes =>
    refine ⟨bytes, rfl, ?_⟩
    rw [text_bytes] at isText
    rw [Text.decodeUtf8?]
    split at isText
    · rename_i found
      cases isText
      rw [found, Option.map_some]
    · cases isText

/-- A text is the text of its encoding. -/
theorem text_encodeUtf8 (text : String) :
    Source.text (.bytes (Text.encodeUtf8 text)) = .ok text := by
  have decoded : String.fromUTF8? text.toUTF8 = some text := dif_pos text.isValidUTF8
  rw [text_bytes, Text.encodeUtf8, Array.toArray_toList, decoded]

end Source

namespace Cli

/-! ### Lines of the diagnostics -/

/-- The line tells an error. -/
def Line.IsError (line : Line) : Prop := "Error: ".toList <+: line.render.toList

theorem Line.not_isError {line : Line} {front back : String} (text : line.render = front ++ back)
    (other : front.toList.headD 'E' ≠ 'E') : ¬ line.IsError := by
  have mark : "Error: ".toList = 'E' :: "rror: ".toList := rfl
  rw [IsError, text, String.toList_append, mark]
  cases chars : front.toList with
  | nil =>
    rw [chars] at other
    exact absurd rfl other
  | cons c cs =>
    rw [chars] at other
    rw [List.cons_append, List.cons_prefix_cons]
    exact fun h => other h.1.symm

theorem Line.not_isError_event (e : Log.Event) : ¬ (Line.event e).IsError := by
  have text : (Line.event e).render = e.level.name ++ " " ++ e.target ++ ": " ++ e.message ++
      " " ++ Text.assignments e.fields := rfl
  simp only [String.append_assoc] at text
  refine Line.not_isError text ?_
  cases e <;> simp only [Log.Event.level] <;> decide

theorem Line.not_isError_stats (s : Stats) : ¬ (Line.text s.render).IsError := by
  have text : (Line.text s.render).render = "steps" ++ "=" ++ s.steps.repr ++ " " ++
      s!"peak_stack={s.peakStack}" ++ " " ++ s!"peak_dump={s.peakDump}" ++ " " ++
      s!"heap_cells={s.heapCells}" := rfl
  simp only [String.append_assoc] at text
  exact Line.not_isError text (by decide)

namespace Report

variable {r : Report}

/-- No line of the report tells an error yet. -/
def Quiet (r : Report) : Prop := ∀ line ∈ r.diagnostics, ¬ line.IsError

theorem Quiet.after (quiet : r.Quiet) (events : List Log.Event) :
    (r.after (events.map .event)).Quiet := by
  intro line mem
  rcases List.mem_append.1 mem with logged | later
  · obtain ⟨e, -, rfl⟩ := List.mem_map.1 logged
    exact Line.not_isError_event e
  · exact quiet line later

end Report

/-! ### Answers -/

/-- What is printed for the end of a program. -/
def printed : Except Trap Value → Except Failure String
  | .ok value => Invocation.resultLine value
  | .error trap => .error ⟨trap.message, []⟩

namespace Response

/-- The answer tells how a program ended. The error of a trap is the only one, and comes last. -/
def Tells (r : Response) : Except Trap Value → Prop
  | .ok (.int n) => r.status = 0 ∧ r.stdout = n.render ++ "\n"
  | .ok (.closure _) => r.status = 1
  | .error trap => r.status = 1 ∧ ∃ lines, r.stderr = lines ++ [.text s!"Error: {trap.message}"] ∧
      ∀ line ∈ lines, ¬ line.IsError

theorem stdout_ofReport (r : Report) (failed : (ofReport r).status ≠ 0) :
    (ofReport r).stdout = "" := by
  unfold ofReport at failed ⊢
  cases outcome : r.outcome with
  | ok output =>
    rw [outcome] at failed
    exact absurd rfl failed
  | error f => rfl

/-- A quiet report with what is printed for the end of a program becomes an answer that tells it. -/
theorem tells_ofReport {r : Report} {ending : Except Trap Value}
    (same : r.outcome = printed ending) (quiet : r.Quiet) : (ofReport r).Tells ending := by
  unfold ofReport
  rw [same]
  match ending with
  | .ok (.int n) => exact ⟨rfl, rfl⟩
  | .ok (.closure _) => rfl
  | .error trap => exact ⟨rfl, r.diagnostics, rfl, quiet⟩

end Response

namespace Invocation

open Log (Filter)

variable {inv : Invocation} {o : Options} {command : Command} {caps : Capacities} {source : Source}

/-- The invocation asks for a command, with these options, which amount to these capacities, on
this input. -/
structure Asks (inv : Invocation) (command : Command) (o : Options) (caps : Capacities)
    (source : Source) : Prop where
  request : Request.parse? inv.args = some (.perform command o)
  capacities : capacities inv.stdin inv.files o = .ok caps
  input : openInput (stdinAfter inv.stdin inv.files o.config) inv.files o.file = .ok source

theorem Asks.respond_eq (asks : inv.Asks command o caps source) :
    inv.respond = .ofReport (inv.perform inv.log.filter? command o) := by
  rw [respond, asks.request]

/-- Whatever was asked for, a failure has no output. -/
theorem stdout_respond : inv.respond.status ≠ 0 → inv.respond.stdout = "" := by
  unfold respond
  rcases Request.parse? inv.args with _ | _ | _ | ⟨command, o⟩
  · exact fun _ => rfl
  · exact fun failed => absurd rfl failed
  · exact fun _ => rfl
  · exact Response.stdout_ofReport _

/-- Code that can be read is passed on, behind a line of the log. -/
theorem withCode_of_read {filter : Option Filter} {report : Bytecode.Report} {code : Code}
    {next : Code → Report} (reservable : caps.Reservable)
    (read : Bytecode.read source ⟨caps.code, #[]⟩ = .ok report code) :
    withCode filter caps (.ok source) next =
      (next code).after (logged filter [report.event code]) := by
  have fresh : Code.empty? caps.code = .ok ⟨caps.code, #[]⟩ := Code.empty?_eq (reservable .code)
  rw [withCode, fresh]
  simp only [read]

theorem exists_runLog (filter : Option Filter) (code : Code) (m : Machine) :
    ∃ events : List Log.Event, runLog filter code m = events.map .event := by
  cases filter with
  | none => exact ⟨[], rfl⟩
  | some filter => exact ⟨_, rfl⟩

theorem quiet_statsLine (stats : Bool) (m : Machine) (outcome : Except Failure String) :
    Report.Quiet ⟨if stats then [.text m.stats.render] else [], outcome⟩ := by
  intro line mem
  cases stats with
  | false => cases mem
  | true =>
    obtain rfl := List.mem_singleton.1 mem
    exact Line.not_isError_stats m.stats

/-- The report on a run holds what is printed for its end, and so far no error. -/
theorem report_of_run (filter : Option Filter) (stats : Bool) (words : Array Word)
    (reservable : caps.Reservable) (fits : words.size ≤ caps.code) :
    (run filter caps stats ⟨caps.code, words⟩).outcome = printed (Machine.execute words caps) ∧
      (run filter caps stats ⟨caps.code, words⟩).Quiet := by
  obtain ⟨events, log⟩ := exists_runLog filter ⟨caps.code, words⟩ (Machine.fresh caps)
  rw [run, reservable.init?_eq, reservable.execute_eq fits]
  simp only [runMachine, log]
  cases Machine.run ⟨caps.code, words⟩ (Machine.fresh caps) with
  | ok value m => exact ⟨rfl, ((quiet_statsLine stats m _).after events).after _⟩
  | error trap m => exact ⟨rfl, ((quiet_statsLine stats m _).after events).after _⟩

/-- A run of code that can be read tells how its words end. -/
theorem Asks.tells {words : Array Word} {report : Bytecode.Report}
    (asks : inv.Asks .run o caps source) (reservable : caps.Reservable)
    (fits : words.size ≤ caps.code)
    (read : Bytecode.read source ⟨caps.code, #[]⟩ = .ok report ⟨caps.code, words⟩) :
    inv.respond.Tells (Machine.execute words caps) := by
  obtain ⟨outcome, quiet⟩ := report_of_run inv.log.filter? o.stats words reservable fits
  rw [asks.respond_eq, perform, asks.capacities]
  simp only [asks.input]
  rw [withCode_of_read reservable read]
  exact Response.tells_ofReport outcome (quiet.after _)

/-- There is no output unless the status is 0. A run of text whose first tokens, as many as there
is room for, are words tells how these words end. -/
theorem tells_execution (inv : Invocation) :
    (inv.respond.status ≠ 0 → inv.respond.stdout = "") ∧
      ∀ o caps source text words, inv.Asks .run o caps source → caps.Reservable →
        source.text = .ok text →
        List.Forall₂ (fun token (word : Word) => Literal token word.toInt)
          ((Text.tokens text.toList).take caps.code) words →
        inv.respond.Tells (Machine.execute words.toArray caps) := by
  refine ⟨stdout_respond, fun o caps source text words asks reservable isText literals => ?_⟩
  obtain ⟨bytes, rfl, decoded⟩ := Source.exists_bytes_of_text isText
  have fits : words.length ≤ caps.code := by
    rw [← literals.length_eq]
    exact List.length_take_le _ _
  obtain ⟨report, read⟩ := Bytecode.read_fresh_of_literals decoded literals
  exact asks.tells reservable fits read

/-- With room for three words the program ends in a trap, and what follows these is never read. -/
theorem tells_execution_despite_rest :
    let text : String := "1 7\n3 x"
    let inv : Invocation := ⟨["--code-size", "3", "--stats"], Text.encodeUtf8 text,
      fun _ => .error .notFound, ⟨none, none⟩⟩
    let caps : Capacities := { code := 3 }
    inv.Asks .run { sizes := [(.code, 3)], stats := true } caps (.bytes inv.stdin) ∧
      caps.Reservable ∧ Source.text (.bytes inv.stdin) = .ok text ∧
      List.Forall₂ (fun token (word : Word) => Literal token word.toInt)
        ((Text.tokens text.toList).take caps.code) [1, 7, 3] ∧
      Machine.execute #[1, 7, 3] caps = .error ⟨2, .underflow .stack⟩ ∧
      inv.respond.Tells (Machine.execute #[1, 7, 3] caps) ∧ inv.respond.status ≠ 0 ∧
      inv.respond.stdout = "" := by
  have request : Request.parse? ["--code-size", "3", "--stats"] =
      some (.perform .run { sizes := [(.code, 3)], stats := true }) := by decide +kernel
  have tokens : (Text.tokens "1 7\n3 x".toList).take 3 = [['1'], ['7'], ['3']] := by decide
  have reservable : Capacities.Reservable { code := 3 } := by
    intro segment
    cases segment <;> rfl
  have ending : Machine.execute #[1, 7, 3] { code := 3 } = .error ⟨2, .underflow .stack⟩ := by
    have fits : (#[1, 7, 3] : Array Word).size ≤ 3 := Nat.le_refl 3
    rw [reservable.execute_eq fits, Machine.run_eq]
    change Machine.ending (Machine.run _ _) = _
    rw [Machine.run_eq]
    rfl
  intro text inv caps
  have asks : inv.Asks .run { sizes := [(.code, 3)], stats := true } caps (.bytes inv.stdin) :=
    ⟨request, rfl, rfl⟩
  have isText : Source.text (.bytes inv.stdin) = .ok text := Source.text_encodeUtf8 text
  have literals : List.Forall₂ (fun token (word : Word) => Literal token word.toInt)
      ((Text.tokens text.toList).take caps.code) [1, 7, 3] := by
    rw [tokens]
    have literal {token : List Char} {word : Word} (parsed : Word.parse token = .ok word) :
        Literal token word.toInt := Word.parse_eq_ok_iff.1 parsed
    exact .cons (literal rfl) (.cons (literal rfl) (.cons (literal rfl) .nil))
  obtain ⟨noOutput, tells⟩ := tells_execution inv
  have told := tells _ caps _ _ [1, 7, 3] asks reservable isText literals
  have failed : inv.respond.status ≠ 0 := by
    rw [ending] at told
    rw [told.1]
    exact Nat.one_ne_zero
  exact ⟨asks, reservable, isText, literals, ending, told, failed, noOutput failed⟩

end Invocation

end Cli

end Secd
