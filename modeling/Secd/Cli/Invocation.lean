import Secd.Assembly.Layout
import Secd.Bytecode
import Secd.Capacities.Toml
import Secd.Cli.Arguments
import Secd.Cli.Response
import Secd.Listing
import Secd.Machine.Run

/-!
The program as a function: from its arguments, input, files and log settings to its answer.

Everything is done in a fixed order, and the first failure ends it: read the configuration, apply
the sizes, check them; then set the code aside, open the input and read it; for a run, set the other
stores aside and run. The log settings decide only which events are among the diagnostics.
-/

namespace Secd.Cli

open Log (Event Filter)

/-- All that an answer of the program depends on. -/
structure Invocation where
  args : List String
  stdin : List UInt8 := []
  files : FileSystem
  log : Log.Settings := ⟨none, none⟩

/-- The version line. -/
def versionLine : String := "secd 0.1.0\n"

namespace Invocation

/-! ### Settings -/

/-- The capacities of a configuration file. -/
def loadConfig (stdin : List UInt8) (files : FileSystem) (path : String) :
    Except Failure Capacities :=
  match (files path).map (·.toSource stdin) >>= Source.text with
  | .error cause => .error ⟨s!"Failed to read config '{path}'", [cause.message]⟩
  | .ok text =>
    (Capacities.ofConfig text).mapError fun e =>
      (Failure.ofMessages e.messages).inContext s!"in config '{path}'"

/-- The capacities of the machine: from the configuration, with the sizes that were given. -/
def capacities (stdin : List UInt8) (files : FileSystem) (o : Options) :
    Except Failure Capacities := do
  let caps ← match o.config with
    | some path => loadConfig stdin files path
    | none => .ok {}
  (o.resize caps).validate.mapError fun segment => ⟨Capacities.missingMessage segment, []⟩

/-- What is left of the standard input after the configuration, which may be read from it. -/
def stdinAfter (stdin : List UInt8) (files : FileSystem) (config : Option String) : List UInt8 :=
  match config.map files with
  | some (.ok entry) => entry.rest stdin
  | _ => stdin

/-- Opens the input: the file, or the standard input if there is none or it is a dash. -/
def openInput (stdin : List UInt8) (files : FileSystem) : Option String → Except Failure Source
  | none => .ok (.bytes stdin)
  | some path =>
    if path == "-" then .ok (.bytes stdin)
    else match files path with
      | .ok entry => .ok (entry.toSource stdin)
      | .error cause => .error ⟨s!"Failed to open '{path}'", [cause.message]⟩

/-! ### Commands -/

/-- The lines of those events that are shown. -/
def logged (filter : Option Filter) (events : List Event) : List Line :=
  (Log.visible filter events).map .event

/-- Assembles a source; the output has each word on a line. -/
def assemble (source : Source) : Report :=
  match source.text with
  | .error cause => .fail ⟨"failed to read assembly source", [cause.message]⟩
  | .ok text =>
    match Assembly.assemble text with
    | .error e => .fail ⟨e.message, []⟩
    | .ok words => ⟨[], .ok (Bytecode.render words)⟩

/-- Reads code from an input that may not open, and goes on with it. -/
def withCode (filter : Option Filter) (caps : Capacities) (input : Except Failure Source)
    (next : Code → Report) : Report :=
  match Code.empty? caps.code with
  | .error fault => .fail ⟨fault.message, []⟩
  | .ok code =>
    match input with
    | .error f => .fail f
    | .ok source =>
      match Bytecode.read source code with
      | .error e _ => .fail (.ofMessages e.messages)
      | .ok report code => (next code).after (logged filter [report.event code])

/-- Lists code. -/
def disassemble (code : Code) : Report :=
  ⟨[], .ok (Text.unlines (Listing.lines code.words.toList))⟩

/-- The output for the result of a run, which has to be an integer. -/
def resultLine : Value → Except Failure String
  | .int n => .ok (n.render ++ "\n")
  | .closure _ =>
    .error ⟨s!"program halted with a {Value.Kind.closure.name} on top of the stack", []⟩

/-- The log of a run. -/
def runLog (filter : Option Filter) (code : Code) (m : Machine) : List Line :=
  match filter with
  | none => []
  | some filter => (m.runLog (Log.shows filter) code).map .event

/-- Runs code in a machine; the diagnostics may end with its statistics. -/
def runMachine (filter : Option Filter) (stats : Bool) (code : Code) (m : Machine) : Report :=
  let statsLine (m : Machine) : List Line := if stats then [.text m.stats.render] else []
  (match m.run code with
    | .ok value m => ⟨statsLine m, resultLine value⟩
    | .error trap m => ⟨statsLine m, .error ⟨trap.message, []⟩⟩ : Report).after
    (runLog filter code m)

/-- Sets a machine up and runs code in it. -/
def run (filter : Option Filter) (caps : Capacities) (stats : Bool) (code : Code) : Report :=
  match Machine.init? caps with
  | .error fault => .fail ⟨fault.message, []⟩
  | .ok m =>
    (runMachine filter stats code m).after (logged filter [.heapInit caps.heap])

/-- Does what a command line asks for. -/
def perform (inv : Invocation) (filter : Option Filter) (command : Command) (o : Options) :
    Report :=
  match capacities inv.stdin inv.files o with
  | .error f => .fail f
  | .ok caps =>
    let input := openInput (stdinAfter inv.stdin inv.files o.config) inv.files o.file
    match command with
    | .assemble =>
      match input with
      | .error f => .fail f
      | .ok source => assemble source
    | .disassemble => withCode filter caps input disassemble
    | .run => withCode filter caps input (run filter caps o.stats)

/-- The answer of the program. -/
def respond (inv : Invocation) : Response :=
  match Request.parse? inv.args with
  | none => .usage
  | some .version => ⟨0, versionLine, []⟩
  | some .help => ⟨0, "", []⟩
  | some (.perform command o) => .ofReport (inv.perform inv.log.filter? command o)

end Invocation

end Secd.Cli
