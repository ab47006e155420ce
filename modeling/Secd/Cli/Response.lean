import Secd.Log.Filter
import Secd.Machine

/-!
What the program answers: an exit status, its output, and the lines of its diagnostics. Lines of the
log are kept apart from the others, so that one can speak of the diagnostics without the log.

A failure is a message and its causes, the outermost first:

      Error: in config 'secd.toml'

      Caused by:
          0: invalid capacity configuration
          1: TOML parse error
-/

namespace Secd.Cli

/-- Why the program failed: a message, and the messages of its causes. -/
structure Failure where
  message : String
  causes : List String := []
  deriving DecidableEq

namespace Failure

/-- The failure with the given messages, the outermost first. -/
def ofMessages : List String → Failure
  | [] => ⟨"", []⟩
  | message :: causes => ⟨message, causes⟩

/-- The failure as the cause of another. -/
def inContext (f : Failure) (message : String) : Failure := ⟨message, f.message :: f.causes⟩

/-- The lines that tell the causes: one by itself, several with numbers. -/
def causeLines : List String → List String
  | [] => []
  | [cause] => ["", "Caused by:", s!"    {cause}"]
  | causes =>
    "" :: "Caused by:" :: (causes.zipIdx.map fun (cause, number) => s!"    {number}: {cause}")

/-- The lines of the failure. -/
def lines (f : Failure) : List String := s!"Error: {f.message}" :: causeLines f.causes

end Failure

/-- A line of the diagnostics. -/
inductive Line where
  | event (event : Log.Event)
  | text (text : String)
  deriving DecidableEq

/-- The text of a line. -/
def Line.render : Line → String
  | .event e => e.render
  | .text t => t

/-- What a command leaves: diagnostics, and its output unless it failed. -/
structure Report where
  diagnostics : List Line
  outcome : Except Failure String

namespace Report

/-- A command that fails at once. -/
def fail (f : Failure) : Report := ⟨[], .error f⟩

/-- The report with diagnostics in front. -/
def after (lines : List Line) (r : Report) : Report :=
  { r with diagnostics := lines ++ r.diagnostics }

end Report

/-- The answer of the program. -/
structure Response where
  status : Nat
  stdout : String
  stderr : List Line
  deriving DecidableEq

namespace Response

/-- The answer to a command line that makes no sense. -/
def usage : Response := ⟨2, "", []⟩

/-- The answer that reports how a command went: there is output only if it succeeded. -/
def ofReport (r : Report) : Response :=
  match r.outcome with
  | .ok output => ⟨0, output, r.diagnostics⟩
  | .error f => ⟨1, "", r.diagnostics ++ f.lines.map .text⟩

/-- The lines of the diagnostics as they appear. -/
def stderrLines (r : Response) : List String :=
  r.stderr.flatMap fun line => line.render.splitOn "\n"

end Response

end Secd.Cli
