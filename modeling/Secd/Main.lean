import Secd.Cli.Invocation

/-!
The command line. Everything is decided by `Invocation.respond`. Here the arguments, the standard
input, the files that the arguments name and two variables of the environment are fetched for it,
and its answer is delivered.
-/

namespace Secd.Cli

/-- The number of an error of the system, whose sign may have been turned. -/
def errorNumber (code : UInt32) : Nat := min code.toNat (-code).toNat

/-- What opening and reading a file gives. -/
def openFile (path : String) : IO (Except ReadError Entry) := do
  try
    return .ok (.source (.bytes (← IO.FS.readBinFile path).data.toList))
  catch
    | .noFileOrDirectory .. => return .error .notFound
    | .inappropriateType _ code _ =>
      return if errorNumber code = 20 then .error .notDirectory else .ok (.source .directory)
    | e@(.invalidArgument _ code _) =>
      return .error (if errorNumber code = 36 then .nameTooLong else .other (toString e))
    | e => return .error (.other (toString e))

/-- The paths that a request may open. -/
def Request.paths : Request → List String
  | .perform _ o => o.config.toList ++ o.file.toList
  | .version | .help => []

/-- The files that were opened, each under its path. -/
def opened (files : List (String × Except ReadError Entry)) : FileSystem := fun path =>
  (files.lookup path).getD (.error .notFound)

/-- The request reads the standard input. -/
def Request.readsStdin : Request → Bool
  | .perform _ o => o.file.all (· == "-")
  | .version | .help => false

/-- Fetches what the answer depends on. -/
def Invocation.fetch (args : List String) : IO Invocation := do
  let request := Request.parse? args
  let files ← (request.toList.flatMap Request.paths).mapM fun path => do
    return (path, ← openFile path)
  let stdin ← if request.any Request.readsStdin then (← IO.getStdin).readBinToEnd else pure .empty
  let log : Log.Settings := ⟨← IO.getEnv "SECD_TRACE", ← IO.getEnv "RUST_LOG"⟩
  return { args, stdin := stdin.data.toList, files := opened files, log }

/-- Writes an answer. -/
def Response.deliver (r : Response) : IO UInt32 := do
  for line in r.stderrLines do
    IO.eprintln line
  IO.print r.stdout
  return r.status.toUInt32

end Secd.Cli

/-- The program. -/
def main (args : List String) : IO UInt32 := do
  (← Secd.Cli.Invocation.fetch args).respond.deliver
