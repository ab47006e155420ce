import Secd.Input

/-!
The directory in which the program is started, and as much of the file system around it as every
machine has: the standard directories, in one of which the directory is, and a few devices. Nothing
else can be found there by name.

A path is walked step by step. Empty steps and single dots stay in a directory, and two dots lead
out of it; nothing leads out of a file, not even to itself.

      a, ./a, .//a             the file a
      a/, a/., a/b             not a directory
      .., /, ../., /usr/bin    a directory
      /a, ../a                 not found
      /dev/null, /dev/stdin    nothing, and the standard input
-/

namespace Secd.Cli

/-- The files of a directory, by name. -/
abbrev Directory := List (String × List UInt8)

namespace Directory

/-- Where a walk has come to. -/
inductive Location where
  /-- The directory in which the program is started. -/
  | home
  /-- A standard directory, by the names that lead to it from the outermost one. -/
  | away (names : List String)
  /-- Something that is no directory. -/
  | leaf (entry : Entry)
  deriving DecidableEq

/-- What can be opened at a location. -/
def Location.entry : Location → Entry
  | .home | .away _ => .source .directory
  | .leaf entry => entry

/-- The standard directory in which the program's own directory is. -/
def temporary : List String := ["tmp"]

/-- The standard directories. -/
def standardDirectories : List (List String) :=
  [temporary, ["bin"], ["boot"], ["dev"], ["etc"], ["home"], ["lib"], ["media"], ["mnt"], ["opt"],
   ["proc"], ["root"], ["run"], ["sbin"], ["srv"], ["sys"], ["usr"], ["var"],
   ["dev", "fd"], ["dev", "pts"], ["dev", "shm"], ["proc", "self"], ["proc", "self", "fd"],
   ["usr", "bin"], ["usr", "include"], ["usr", "lib"], ["usr", "local"], ["usr", "sbin"],
   ["usr", "share"], ["usr", "src"], ["usr", "local", "bin"], ["usr", "local", "lib"],
   ["var", "cache"], ["var", "lib"], ["var", "log"], ["var", "spool"], ["var", "tmp"]]

/-- The devices. There is no terminal to open. -/
def devices : List (List String × Except ReadError Entry) :=
  [(["dev", "null"], .ok (.source (.bytes []))),
   (["dev", "stdin"], .ok .standardInput),
   (["dev", "fd", "0"], .ok .standardInput),
   (["proc", "self", "fd", "0"], .ok .standardInput),
   (["dev", "tty"], .error .noDevice)]

/-- The longest path and the longest name, in bytes. -/
def pathMax : Nat := 4095

@[inherit_doc pathMax]
def nameMax : Nat := 255

/-- What names lead to from the outermost directory. -/
def lookAway (names : List String) : Except ReadError Location :=
  match devices.lookup names with
  | some found => found.map .leaf
  | none => if standardDirectories.contains names then .ok (.away names) else .error .notFound

/-- What a name stands for in a directory. -/
def find (d : Directory) (location : Location) (name : String) : Except ReadError Location :=
  if nameMax < name.utf8ByteSize then .error .nameTooLong
  else match location with
    | .away names => lookAway (names ++ [name])
    | _ =>
      match d.lookup name with
      | some content => .ok (.leaf (.source (.bytes content)))
      | none => .error .notFound

/-- Takes a step of a path. -/
def walk (d : Directory) (location : Location) (step : String) : Except ReadError Location :=
  match location, step with
  | .leaf _, _ => .error .notDirectory
  | location, "" | location, "." => .ok location
  | .home, ".." => .ok (.away temporary)
  | .away names, ".." => .ok (.away names.dropLast)
  | location, name => d.find location name

/-- The steps of a path, from left to right. -/
def steps (path : String) : List String := (path.toList.splitOn '/').map String.ofList

/-- Opens what a path leads to; an absolute path starts at the outermost directory. -/
def fileSystem (d : Directory) : FileSystem := fun path =>
  if pathMax < path.utf8ByteSize then .error .nameTooLong
  else do
    let start := if path.toList.head? = some '/' then Location.away [] else .home
    return (← (steps path).foldlM d.walk start).entry

end Directory

end Secd.Cli
