/-!
Where text comes from, and why it cannot be had. A file is its bytes; a directory can be opened like
a file and fails once it is read. The standard input can be read once, under whatever name: after
that it is empty. A file system is known by what opening each path gives.
-/

namespace Secd

/-- Something that was opened for reading. -/
inductive Source where
  | bytes (content : List UInt8)
  | directory
  deriving DecidableEq

/-- Why text could not be read. -/
inductive ReadError where
  | notFound
  | notDirectory
  | isDirectory
  | nameTooLong
  | noDevice
  | invalidUtf8
  /-- The system gave another reason. -/
  | other (reason : String)
  deriving DecidableEq

/-- The wording of a read error. -/
def ReadError.message : ReadError → String
  | notFound => "No such file or directory (os error 2)"
  | notDirectory => "Not a directory (os error 20)"
  | isDirectory => "Is a directory (os error 21)"
  | nameTooLong => "File name too long (os error 36)"
  | noDevice => "No such device or address (os error 6)"
  | invalidUtf8 => "stream did not contain valid UTF-8"
  | other reason => reason

namespace Source

/-- The bytes of a source. -/
def content : Source → Except ReadError (List UInt8)
  | .bytes content => .ok content
  | .directory => .error .isDirectory

/-- The text of a source. -/
def text (source : Source) : Except ReadError String := do
  match String.fromUTF8? ⟨(← source.content).toArray⟩ with
  | some text => return text
  | none => throw .invalidUtf8

end Source

/-- What a path leads to. -/
inductive Entry where
  | source (s : Source)
  | standardInput
  deriving DecidableEq

namespace Entry

/-- The source that is read, with what the standard input holds by then. -/
def toSource (stdin : List UInt8) : Entry → Source
  | source s => s
  | standardInput => .bytes stdin

/-- What is left of the standard input when the source has been read to its end. -/
def rest (stdin : List UInt8) : Entry → List UInt8
  | source _ => stdin
  | standardInput => []

end Entry

/-- What the program finds when it opens a path. -/
abbrev FileSystem := String → Except ReadError Entry

end Secd
