/-!
Bytes as lines of text. A line ends after its newline byte, which belongs to it; the last line may
go without one. Each line is decoded on its own, so bytes that are no UTF-8 spoil their line and no
line before it.
-/

namespace Secd.Text

/-- The byte that ends a line. -/
def newline : UInt8 := 10

/-- Puts a byte in front of lines: a newline is a line by itself, all else joins the first line. -/
def consLine (byte : UInt8) (lines : List (List UInt8)) : List (List UInt8) :=
  if byte = newline then [byte] :: lines
  else match lines with
    | [] => [[byte]]
    | line :: rest => (byte :: line) :: rest

/-- Cuts bytes after each newline. -/
def byteLines (bytes : List UInt8) : List (List UInt8) := bytes.foldr consLine []

/-- The text that bytes encode in UTF-8, if they do. -/
def decodeUtf8? (bytes : List UInt8) : Option (List Char) :=
  (String.fromUTF8? ⟨bytes.toArray⟩).map String.toList

/-- The bytes that encode a text in UTF-8. -/
def encodeUtf8 (text : String) : List UInt8 := text.toUTF8.data.toList

/-- The text with the given lines, each ended by a newline. -/
def unlines (lines : List String) : String := String.join (lines.map (· ++ "\n"))

/-- Fields on one line, each as `name=value`, with a blank between them. -/
def assignments (fields : List (String × String)) : String :=
  " ".intercalate (fields.map fun (name, value) => s!"{name}={value}")

end Secd.Text
