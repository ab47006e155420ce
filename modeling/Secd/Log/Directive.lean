import Secd.Log.Event
import Secd.Log.Pattern
import Secd.Text.Numeral

/-!
The directives of which a filter consists. A directive says up to which level events are shown:
those whose target starts with a given text, or all. It may also name a field that an event must
have.

      warn                         all events up to warnings
      secd::vm::exec=debug         the runs, up to details
      secd::vm                     everything below a target
      secd[{pc}]=trace             events with the field pc
      [load{words=3}]=trace        events inside a span of that name, with that value

A directive can speak of spans: periods during which events happen. No event here happens in a
span, so a directive that asks for one, or for the value of a field, which is compared in spans
only, is read and then concerns no event.

Blanks around a directive belong to the text. The marks are looked for in the text without them,
but the parts are cut out of the text as it stands, at the positions counted in bytes from the
first character that is no blank; so a directive behind a blank has no target that an event has.
-/

namespace Secd.Log

/-- A level up to which events are shown, or none at all. -/
abbrev Limit := Option Level

/-- What a directive asks of an event besides its target. -/
inductive Scope where
  | any
  /-- The event has a field of this name. -/
  | field (name : String)
  /-- The event happens inside a certain span. -/
  | span
  deriving DecidableEq

/-- Up to which level events are shown, and which events. -/
structure Directive where
  target : List Char
  scope : Scope
  limit : Limit
  deriving DecidableEq

/-! ### Levels -/

/-- The text is the word, in capitals or not. -/
def isWord (word : String) (cs : List Char) : Bool := Text.upper cs == Text.upper word.toList

/-- The names of the limits. The place of a name in the list is its number. -/
def limitNames : List (String × Limit) :=
  [("off", none), ("error", some .error), ("warn", some .warn), ("info", some .info),
   ("debug", some .debug), ("trace", some .trace)]

/-- The limit with a name or a number. -/
def limit? (cs : List Char) : Option Limit :=
  match Numeral.size cs with
  | .ok number => limitNames[number]?.map (·.2)
  | .error _ => (limitNames.find? fun (name, _) => isWord name cs).map (·.2)

/-- The limit that a text behind an equals sign gives; without a text there is no limit. -/
def limitAfterEquals? (cs : List Char) : Option Limit :=
  if cs.isEmpty then some (some .trace) else limit? cs

/-! ### Reading -/

namespace Directive

/-- The opening and the closing brace. -/
def openBrace : Char := '\x7b'

@[inherit_doc openBrace]
def closeBrace : Char := '\x7d'

/-- A directive as it stands, and what is left of it without the blanks at its ends, in bytes. -/
structure Reading where
  written : List UInt8
  trimmed : List UInt8
  deriving DecidableEq

namespace Reading

/-- The reading of a text. -/
def of (cs : List Char) : Reading :=
  ⟨Text.encodeUtf8 (String.ofList cs), Text.encodeUtf8 (String.ofList (Text.trim cs))⟩

/-- The part of the text as it stands between two positions. -/
def cut? (r : Reading) (first last : Nat) : Option (List Char) :=
  Text.decodeUtf8? ((r.written.take last).drop first)

/-- The text as it stands from a position on. -/
def rest? (r : Reading) (first : Nat) : Option (List Char) := r.cut? first r.written.length

/-- The mark at a position. -/
def mark? (r : Reading) (position : Nat) : Option Char :=
  r.trimmed[position]?.map fun byte => Char.ofNat byte.toNat

/-- The first position from a given one on that holds one of some marks, or the end. -/
def seek (r : Reading) (marks : List Char) (position : Nat) : Nat :=
  position + ((r.trimmed.drop position).takeWhile fun byte =>
    !(marks.any fun mark => mark.toNat == byte.toNat)).length

/-- The end of a directive behind its brackets: nothing, or a limit. -/
def limitAt? (r : Reading) (position : Nat) : Option Limit :=
  match r.mark? position with
  | none => some (some .trace)
  | some '=' => (r.rest? (position + 1)).bind limitAfterEquals?
  | some _ => none

/-- What the text between braces asks for: a field, perhaps with a value. -/
def scope? (cs : List Char) : Option Scope :=
  let name := cs.takeWhile (· != '=')
  match cs.dropWhile (· != '=') with
  | [] => if cs.isEmpty then none else some (.field (String.ofList name))
  | _ :: further =>
    if Pattern.isFieldValue (further.takeWhile (· != '=')) then some .span else none

/-- The directive whose brackets open just before a position. -/
def bracketed? (r : Reading) (target : List Char) (position : Nat) : Option Directive := do
  let stop := r.seek [']', openBrace] position
  if (← r.mark? stop) = ']' then
    return ⟨target, .span, ← r.limitAt? (stop + 1)⟩
  else
    let last := r.seek [closeBrace] (stop + 1)
    let scope ← scope? (← r.cut? (stop + 1) last)
    if r.mark? last = some closeBrace ∧ r.mark? (last + 1) = some ']' then
      return ⟨target, if stop = position then scope else .span, ← r.limitAt? (last + 2)⟩
    else none

end Reading

/-- The character can stand at the front of a target. -/
def isTargetStart (c : Char) : Bool :=
  c == '-' || c == ':' || c == '_' || Text.isAlphanumeric c

/-- Reads a directive. A text without marks is a level, or else a target. -/
def parse? (cs : List Char) : Option Directive := do
  let r := Reading.of cs
  match ← (Text.trim cs).head? with
  | '[' => r.bracketed? [] 1
  | c =>
    if !isTargetStart c then none
    else
      let stop := r.seek ['=', '['] 0
      match r.mark? stop with
      | none =>
        match limit? cs with
        | some limit => some ⟨[], .any, limit⟩
        | none => some ⟨cs, .any, some .trace⟩
      | some '=' => return ⟨← r.cut? 0 stop, .any, ← r.limitAt? stop⟩
      | some _ => r.bracketed? (← r.cut? 0 stop) (stop + 1)

/-! ### Which events a directive concerns -/

/-- The directive concerns the event. -/
def appliesTo (d : Directive) (e : Event) : Bool :=
  d.target.isPrefixOf e.target.toList &&
    match d.scope with
    | .any => true
    | .field name => e.hasField name
    | .span => false

/-- The field that a directive names; one without comes before all that have one. -/
def fieldKey (d : Directive) : String :=
  match d.scope with
  | .field name => name
  | .any | .span => ""

/-- Of two directives for an event, the second is more specific: it has the longer target, or the
same target and a field that comes later. -/
def lessSpecific (d other : Directive) : Bool :=
  decide (d.target.length < other.target.length) ||
    d.target.length == other.target.length && decide (d.fieldKey < other.fieldKey)

end Directive

end Secd.Log
