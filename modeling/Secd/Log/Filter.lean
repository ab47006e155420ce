import Secd.Log.Directive

/-!
Which events are shown. A filter is a list of directives, written between commas; of those that
concern an event the most specific decides about it. An event that no directive concerns is not
shown.

      warn,secd::vm::exec=debug      warnings everywhere, and details of the runs

The log is off unless a switch turns it on. The switch may hold a filter itself; else another
setting does, and a filter that cannot be read is replaced by the usual one.
-/

namespace Secd.Log

/-- A filter: its directives, in the order in which they are written. -/
abbrev Filter := List Directive

/-! ### The switch -/

/-- The switch turns the log on: it says something, and something else than no. -/
def isOn (switch : String) : Bool :=
  let text := Text.trim switch.toList
  !text.isEmpty && !(["0", "false", "off"].any fun word => isWord word text)

/-- The filter that the switch holds, if it says more than yes. -/
def filterText? (switch : String) : Option String :=
  let text := Text.trim switch.toList
  if text.isEmpty || ["1", "true", "on"].any fun word => isWord word text then none
  else some (String.ofList text)

/-! ### Reading and applying a filter -/

/-- Reads a filter. A filter without directives shows errors. -/
def filter? (text : String) : Option Filter :=
  match (text.toList.splitOn ',').filter fun piece => !piece.isEmpty with
  | [] => some [⟨[], .any, some .error⟩]
  | pieces => pieces.mapM Directive.parse?

/-- The directive that decides about an event: of those that concern it the most specific, and of
several as specific the last. -/
def deciding? (filter : Filter) (e : Event) : Option Directive :=
  filter.foldl (fun best d =>
    if d.appliesTo e && best.all (fun b => !d.lessSpecific b) then some d else best) none

/-- The filter shows the event. -/
def shows (filter : Filter) (e : Event) : Bool :=
  match (deciding? filter e).bind (·.limit) with
  | some level => decide (e.level.rank ≤ level.rank)
  | none => false

/-! ### The settings -/

/-- The usual filter. -/
def defaultFilter : Filter :=
  [⟨"secd::vm::exec".toList, .any, some .debug⟩, ⟨"secd::vm::loader".toList, .any, some .debug⟩,
   ⟨"secd::vm::heap".toList, .any, some .info⟩]

/-- What the surroundings say about the log: the switch, and a filter for when it holds none. -/
structure Settings where
  switch : Option String
  fallback : Option String
  deriving DecidableEq

/-- The filter in force, if the log is on. -/
def Settings.filter? (s : Settings) : Option Filter := do
  let switch ← s.switch
  if isOn switch then
    some ((((filterText? switch).or s.fallback).bind Log.filter?).getD defaultFilter)
  else none

/-- Those of some events that are shown; without a filter the log is off. -/
def visible (filter : Option Filter) (events : List Event) : List Event :=
  match filter with
  | some filter => events.filter (shows filter)
  | none => []

end Secd.Log
