import Secd.Capacities
import Secd.Text.Numeral

/-!
The arguments of the command line. Without a subcommand a program is run; `asm` and `disasm` are the
subcommands. What decides about the sizes of the machine may stand before or after the subcommand,
once in either place, and after it has the last word.

    secd [--stats] [OPTIONS] [FILE]            run bytecode
    secd [OPTIONS] asm [OPTIONS] [FILE]        assemble
    secd [OPTIONS] disasm [OPTIONS] [FILE]     list bytecode
    secd [OPTIONS] help [TOPIC]                explain

Arguments are read from left to right, and the first that makes no sense ends the reading. A request
for the version or for help ends it as well, so it hides mistakes only if they come later.
-/

namespace Secd.Cli

/-- What the program can be told to do with its input. -/
inductive Command where
  | run | assemble | disassemble
  deriving DecidableEq

/-- The settings that take a value. -/
inductive Setting where
  | config
  | size (segment : Segment)
  deriving DecidableEq

/-- The setting with a given name. -/
def Setting.ofName? (name : List Char) : Option Setting :=
  ([("config", .config), ("code-size", .size .code), ("stack-size", .size .stack),
    ("dump-size", .size .dump), ("heap-size", .size .heap)] : List (String × Setting)).find?
      (fun (known, _) => known.toList == name) |>.map (·.2)

/-- What was given before the subcommand, or after it. -/
structure Options where
  config : Option String := none
  sizes : List (Segment × Nat) := []
  stats : Bool := false
  file : Option String := none
  deriving DecidableEq

namespace Options

/-- Takes a value for a setting, which is given once. A path is not empty, a size is a numeral. -/
def give? (o : Options) (setting : Setting) (value : String) : Option Options :=
  match setting with
  | .config =>
    if o.config.isSome || value.isEmpty then none else some { o with config := some value }
  | .size segment =>
    match Numeral.size value.toList with
    | .ok n =>
      if (o.sizes.lookup segment).isSome then none
      else some { o with sizes := (segment, n) :: o.sizes }
    | .error _ => none

/-- Takes the path of the input. There is one at most, and it is not empty. -/
def giveFile? (o : Options) (path : String) : Option Options :=
  if o.file.isSome || path.isEmpty then none else some { o with file := some path }

/-- Takes several paths. -/
def giveFiles? (o : Options) (paths : List String) : Option Options := paths.foldlM giveFile? o

/-- The options with those given after the subcommand, which go first. -/
def override (before after : Options) : Options where
  config := after.config.or before.config
  sizes := after.sizes ++ before.sizes
  stats := before.stats
  file := after.file

/-- The capacities with the sizes that were given. -/
def resize (o : Options) (caps : Capacities) : Capacities :=
  [Segment.code, .stack, .dump, .heap].foldl (fun caps segment =>
    match o.sizes.lookup segment with
    | some size => caps.set size segment
    | none => caps) caps

end Options

/-- What a command line asks for. -/
inductive Request where
  | version
  | help
  | perform (command : Command) (options : Options)
  deriving DecidableEq

/-- The shapes of an argument. -/
inductive Shape where
  /-- Two dashes: only paths follow. -/
  | divider
  /-- A name behind two dashes, perhaps with a value behind an equals sign. -/
  | long (name : List Char) (value : Option String)
  /-- Letters behind one dash. -/
  | short (letter : Char)
  /-- Anything else: a subcommand, a path or a value. A single dash is one of these. -/
  | plain
  deriving DecidableEq

/-- The shape of an argument. -/
def Shape.of (arg : String) : Shape :=
  match arg.toList with
  | ['-', '-'] => .divider
  | '-' :: '-' :: cs =>
    .long (cs.takeWhile (· != '='))
      (match cs.dropWhile (· != '=') with
       | [] => none
       | _ :: value => some (String.ofList value))
  | '-' :: c :: _ => .short c
  | _ => .plain

/-- The flags that take no value. -/
inductive Flag where
  | help | version | stats
  deriving DecidableEq

/-- The part of the command line that an argument stands in: before any subcommand, or after one,
which is known together with the options before it. -/
inductive Scope where
  | top
  | sub (command : Command) (before : Options)
  deriving DecidableEq

namespace Scope

/-- The request that the options of this part complete. -/
def finish : Scope → Options → Request
  | top, o => .perform .run o
  | sub command before, o => .perform command (before.override o)

/-- The flag with a given name; only help can be asked for after a subcommand. -/
def flag? (scope : Scope) (name : List Char) : Option Flag :=
  if name == "help".toList then some .help
  else match scope with
    | sub _ _ => none
    | top =>
      if name == "version".toList then some .version
      else if name == "stats".toList then some .stats
      else none

/-- The flag with a given letter. -/
def letter? (scope : Scope) (letter : Char) : Option Flag :=
  match scope, letter with
  | _, 'h' => some .help
  | top, 'V' => some .version
  | _, _ => none

/-- The subcommand with a given name, where there can be one. -/
def subcommand? (scope : Scope) (name : String) : Option Command :=
  match scope, name with
  | top, "asm" => some .assemble
  | top, "disasm" => some .disassemble
  | _, _ => none

end Scope

namespace Request

/-- The names that help can be asked about. -/
def topics : List String := ["asm", "disasm", "help"]

/-- The request behind the word `help`: help in general, or about one topic. -/
def helpFor? (args : List String) : Option Request :=
  match args with
  | [] => some .help
  | [topic] => if topics.contains topic then some .help else none
  | _ => none

/-- The command line from an argument on. -/
def parseFrom (scope : Scope) (o : Options) : List String → Option Request
  | [] => some (scope.finish o)
  | arg :: rest =>
    match Shape.of arg with
    | .divider => do return scope.finish (← o.giveFiles? rest)
    | .short letter =>
      match scope.letter? letter with
      | some .help => some .help
      | some .version => some .version
      | _ => none
    | .plain =>
      match scope.subcommand? arg with
      | some command => parseFrom (.sub command o) {} rest
      | none =>
        if scope == .top && arg == "help" then helpFor? rest
        else do parseFrom scope (← o.giveFile? arg) rest
    | .long name value =>
      match scope.flag? name, Setting.ofName? name, value with
      | some .help, _, none => some .help
      | some .version, _, none => some .version
      | some .stats, _, none =>
        if o.stats then none else parseFrom scope { o with stats := true } rest
      | none, some setting, some value => do parseFrom scope (← o.give? setting value) rest
      | none, some setting, none =>
        match rest with
        | [] => none
        | value :: rest =>
          if Shape.of value == .plain then do parseFrom scope (← o.give? setting value) rest
          else none
      | _, _, _ => none

/-- What the arguments ask for; nothing, if they make no sense. -/
def parse? (args : List String) : Option Request := parseFrom .top {} args

end Request

end Secd.Cli
