import Secd.Cli.Directory
import Secd.Effect.Outcome
import Secd.Main

/-!
What an answer takes from files. The files of the program's own directory have plain names, and
under such a name there is that file or nothing. Other paths may lead around, but not to more:

      a plain name            the file of that name, or not found
      any path                a file of the directory, an empty device, the standard input,
                              a directory, or an error
      a path that names none  the same, whatever the other files hold

An answer depends on the paths that its request names, and on the standard input if the request
reads it. So it is enough to fetch these, and it does not matter whether a file is named or given on
the standard input.
-/

namespace Secd.Cli

namespace Directory

variable {d d' : Directory} {name path step : String} {location location' : Location}

/-! ### Plain names -/

/-- A file of a directory can have this name, and by itself the name leads to it. -/
structure Plain (name : String) : Prop where
  noSlash : '/' ∉ name.toList
  noStep : name ∉ ["", ".", ".."]
  short : name.utf8ByteSize ≤ nameMax

theorem steps_of_plain (plain : Plain name) : steps name = [name] := by
  have free : ∀ c ∈ name.toList, (c == '/') = false := by
    intro c mem
    rw [beq_eq_false_iff_ne]
    rintro rfl
    exact plain.noSlash mem
  rw [steps, List.splitOn, List.splitOnP_eq_singleton free, List.map_singleton,
    String.ofList_toList]

/-- What is no empty step and no dots is looked up in the directory. -/
theorem walk_home (noStep : step ∉ ["", ".", ".."]) : d.walk .home step = d.find .home step := by
  simp only [List.mem_cons, List.not_mem_nil, or_false, not_or] at noStep
  obtain ⟨notEmpty, notDot, notDots⟩ := noStep
  unfold walk
  split <;> simp_all

/-- Under a plain name there is the file of that name, or nothing. -/
theorem fileSystem_of_plain (plain : Plain name) :
    d.fileSystem name = match d.lookup name with
      | some content => .ok (.source (.bytes content))
      | none => .error .notFound := by
  have short : ¬ nameMax < name.utf8ByteSize := Nat.not_lt.2 plain.short
  have fits : ¬ pathMax < name.utf8ByteSize :=
    Nat.not_lt.2 (Nat.le_trans plain.short (by decide))
  have relative : name.toList.head? ≠ some '/' := fun slash =>
    plain.noSlash (List.mem_of_head? slash)
  rw [fileSystem, if_neg fits, if_neg relative, steps_of_plain plain]
  simp only [List.foldlM_cons, walk_home plain.noStep, find, if_neg short]
  cases d.lookup name <;> rfl

/-! ### All paths -/

/-- What is to be read at an entry is a file of the directory, if it is anything. -/
def Holds (d : Directory) (entry : Entry) : Prop :=
  ∀ content, entry = .source (.bytes content) → content = [] ∨ ∃ name, (name, content) ∈ d

theorem mem_of_lookup {content : List UInt8} (found : d.lookup name = some content) :
    (name, content) ∈ d := by
  obtain ⟨front, back, rfl, -⟩ := List.lookup_eq_some_iff.1 found
  exact List.mem_append_right _ List.mem_cons_self

/-- A device holds nothing of its own. -/
theorem holds_device {names : List String} {entry : Entry}
    (device : devices.lookup names = some (.ok entry)) : d.Holds entry := by
  obtain ⟨front, back, listed, -⟩ := List.lookup_eq_some_iff.1 device
  have mem : (names, .ok entry) ∈ devices := listed ▸ List.mem_append_right _ List.mem_cons_self
  simp only [devices, List.mem_cons, Prod.mk.injEq, Except.ok.injEq, reduceCtorEq, and_false,
    List.not_mem_nil, or_false] at mem
  rintro content rfl
  rcases mem with ⟨-, null⟩ | ⟨-, ⟨⟩⟩ | ⟨-, ⟨⟩⟩ | ⟨-, ⟨⟩⟩
  cases null
  exact .inl rfl

theorem holds_lookAway {names : List String} (away : lookAway names = .ok location) :
    d.Holds location.entry := by
  unfold lookAway at away
  split at away
  · rename_i opened device
    cases opened with
    | error cause => cases away
    | ok entry =>
      cases away
      exact holds_device device
  · split at away
    · cases away
      rintro content ⟨⟩
    · cases away

theorem holds_find (found : d.find location name = .ok location') : d.Holds location'.entry := by
  unfold find at found
  split at found
  · cases found
  · split at found
    · exact holds_lookAway found
    · split at found
      · rename_i content isFile
        cases found
        rintro _ ⟨⟩
        exact .inr ⟨name, mem_of_lookup isFile⟩
      · cases found

/-- No step of a path leads to anything else. -/
theorem holds_walk (holds : d.Holds location.entry)
    (walked : d.walk location step = .ok location') : d.Holds location'.entry := by
  unfold walk at walked
  split at walked
  · cases walked
  · cases walked
    exact holds
  · cases walked
    exact holds
  · cases walked
    rintro content ⟨⟩
  · cases walked
    rintro content ⟨⟩
  · exact holds_find walked

theorem holds_foldlM {steps : List String} (holds : d.Holds location.entry)
    (walked : steps.foldlM d.walk location = .ok location') : d.Holds location'.entry := by
  induction steps generalizing location with
  | nil =>
    cases walked
    exact holds
  | cons step steps ih =>
    obtain ⟨next, first, rest⟩ := Effect.exists_ok_of_bind walked
    exact ih (holds_walk holds first) rest

/-- Whatever the path, what is read by it is a file of the directory, if it is anything. -/
theorem holds_fileSystem {entry : Entry} (opened : d.fileSystem path = .ok entry) :
    d.Holds entry := by
  unfold fileSystem at opened
  split at opened
  · cases opened
  · obtain ⟨location, walked, reached⟩ := Effect.exists_ok_of_bind opened
    cases reached
    refine holds_foldlM ?_ walked
    -- both places in which a path can start are directories
    split <;> rintro content ⟨⟩

/-! ### Files that are not named -/

theorem find_congr (same : d.lookup name = d'.lookup name) (location : Location) :
    d.find location name = d'.find location name := by
  simp only [find, same]

theorem walk_congr (same : d.lookup step = d'.lookup step) (location : Location) :
    d.walk location step = d'.walk location step := by
  unfold walk
  split
  case h_6 => exact find_congr same _
  all_goals rfl

/-- A path cannot tell apart directories in which its steps stand for the same. -/
theorem fileSystem_congr (same : ∀ step ∈ steps path, d.lookup step = d'.lookup step) :
    d.fileSystem path = d'.fileSystem path := by
  have walks (start : Location) :
      (steps path).foldlM d.walk start = (steps path).foldlM d'.walk start := by
    generalize steps path = steps at same
    induction steps generalizing start with
    | nil => rfl
    | cons step steps ih =>
      obtain ⟨here, later⟩ := List.forall_mem_cons.1 same
      simp only [List.foldlM_cons, walk_congr here, fun next => ih next later]
  simp only [fileSystem, walks]

end Directory

namespace Invocation

variable {files files' : FileSystem} {args args' : List String} {stdin : List UInt8}
  {log : Log.Settings}

/-! ### Answers -/

theorem perform_congr {filter : Option Log.Filter} {command : Command} {o : Options}
    (same : ∀ path ∈ (Request.perform command o).paths, files path = files' path) :
    perform ⟨args, stdin, files, log⟩ filter command o =
      perform ⟨args, stdin, files', log⟩ filter command o := by
  obtain ⟨config, file⟩ := List.forall_mem_append.1 same
  have settings : capacities stdin files o = capacities stdin files' o := by
    unfold capacities
    cases configured : o.config with
    | none => rfl
    | some path => simp only [loadConfig, config path (by simp [configured])]
  have left : stdinAfter stdin files o.config = stdinAfter stdin files' o.config := by
    unfold stdinAfter
    cases configured : o.config with
    | none => rfl
    | some path => simp only [Option.map_some, config path (by simp [configured])]
  have input (stdin : List UInt8) :
      openInput stdin files o.file = openInput stdin files' o.file := by
    unfold openInput
    cases named : o.file with
    | none => rfl
    | some path => simp only [file path (by simp [named])]
  simp only [perform, settings, left, input]

/-- An answer depends only on what opening the paths gives that its request names. -/
theorem respond_congr
    (same : ∀ path ∈ (Request.parse? args).toList.flatMap Request.paths, files path = files' path) :
    respond ⟨args, stdin, files, log⟩ = respond ⟨args, stdin, files', log⟩ := by
  unfold respond
  cases request : Request.parse? args with
  | none => rfl
  | some asked =>
    rw [request, Option.toList_some, List.flatMap_singleton] at same
    cases asked with
    | version | help => rfl
    | perform command o => simp only [perform_congr same]

/-- Files of the directory that the request does not name do not matter. -/
theorem respond_of_same_files {d d' : Directory}
    (same : ∀ path ∈ (Request.parse? args).toList.flatMap Request.paths,
      ∀ step ∈ Directory.steps path, d.lookup step = d'.lookup step) :
    respond ⟨args, stdin, d.fileSystem, log⟩ = respond ⟨args, stdin, d'.fileSystem, log⟩ :=
  respond_congr fun path named => Directory.fileSystem_congr (same path named)

theorem opened_map {paths : List String} {path : String} (mem : path ∈ paths) :
    opened (paths.map fun path => (path, files path)) path = files path := by
  have found : (paths.map fun path => (path, files path)).lookup path = some (files path) := by
    induction paths with
    | nil => cases mem
    | cons other paths ih =>
      rw [List.map_cons, List.lookup_cons]
      by_cases same : path = other
      · rw [same, beq_self_eq_true]
      · rw [beq_false_of_ne same]
        exact ih ((List.mem_cons.1 mem).resolve_left same)
  rw [opened, found, Option.getD_some]

/-- What is neither named nor a dash is not read from the standard input. -/
theorem perform_of_unread {filter : Option Log.Filter} {command : Command} {o : Options}
    (unread : (Request.perform command o).readsStdin = false)
    (noInput : ∀ path, files path ≠ .ok .standardInput) (stdin' : List UInt8) :
    perform ⟨args, stdin, files, log⟩ filter command o =
      perform ⟨args, stdin', files, log⟩ filter command o := by
  have source (path : String) (stdin stdin' : List UInt8) :
      (files path).map (·.toSource stdin) = (files path).map (·.toSource stdin') := by
    match opened : files path with
    | .error cause => rfl
    | .ok (.source s) => rfl
    | .ok .standardInput => exact absurd opened (noInput path)
  have settings : capacities stdin files o = capacities stdin' files o := by
    unfold capacities
    cases o.config with
    | none => rfl
    | some path => simp only [loadConfig, source path stdin stdin']
  have input (stdin stdin' : List UInt8) :
      openInput stdin files o.file = openInput stdin' files o.file := by
    cases named : o.file with
    | none => simp [Request.readsStdin, named] at unread
    | some path =>
      have noDash : path ≠ "-" := by simpa [Request.readsStdin, named] using unread
      simp only [openInput, beq_false_of_ne noDash]
      match opened : files path with
      | .error cause => rfl
      | .ok (.source s) => rfl
      | .ok .standardInput => exact absurd opened (noInput path)
  simp only [perform, settings, input (stdinAfter stdin files o.config)
    (stdinAfter stdin' files o.config)]

/-- What is fetched for an answer is enough for it: the files at the paths that the request names,
and the standard input if the request reads it. -/
theorem respond_of_fetched (noInput : ∀ path, files path ≠ .ok .standardInput) :
    respond ⟨args, if (Request.parse? args).any Request.readsStdin then stdin else [],
        opened (((Request.parse? args).toList.flatMap Request.paths).map
          fun path => (path, files path)), log⟩ =
      respond ⟨args, stdin, files, log⟩ := by
  rw [respond_congr fun path named => opened_map named]
  unfold respond
  cases request : Request.parse? args with
  | none => rfl
  | some asked =>
    cases asked with
    | version | help => rfl
    | perform command o =>
      rw [Option.any_some]
      cases reads : (Request.perform command o).readsStdin with
      | true => rfl
      | false =>
        have same : perform ⟨args, [], files, log⟩ log.filter? command o =
            perform ⟨args, stdin, files, log⟩ log.filter? command o :=
          perform_of_unread reads noInput stdin
        exact congrArg Response.ofReport same

/-- A file of the directory can as well be given on the standard input. -/
theorem respond_of_file {d : Directory} {command : Command} {o : Options} {name : String}
    {content : List UInt8} (request : Request.parse? args = some (.perform command o))
    (noConfig : o.config = none) (named : o.file = some name) (plain : Directory.Plain name)
    (noDash : name ≠ "-") (found : d.lookup name = some content)
    (request' : Request.parse? args' = some (.perform command { o with file := none })) :
    respond ⟨args, stdin, d.fileSystem, log⟩ = respond ⟨args', content, files', log⟩ := by
  have opened : openInput stdin d.fileSystem (some name) = .ok (.bytes content) := by
    rw [openInput, if_neg (by simpa using noDash), Directory.fileSystem_of_plain plain, found]
    rfl
  have settings : capacities stdin d.fileSystem o =
      capacities content files' { o with file := none } := by
    rw [capacities, capacities, noConfig]
    rfl
  have noFile : openInput content files' none = .ok (.bytes content) := rfl
  have left (stdin : List UInt8) (files : FileSystem) : stdinAfter stdin files none = stdin := rfl
  simp only [respond, request, request', perform, settings, named, noConfig, left, opened, noFile]

/-- The same source in a file and on the standard input. -/
example (content : List UInt8) :
    respond ⟨["asm", "a.s"], [], Directory.fileSystem [("a.s", content)], ⟨none, none⟩⟩ =
      respond ⟨["asm"], content, Directory.fileSystem [], ⟨none, none⟩⟩ := by
  have request : Request.parse? ["asm", "a.s"] =
      some (.perform .assemble { file := some "a.s" }) := by decide +kernel
  have request' : Request.parse? ["asm"] = some (.perform .assemble {}) := by decide +kernel
  have plain : Directory.Plain "a.s" := ⟨by decide, by decide, by decide⟩
  exact respond_of_file request rfl rfl plain (by decide) rfl request'

end Invocation

end Secd.Cli
