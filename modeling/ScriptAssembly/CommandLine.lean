import ScriptAssembly.Command.Request

/-!
# The command line

Arguments are read into a request by a table: every command has options with a value and flags
without one, each given at most once, as `--name value` or `--name=value`.  A value may start with a
dash only behind an equals sign or where the option says so.
-/

namespace ScriptAssembly

namespace CommandLine

/-- What an option takes. -/
inductive Takes where
  /-- Nothing: it is a flag. -/
  | nothing
  /-- A value. -/
  | value
  /-- A value that may start with a dash. -/
  | anyValue
  /-- `true` or `false`. -/
  | truth
deriving DecidableEq

/-- An option of a command. -/
structure Switch where
  /-- The name behind the two dashes. -/
  name : String
  /-- What it takes. -/
  takes : Takes

/-- The options given to a command, with their values; a flag has an empty value. -/
abbrev Given := List (String × String)

/-- Why the arguments are no request. -/
inductive Other where
  /-- The version is asked for. -/
  | version
  /-- Help is asked for. -/
  | help
  /-- The arguments are wrong. -/
  | usage
deriving DecidableEq, Repr

/-- A command that can be named on the command line. -/
structure Form where
  /-- The name of the command. -/
  name : String
  /-- What it does. -/
  about : String
  /-- Its options. -/
  switches : List Switch
  /-- The request for the options given; nothing if one is missing or has a value that does not
  fit. -/
  request? : Given → Option Request

/-- The root a project command works on. -/
def rootOf (given : Given) : String := (given.lookup "root").getD "."

/-- A flag is given. -/
def has (given : Given) (name : String) : Bool := (given.lookup name).isSome

/-- A truth value as it is written on the command line. -/
def truth? (value : String) : Option Bool :=
  if value = "true" then some true else if value = "false" then some false else none

/-- The option that names the root of a project. -/
def rootSwitch : Switch := ⟨"root", .value⟩

/-- The flag that asks for JSON. -/
def jsonSwitch : Switch := ⟨"json", .nothing⟩

/-- A command on one path of a project. -/
def pathForm (name about : String) (make : String → String → Request) : Form where
  name
  about
  switches := [rootSwitch, ⟨"path", .value⟩]
  request? given := (given.lookup "path").map (make (rootOf given))

/-- A command that only describes a project. -/
def viewForm (name about : String) (make : String → Bool → Request) : Form where
  name
  about
  switches := [rootSwitch, jsonSwitch]
  request? given := some (make (rootOf given) (has given "json"))

/-- All commands. -/
def forms : List Form := [
  { name := "init-project"
    about := "Initialize a new project at the given root"
    switches := [rootSwitch, ⟨"name", .value⟩]
    request? := fun given => some (.initProject (rootOf given) (given.lookup "name")) },
  viewForm "project-info" "Show basic information about a project" .projectInfo,
  pathForm "add-reference" "Add a reference binary to link against" .addReference,
  pathForm "remove-reference" "Remove a reference binary" .removeReference,
  pathForm "add-folder" "Add every source file under a folder" .addFolder,
  pathForm "remove-folder" "Forget a folder root; its sources stay" .removeFolder,
  pathForm "add-source" "Add a single source file" .addSource,
  pathForm "remove-source" "Remove a single source file" .removeSource,
  viewForm "list-inputs" "List references, folders, sources and symbols" .listInputs,
  { name := "set-symbols"
    about := "Replace the define symbols"
    switches := [rootSwitch, ⟨"symbols", .anyValue⟩]
    request? := fun given => (given.lookup "symbols").map (.setSymbols (rootOf given)) },
  { name := "set-output"
    about := "Set the name and the kind of the binary"
    switches := [rootSwitch, ⟨"name", .value⟩, ⟨"executable", .truth⟩]
    request? := fun given =>
      match given.lookup "executable" with
      | none => some (.setOutput (rootOf given) (given.lookup "name") none)
      | some value =>
        (truth? value).map fun executable =>
          .setOutput (rootOf given) (given.lookup "name") (some executable) },
  viewForm "scan" "Scan sources for define symbols and save them" .scan,
  { name := "build"
    about := "Scan for define symbols, then compile the sources"
    switches := [rootSwitch, ⟨"backend", .value⟩, ⟨"skip-scan", .nothing⟩, jsonSwitch]
    request? := fun given =>
      some (.build (rootOf given) (given.lookup "backend") (has given "skip-scan")
        (has given "json")) },
  { name := "build-manifest"
    about := "Build from a manifest without a project"
    switches := [⟨"manifest", .value⟩, ⟨"backend", .value⟩, jsonSwitch]
    request? := fun given =>
      (given.lookup "manifest").map fun manifest =>
        .buildManifest manifest (given.lookup "backend") (has given "json") },
  { name := "list-backends"
    about := "List the compiler backends"
    switches := [jsonSwitch]
    request? := fun given => some (.listBackends (has given "json")) }]

/-- The name of an option and the value behind an equals sign, if there is one. -/
def cutValue (argument : List Char) : List Char × Option (List Char) :=
  let name := argument.takeWhile (· ≠ '=')
  match argument.dropWhile (· ≠ '=') with
  | [] => (name, none)
  | _ :: value => (name, some value)

/-- An argument that cannot be the value of an option: it starts with a dash and has more to it. -/
def isDashed (argument : String) : Bool :=
  match argument.toList with
  | '-' :: _ :: _ => true
  | _ => false

/-- The option of a form with this name. -/
def Form.switch? (form : Form) (name : List Char) : Option Switch :=
  form.switches.find? fun switch => switch.name.toList = name

/-- A value that an option accepts. -/
def Takes.accepts (takes : Takes) (value : String) : Bool :=
  takes ≠ .truth ∨ (truth? value).isSome

/-- The options given to a command, in reverse order.  The first fault decides, so that help behind
one is not given. -/
def options (form : Form) (given : Given) : List String → Except Other Given
  | [] => .ok given
  | argument :: rest =>
    match argument.toList with
    | ['-', '-'] => if rest.isEmpty then .ok given else .error .usage
    | '-' :: '-' :: option =>
      let (name, value) := cutValue option
      match form.switch? name, value with
      | none, value => if name = "help".toList ∧ value = none then .error .help else .error .usage
      | some switch, value =>
        if has given switch.name then .error .usage
        else
          match switch.takes, value with
          | .nothing, none => options form ((switch.name, "") :: given) rest
          | .nothing, some _ => .error .usage
          | takes, some value =>
            let value := String.ofList value
            if takes.accepts value then options form ((switch.name, value) :: given) rest
            else .error .usage
          | takes, none =>
            match rest with
            | [] => .error .usage
            | next :: rest =>
              if (takes ≠ .anyValue ∧ isDashed next) ∨ !takes.accepts next then .error .usage
              else options form ((switch.name, next) :: given) rest
    | '-' :: 'h' :: _ => .error .help
    | _ => .error .usage

/-- Help may be asked for on all commands or on one. -/
def isHelpTopic : List String → Bool
  | [] => true
  | [topic] => topic = "help" || forms.any fun form => form.name = topic
  | _ => false

/-- The request in the arguments. -/
def parse : List String → Except Other Request
  | [] => .error .usage
  | argument :: rest =>
    if argument = "--version" then .error .version
    else if argument = "--help" then .error .help
    else if argument = "help" then .error (if isHelpTopic rest then .help else .usage)
    else
      match argument.toList with
      | '-' :: 'V' :: _ => .error .version
      | '-' :: 'h' :: _ => .error .help
      | _ =>
        match forms.find? fun form => form.name = argument with
        | none => .error .usage
        | some form => do
          let given ← options form [] rest
          match form.request? given with
          | some request => return request
          | none => throw .usage

/-- The version of the program. -/
def version : String := "0.1.0"

/-- What help is given. -/
def helpText : String :=
  "Scan C# sources for define symbols and compile them into a DLL\n\n" ++
  "Usage: dll-forge <COMMAND>\n\nCommands:\n" ++
  String.join (forms.map fun form => s!"  {form.name}: {form.about}\n")

end CommandLine

/-- What a run of the program leaves behind. -/
structure Exit where
  /-- The exit code. -/
  code : UInt32
  /-- What was written to the standard output. -/
  output : String
  /-- What was written to the standard error output. -/
  errors : String
  /-- The machine afterwards. -/
  machine : Machine

namespace CommandLine

/-- Runs the program with arguments. -/
def run (host : Host) (arguments : List String) (m : Machine) : Exit :=
  match parse arguments with
  | .error .version => ⟨0, s!"dll-forge {version}\n", "", m⟩
  | .error .help => ⟨0, helpText, "", m⟩
  | .error .usage => ⟨2, "", helpText, m⟩
  | .ok request =>
    let report := request.run host m
    match report.result with
    | .ok () => ⟨0, report.printed, "", report.machine⟩
    | .error e => ⟨1, report.printed, s!"Error: {e.message}\n", report.machine⟩

end CommandLine

end ScriptAssembly
