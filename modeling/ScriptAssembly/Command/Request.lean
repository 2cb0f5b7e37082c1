import ScriptAssembly.Command.Manifest
import ScriptAssembly.Command.Project

/-!
# Requests

What a user can ask for, and the command that answers it.
-/

namespace ScriptAssembly

/-- What a user can ask for. -/
inductive Request where
  | initProject (root : String) (name : Option String)
  | projectInfo (root : String) (json : Bool)
  | addReference (root path : String)
  | removeReference (root path : String)
  | addFolder (root path : String)
  | removeFolder (root path : String)
  | addSource (root path : String)
  | removeSource (root path : String)
  | listInputs (root : String) (json : Bool)
  | setSymbols (root symbols : String)
  | setOutput (root : String) (name : Option String) (executable : Option Bool)
  | scan (root : String) (json : Bool)
  | build (root : String) (backend : Option String) (skipScan json : Bool)
  | buildManifest (manifest : String) (backend : Option String) (json : Bool)
  | listBackends (json : Bool)
deriving DecidableEq, Repr

/-- The command that answers a request. -/
def Request.command (host : Host) : Request → Command Unit
  | .initProject root name => Command.initProject root name
  | .projectInfo root json => Command.projectInfo root json
  | .addReference root path => Command.addReference root path
  | .removeReference root path => Command.removeReference root path
  | .addFolder root path => Command.addFolder root path
  | .removeFolder root path => Command.removeFolder root path
  | .addSource root path => Command.addSource root path
  | .removeSource root path => Command.removeSource root path
  | .listInputs root json => Command.listInputs root json
  | .setSymbols root symbols => Command.setSymbols root symbols
  | .setOutput root name executable => Command.setOutput root name executable
  | .scan root json => Command.scan root json
  | .build root backend skipScan json => Command.build host root backend skipScan json
  | .buildManifest manifest backend json => Command.buildManifest host manifest backend json
  | .listBackends json => Command.listBackends host json

/-- What a command left behind: its result, the machine, and what it printed. -/
structure Report where
  /-- Nothing, or why the command failed. -/
  result : Except CommandError Unit
  /-- The machine afterwards. -/
  machine : Machine
  /-- What the command printed. -/
  printed : String

/-- Answers a request on a machine. -/
def Request.run (host : Host) (request : Request) (m : Machine) : Report :=
  let (result, world) := ((request.command host).run).run ⟨m, ""⟩
  ⟨result, world.machine, world.printed⟩

end ScriptAssembly
