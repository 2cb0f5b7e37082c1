import ScriptAssembly.Proofs.Build.Unread
import ScriptAssembly.Proofs.Command.Stage

/-!
# Interleaved requests

References, folders, symbols and the output of a session do not interfere with one another.  So
requests that pick and set them make a session that depends only on the requests of each kind in
their order, and saving in between changes nothing that a later request looks at.
-/

namespace ScriptAssembly

namespace Request

/-- The reference that the request picks. -/
def reference? : Request → Option String
  | .addReference _ path => some path
  | _ => none

/-- The folder that the request picks. -/
def folder? : Request → Option String
  | .addFolder _ path => some path
  | _ => none

/-- The symbols that the request sets. -/
def symbols? : Request → Option String
  | .setSymbols _ symbols => some symbols
  | _ => none

/-- The output that the request sets, as far as it is given. -/
def output? : Request → Option (Option String × Option Bool)
  | .setOutput _ name executable => some (name, executable)
  | _ => none

/-- The request picks a reference or a folder, or it sets the symbols or the output. -/
def picks : Request → Bool
  | .addReference .. | .addFolder .. | .setSymbols .. | .setOutput .. => true
  | _ => false

end Request

/-- A folder joins those that were picked, and its sources join theirs. -/
def Collector.pick (c : Collector) (m : Machine) (picked : PathSet × PathSet) (folder : Path) :
    PathSet × PathSet :=
  let folder := m.identity folder
  if picked.1.contains folder then picked
  else (picked.1.insert folder, picked.2.insertMany (c.collect m folder))

section

variable {m : Machine} {layout : Layout} {c : Collector} {s : Session} {requests : List Request}

theorem Session.addFolder_picked (folder : Path) :
    ((s.addFolder m c folder).folders, (s.addFolder m c folder).sources) =
      c.pick m (s.folders, s.sources) folder := by
  unfold addFolder Collector.pick
  cases hknown : s.folders.contains (m.identity folder) <;>
    simp only [hknown, if_true, if_false, Bool.false_eq_true]

theorem Session.addFolder_others (folder : Path) :
    (s.addFolder m c folder).references = s.references ∧
      (s.addFolder m c folder).symbols = s.symbols ∧
      (s.addFolder m c folder).outputName = s.outputName ∧
      (s.addFolder m c folder).outputKind = s.outputKind := by
  unfold addFolder
  dsimp only
  split <;> exact ⟨rfl, rfl, rfl, rfl⟩

/-- The session that the requests make of another one. -/
def Session.picking (m : Machine) (layout : Layout) (c : Collector) (requests : List Request)
    (s : Session) : Session :=
  requests.foldl (fun s request => request.operation m layout c s) s

/-- A part of the session that only one kind of requests changes is made by those alone. -/
theorem view_picking {α β : Type} (view : Session → α) (read : Request → Option β)
    (put : α → β → α) (hstep : ∀ request s, request.picks →
      view (request.operation m layout c s) = (read request).elim (view s) (put (view s)))
    (hpicks : ∀ request ∈ requests, request.picks) :
    view (s.picking m layout c requests) = (requests.filterMap read).foldl put (view s) := by
  induction requests generalizing s with
  | nil => rfl
  | cons request requests ih =>
      have hrest := fun request hmem => hpicks request (List.mem_cons_of_mem _ hmem)
      have hfirst : s.picking m layout c (request :: requests) =
          (request.operation m layout c s).picking m layout c requests := rfl
      rw [hfirst, ih hrest, hstep request s (hpicks request List.mem_cons_self)]
      cases hread : read request <;> simp [hread]

theorem references_picking (hpicks : ∀ request ∈ requests, request.picks) :
    (s.picking m layout c requests).references =
      (requests.filterMap Request.reference?).foldl
        (fun references path => references.insert (m.identity (layout.resolve ⟨path⟩)))
        s.references := by
  refine view_picking Session.references Request.reference? _ (fun request s hhere => ?_) hpicks
  cases request with
  | addReference root path => rfl
  | addFolder root path => exact (Session.addFolder_others _).1
  | setSymbols root symbols => rfl
  | setOutput root name executable => cases name <;> cases executable <;> rfl
  | _ => cases hhere

theorem picked_picking (hpicks : ∀ request ∈ requests, request.picks) :
    ((s.picking m layout c requests).folders, (s.picking m layout c requests).sources) =
      (requests.filterMap Request.folder?).foldl
        (fun picked path => c.pick m picked (layout.resolve ⟨path⟩)) (s.folders, s.sources) := by
  refine view_picking (fun s => (s.folders, s.sources)) Request.folder? _ (fun request s hhere => ?_)
    hpicks
  cases request with
  | addReference root path => rfl
  | addFolder root path => exact Session.addFolder_picked _
  | setSymbols root symbols => rfl
  | setOutput root name executable => cases name <;> cases executable <;> rfl
  | _ => cases hhere

theorem symbols_picking (hpicks : ∀ request ∈ requests, request.picks) :
    (s.picking m layout c requests).symbols =
      (requests.filterMap Request.symbols?).foldl (fun _ text => .parse text) s.symbols := by
  refine view_picking Session.symbols Request.symbols? _ (fun request s hhere => ?_) hpicks
  cases request with
  | addReference root path => rfl
  | addFolder root path => exact (Session.addFolder_others _).2.1
  | setSymbols root symbols => rfl
  | setOutput root name executable => cases name <;> cases executable <;> rfl
  | _ => cases hhere

theorem output_picking (hpicks : ∀ request ∈ requests, request.picks) :
    ((s.picking m layout c requests).outputName, (s.picking m layout c requests).outputKind) =
      (requests.filterMap Request.output?).foldl
        (fun output asked => (asked.1.getD output.1, (asked.2.map OutputKind.ofFlag).getD output.2))
        (s.outputName, s.outputKind) := by
  refine view_picking (fun s => (s.outputName, s.outputKind)) Request.output? _
    (fun request s hhere => ?_) hpicks
  cases request with
  | addReference root path => rfl
  | addFolder root path =>
      obtain ⟨-, -, hname, hkind⟩ := @Session.addFolder_others m c s (layout.resolve ⟨path⟩)
      exact Prod.ext hname hkind
  | setSymbols root symbols => rfl
  | setOutput root name executable => cases name <;> cases executable <;> rfl
  | _ => cases hhere

theorem Session.ext_parts {s t : Session} (hreferences : s.references = t.references)
    (hpicked : (s.folders, s.sources) = (t.folders, t.sources)) (hsymbols : s.symbols = t.symbols)
    (houtput : (s.outputName, s.outputKind) = (t.outputName, t.outputKind)) : s = t := by
  cases s
  cases t
  simp_all

/-- How requests of different kinds are interleaved makes no difference. -/
theorem picking_congr {others : List Request} (hpicks : ∀ request ∈ requests, request.picks)
    (hothers : ∀ request ∈ others, request.picks)
    (hreferences : requests.filterMap Request.reference? = others.filterMap Request.reference?)
    (hfolders : requests.filterMap Request.folder? = others.filterMap Request.folder?)
    (houtput : requests.filterMap Request.output? = others.filterMap Request.output?)
    (hsymbols : (s.picking m layout c requests).symbols = (s.picking m layout c others).symbols) :
    s.picking m layout c requests = s.picking m layout c others := by
  refine Session.ext_parts ?_ ?_ hsymbols ?_
  · rw [references_picking hpicks, references_picking hothers, hreferences]
  · rw [picked_picking hpicks, picked_picking hothers, hfolders]
  · rw [output_picking hpicks, output_picking hothers, houtput]

end

/-! ## Running the requests -/

namespace Request

/-- What a request looks at stays the same while files are written anew. -/
theorem operation_congr {m other : Machine} (halike : m.Alike other) {request : Request}
    (hpicks : request.picks) (layout : Layout) (c : Collector) (s : Session) :
    request.operation other layout c s = request.operation m layout c s := by
  cases request with
  | addReference root path => simp only [operation, Session.addReference, halike.identity]
  | addFolder root path =>
      simp only [operation, Session.addFolder, halike.identity, halike.collect]
  | setSymbols root symbols => rfl
  | setOutput root name executable => rfl
  | _ => cases hpicks

/-- The machine after the requests, if each of them succeeds. -/
def runAll (host : Host) : Machine → List Request → Except CommandError Machine
  | m, [] => .ok m
  | m, request :: requests =>
    match (request.run host m).result with
    | .ok _ => runAll host (request.run host m).machine requests
    | .error e => .error e

/-- The request picks something for the project at a root, and nothing keeps it from it. -/
structure Sound (m : Machine) (root : Path) (request : Request) : Prop where
  /-- The request picks something. -/
  picks : request.picks
  /-- The user names the root. -/
  named : ∃ name, request.sessionRoot? = some name ∧ m.namedRoot name = .ok root
  /-- A reference is a file. -/
  isFile : ∀ path, request.reference? = some path → m.isFile ((Layout.mk root).resolve ⟨path⟩)
  /-- The name of the output is not blank. -/
  written : ∀ name executable, request.output? = some (some name, executable) →
    Text.trim name.toList ≠ []

theorem Sound.of_alike {m other : Machine} {root : Path} {request : Request}
    (hsound : request.Sound m root) (halike : m.Alike other) : request.Sound other root where
  picks := hsound.picks
  named := by
    obtain ⟨name, hname, hroot⟩ := hsound.named
    exact ⟨name, hname, (halike.namedRoot name).trans hroot⟩
  isFile path hpath := by
    rw [halike.isFile]
    exact hsound.isFile path hpath
  written := hsound.written

theorem Sound.change {m : Machine} {root : Path} {request : Request}
    (hsound : request.Sound m root) (config : Config) :
    ∃ name change, request.update? = some (name, change) ∧ m.namedRoot name = .ok root ∧
      change m ⟨⟨root⟩, config⟩ config.session = .ok
        (request.operation m ⟨root⟩ (.ofExtension config.sourceExtension) config.session) := by
  obtain ⟨name, hname, hroot⟩ := hsound.named
  have hpicks := hsound.picks
  cases request with
  | addReference root' path =>
      cases hname
      have hfile := hsound.isFile path rfl
      refine ⟨_, _, rfl, hroot, ?_⟩
      simp only [Command.existingFile, hfile, if_true]
      rfl
  | addFolder root' path =>
      cases hname
      exact ⟨_, _, rfl, hroot, rfl⟩
  | setSymbols root' symbols =>
      cases hname
      exact ⟨_, _, rfl, hroot, rfl⟩
  | setOutput root' output executable =>
      cases hname
      refine ⟨_, _, rfl, hroot, ?_⟩
      cases output with
      | none => cases executable <;> rfl
      | some output =>
          simp only [Command.rename, hsound.written output executable rfl, if_false]
          cases executable <;> rfl
  | _ => cases hpicks

variable {host : Host} {start m : Machine} {root : Path} {config : Config} {place : Place}
  {content : ByteArray} {executable : Bool}

/-- A sound request saves the session that its operation makes, and nothing else. -/
theorem Sound.run {request : Request} (hsound : request.Sound m root)
    (hconfig : m.find (Layout.mk root).configPath = .ok (.found place (.file content executable)))
    (hload : Project.load m root = .ok ⟨⟨root⟩, config⟩) :
    (request.run host m).result = .ok () ∧
      m.SameApart (· = place) (request.run host m).machine ∧
      (request.run host m).machine.readText (Layout.mk root).configPath = .ok (config.withSession
        (request.operation m ⟨root⟩ (.ofExtension config.sourceExtension)
          config.session)).toJson.pretty := by
  obtain ⟨name, change, hupdate, hroot, hchange⟩ := hsound.change config
  have hopen : Project.openAt m name = .ok ⟨⟨root⟩, config⟩ :=
    Project.openAt_eq_ok_iff.mpr ⟨root, hroot, hload⟩
  obtain ⟨after, hafter, hwrites⟩ := Effect.update_of_change hopen hconfig hchange
  obtain ⟨hresult, hmachine⟩ := request.run_eq_effect host m
  rw [effect_of_update host hupdate, hafter] at hresult hmachine
  rw [hresult, hmachine]
  exact ⟨rfl, hwrites.sameApart hconfig, Machine.readText_of_find hwrites.find_written⟩

/-- Sound requests all succeed, and together they save the session that their operations make on the
machine as it was before the first of them. -/
theorem runAll_of_sound {requests : List Request}
    (hsound : ∀ request ∈ requests, request.Sound start root)
    (hconfig : start.find (Layout.mk root).configPath =
      .ok (.found place (.file content executable)))
    (hsame : start.SameApart (· = place) m)
    (hload : Project.load m root = .ok ⟨⟨root⟩, config⟩) :
    ∃ after, runAll host m requests = .ok after ∧ start.SameApart (· = place) after ∧
      let config' := config.withSession (config.session.picking start ⟨root⟩
        (.ofExtension config.sourceExtension) requests)
      Project.load after root = .ok ⟨⟨root⟩, config'⟩ ∧
      (requests ≠ [] → after.readText (Layout.mk root).configPath = .ok config'.toJson.pretty) := by
  induction requests generalizing m config with
  | nil => exact ⟨m, rfl, hsame, hload, fun hnone => absurd rfl hnone⟩
  | cons request requests ih =>
      -- Each request runs on a machine of its own, but all of them are alike to the first one.
      have hhere := (hsound request List.mem_cons_self).of_alike hsame.alike
      obtain ⟨held, hheld⟩ := hsame.alike.find_file hconfig
      obtain ⟨hresult, hnext, hread⟩ := @Sound.run host _ _ _ _ _ _ _ hhere hheld hload
      rw [operation_congr hsame.alike hhere.picks] at hread
      have hsaved := Project.load_of_readText hread
      obtain ⟨after, hrun, hafter, hloaded, hwritten⟩ :=
        ih (fun request hmem => hsound request (List.mem_cons_of_mem _ hmem))
          (hsame.trans hnext) hsaved
      refine ⟨after, ?_, hafter, hloaded, fun _ => ?_⟩
      · rw [runAll, hresult]
        exact hrun
      · cases requests with
        | nil =>
            cases hrun
            exact hread
        | cons request requests => exact hwritten (List.cons_ne_nil request requests)

end Request

end ScriptAssembly
