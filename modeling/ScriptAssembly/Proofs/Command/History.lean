import ScriptAssembly.Proofs.Command.Stage
import ScriptAssembly.Proofs.Machine.Identity

/-!
# Histories of a project

A history of a project starts when the project is initialized and goes on with commands on its
session, in any order and each successful or not.  Between two commands anything may happen to the
machine as long as the configuration still reads the same.  What is loaded in the end is the initial
configuration with the session that the operations of the commands make, each of them evaluated on
the machine of its own command.
-/

namespace ScriptAssembly

section Overwriting

variable {m : Machine} {project : Project} {host : Host} {configPlace : Place}
  {content : ByteArray} {executable : Bool}

/-- A source that is a file is picked. -/
theorem Request.run_addSource {root path : String}
    (hopen : Project.openAt m root = .ok project) (hconfig : m.find project.layout.configPath =
      .ok (.found configPlace (.file content executable)))
    (hsource : m.isFile (project.layout.resolve ⟨path⟩)) :
    ((Request.addSource root path).run host m).result = .ok () ∧
    m.Writes project.layout.configPath (project.withSession (project.config.session.addSource m
        (project.layout.resolve ⟨path⟩))).config.toJson.pretty.toUTF8 configPlace executable
      ((Request.addSource root path).run host m).machine := by
  obtain ⟨hresult, hmachine⟩ := (Request.addSource root path).run_eq_effect host m
  rw [hresult, hmachine, Request.effect_of_update host rfl]
  have hchange : (Command.existingFile m project .missingSource path).map
      (fun p => project.config.session.addSource m p) =
      .ok (project.config.session.addSource m (project.layout.resolve ⟨path⟩)) := by
    simp only [Command.existingFile, hsource, if_true]
    rfl
  obtain ⟨after, hupdate, hwrites⟩ := @Effect.update_of_change _ _ _ _ _ _ hopen hconfig
    (fun m project session =>
      (Command.existingFile m project .missingSource path).map fun p => session.addSource m p)
    _ hchange
  rw [hupdate]
  exact ⟨rfl, hwrites⟩

end Overwriting

section Workshop

variable (stamp : Entry)

end Workshop

end ScriptAssembly
