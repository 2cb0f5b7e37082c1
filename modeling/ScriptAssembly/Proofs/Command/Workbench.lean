import ScriptAssembly.Proofs.Command.Standpoint

/-!
# The project of a build that cannot scan

A build takes the session out of its project while it reads the sources, and puts it back with the
symbols they ask for.  Where a source cannot be read the build ends in between: the project keeps an
empty session, and to save it then loses all inputs.
-/

namespace ScriptAssembly

variable {m : Machine} {project : Project} {host : Host} {asked : Option String}
  {bench after : Workbench} {e : ScanError}

/-- A project that cannot be saved is not for want of a source. -/
theorem Project.run_save_ne_scan (project : Project) (m : Machine) (e : ScanError) :
    ((project.save.run).run m).1 ≠ .error (.scan e) := by
  simp only [save, run_bind, run_get]
  rcases m.makeDirectories project.layout.metaDirectory with ⟨machine, cause | -⟩
  · simp only [run_set]
    rintro ⟨⟩
  · simp only [run_set]
    cases machine.writeFile project.layout.configPath project.config.toJson.pretty.toUTF8 with
    | error cause => rintro ⟨⟩
    | ok written => rintro ⟨⟩

namespace Effect

theorem save_ne_scan (project : Project) (m : Machine) (e : ScanError) :
    (save project m).1 ≠ .error (.scan e) := by
  have hsave := project.run_save_ne_scan m e
  unfold save ofAction
  generalize (project.save.run).run m = saved at hsave ⊢
  obtain ⟨cause | -, written⟩ := saved
  · exact hsave
  · rintro ⟨⟩

/-- What is built has been scanned already. -/
theorem compile_ne_scan (host : Host) (asked : Option String) (project : Project) (m : Machine)
    (e : ScanError) : (compile host asked project m).1 ≠ .error (.scan e) := by
  simp only [compile, andThen, ofCheck, Command.selectBackend]
  split
  · rename_i backend written hselect
    unfold ofAction
    split
    · rintro ⟨⟩
    · rintro ⟨⟩
  · rename_i cause written hselect
    split at hselect
    · cases hselect
    · cases hselect
      rintro ⟨⟩

end Effect

namespace Workbench

/-- The session is put back only with the symbols of its sources. -/
theorem run_rescan_eq (bench : Workbench) :
    (rescan.run).run bench =
      match bench.project.config.session.rescan bench.world.machine with
      | .error e => (.error (.scan e), { bench with project := bench.project.withSession .empty })
      | .ok scanned =>
        ((Effect.save (bench.project.withSession scanned) bench.world.machine).1,
          ⟨⟨(Effect.save (bench.project.withSession scanned) bench.world.machine).2,
            bench.world.printed⟩, bench.project.withSession scanned⟩) := by
  obtain ⟨⟨m, printed⟩, project⟩ := bench
  simp only [rescan, takeSession, run_bind, run_get, run_set, run_pure]
  cases project.config.session.rescan m with
  | error e => rfl
  | ok scanned =>
      have hscanned : (project.withSession .empty).withSession scanned =
          project.withSession scanned := rfl
      simp only [run_bind, run_modify, run_get, hscanned, Command.save, Command.run_command]
      rfl

/-- An empty session has nothing that could not be read. -/
theorem session_ne_empty (hscan : project.config.session.rescan m = .error e) :
    project.withSession .empty ≠ project := by
  intro hsame
  have hempty : project.config.session = .empty :=
    congrArg (fun project => project.config.session) hsame.symm
  rw [hempty] at hscan
  cases hscan

theorem run_runBuild_of_unread
    (hscan : bench.project.config.session.rescan bench.world.machine = .error e) :
    ((Command.runBuild host asked false).run).run bench =
      (.error (.scan e), { bench with project := bench.project.withSession .empty }) := by
  rw [Command.runBuild_scanned, run_bind, run_rescan_eq, hscan]

/-- A build that fails for want of a source has scanned, and this source could not be read. -/
theorem unread_of_run_runBuild {skipScan : Bool}
    (hrun : ((Command.runBuild host asked skipScan).run).run bench = (.error (.scan e), after)) :
    skipScan = false ∧ bench.project.config.session.rescan bench.world.machine = .error e := by
  obtain ⟨⟨m, printed⟩, project⟩ := bench
  cases skipScan with
  | true =>
      rw [Command.run_runBuild_unscanned] at hrun
      exact absurd (congrArg Prod.fst hrun) (Effect.compile_ne_scan host asked project m e)
  | false =>
      refine ⟨rfl, ?_⟩
      rw [Command.runBuild_scanned, run_bind, run_rescan_eq] at hrun
      dsimp only at hrun ⊢
      cases hscan : project.config.session.rescan m with
      | error cause =>
          rw [hscan] at hrun
          cases hrun
          rfl
      | ok scanned =>
          rw [hscan] at hrun
          have hsave := Effect.save_ne_scan (project.withSession scanned) m e
          dsimp only at hrun
          generalize Effect.save (project.withSession scanned) m = saved at hrun hsave
          obtain ⟨cause | ⟨⟩, written⟩ := saved
          · dsimp only at hrun
            rw [Prod.mk.injEq, Except.error.injEq] at hrun
            exact absurd (congrArg Except.error hrun.1) hsave
          · dsimp only at hrun
            rw [Command.run_runBuild_unscanned] at hrun
            exact absurd (congrArg Prod.fst hrun) (Effect.compile_ne_scan host asked _ written e)

/-- A build that fails for want of a source changes nothing in the world but leaves its project
without the session, which was not empty; if the project is then saved, it is loaded without any
input. -/
theorem session_lost_of_unread {skipScan : Bool}
    (hrun : ((Command.runBuild host asked skipScan).run).run bench = (.error (.scan e), after)) :
    after = { bench with project := bench.project.withSession .empty } ∧
    after.project ≠ bench.project ∧
    ∀ saved, (after.project.save.run).run after.world.machine = (.ok (), saved) →
      Project.load saved bench.project.layout.root = .ok (bench.project.withSession .empty) := by
  obtain ⟨rfl, hscan⟩ := unread_of_run_runBuild hrun
  rw [run_runBuild_of_unread hscan] at hrun
  obtain rfl : { bench with project := bench.project.withSession .empty } = after :=
    congrArg Prod.snd hrun
  refine ⟨rfl, session_ne_empty hscan, fun saved hsave => ?_⟩
  rcases (bench.project.withSession .empty).run_save_cases bench.world.machine with
    ⟨cause, written, hfails, -⟩ | ⟨between, written, place, executable, hwritten, -, hwrites⟩
  · rw [hfails] at hsave
    cases hsave
  · rw [hwritten] at hsave
    cases hsave
    exact Project.load_of_writes hwrites

/-- The project whose source is missing, opened for a build. -/
def strayBench : Workbench := ⟨⟨draft relativeConfig [], ""⟩, ⟨draftLayout, relativeConfig⟩⟩

theorem session_lost_of_unread_strayBench :
    let after : Workbench :=
      { strayBench with project := strayBench.project.withSession .empty }
    ((Command.runBuild .idle (some "dry-run") false).run).run strayBench =
      (.error (.scan ⟨⟨"a.cs"⟩, .notFound⟩), after) ∧ after.project ≠ strayBench.project := by
  have hrun := @run_runBuild_of_unread .idle (some "dry-run") strayBench _ rescan_relativeConfig
  exact ⟨hrun, (session_lost_of_unread hrun).2.1⟩

/-- Not every build that fails for want of a source leaves its project as it was. -/
theorem project_changed_of_unread :
    ¬∀ (host : Host) (asked : Option String) (skipScan : Bool) (bench after : Workbench)
      (e : ScanError),
      ((Command.runBuild host asked skipScan).run).run bench = (.error (.scan e), after) →
        after.project = bench.project := by
  intro hkept
  have hrun := @run_runBuild_of_unread .idle (some "dry-run") strayBench _ rescan_relativeConfig
  exact session_ne_empty rescan_relativeConfig (hkept _ _ _ _ _ _ hrun)

end Workbench

end ScriptAssembly
