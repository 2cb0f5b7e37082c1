import ScriptAssembly.Build.Compiler
import ScriptAssembly.Proofs.Build.Stamp

/-!
# Builds and files they do not read

Two machines are compared that differ at most in what some files hold.  Making directories, checking
inputs and writing stamps come out the same on both; only the compiler could look into the files.
A compiler that does not makes the whole build come out the same.
-/

namespace ScriptAssembly

namespace Machine

variable {hidden : Place → Prop} {m other : Machine} {p : Path} {place : Place}

/-- The machines differ at most in what the files at hidden places hold. -/
structure SameApart (hidden : Place → Prop) (m other : Machine) : Prop where
  /-- The same entries stand at the same places. -/
  alike : m.Alike other
  /-- What is not hidden is the same. -/
  seen : ∀ place, ¬hidden place → other.disk.at? place = m.disk.at? place

theorem SameApart.refl (hidden : Place → Prop) (m : Machine) : m.SameApart hidden m :=
  ⟨.refl m, fun _ _ => rfl⟩

theorem SameApart.trans {third : Machine} (hsame : m.SameApart hidden other)
    (hnext : other.SameApart hidden third) : m.SameApart hidden third :=
  ⟨hsame.alike.trans hnext.alike, fun place hseen =>
    (hnext.seen place hseen).trans (hsame.seen place hseen)⟩

/-- A path that leads to what is not hidden goes on leading to it. -/
theorem SameApart.find_seen {entry : Entry} (hsame : m.SameApart hidden other)
    (hfind : m.find p = .ok (.found place entry)) (hseen : ¬hidden place) :
    other.find p = .ok (.found place entry) := by
  rcases hsame.alike.find_cases p with ⟨known, content, held, executable, hfound, hother⟩ | hfound
  · rw [hfind] at hfound
    cases hfound
    have hstands : m.disk.at? place = some (.file content executable) := Disk.lookup_stands hfind
    have hheld : other.disk.at? place = some (.file held executable) := Disk.lookup_stands hother
    rw [hsame.seen place hseen, hstands] at hheld
    cases hheld
    exact hother
  · exact hfound.trans hfind

theorem Alike.sameApart (halike : m.Alike other) : m.SameApart (fun _ => True) other :=
  ⟨halike, fun _ hseen => absurd trivial hseen⟩

theorem Writes.sameApart {content old : ByteArray} {executable mode : Bool} {written : Place}
    (hwrites : m.Writes p content place executable other)
    (hfind : m.find p = .ok (.found written (.file old mode))) :
    m.SameApart (· = place) other := by
  refine ⟨hwrites.alike hfind, fun known hknown => ?_⟩
  rw [hwrites.disk, if_neg hknown]

theorem SameApart.put_directory {through slashed : Bool} (hsame : m.SameApart hidden other)
    (hlookup : m.disk.lookup m.directory through p = .ok (.vacant place slashed)) :
    (m.put place .directory).SameApart hidden (other.put place .directory) := by
  obtain ⟨hvacant, parent, name, rfl, hparent⟩ := Disk.lookup_stands hlookup
  have hvacant' := hsame.alike.disk.vacant hvacant
  have hparent' := hsame.alike.disk.directory hparent
  have hfree : m.disk.at? (parent ++ [name]) ≠ some .directory := by simp [hvacant]
  have hfree' : other.disk.at? (parent ++ [name]) ≠ some .directory := by simp [hvacant']
  have hdisk := Disk.at?_replace hparent hfree .directory
  have hdisk' := Disk.at?_replace hparent' hfree' .directory
  refine ⟨⟨⟨hsame.alike.setting.directory, hsame.alike.setting.environment⟩, fun known => ?_⟩,
    fun known hknown => ?_⟩
  · rw [put, put, hdisk, hdisk']
    split
    · rfl
    · exact hsame.alike.disk known
  · rw [put, put, hdisk, hdisk']
    split
    · rfl
    · exact hsame.seen known hknown

/-- A directory is made on both machines or on neither. -/
theorem SameApart.makeDirectory (hsame : m.SameApart hidden other) (p : Path) :
    (∃ e, m.makeDirectory p = .error e ∧ other.makeDirectory p = .error e) ∨
    ∃ made made', m.makeDirectory p = .ok made ∧ other.makeDirectory p = .ok made' ∧
      made.SameApart hidden made' := by
  unfold Machine.makeDirectory
  rcases Spot.cases_of_emptied (hsame.alike.lookup false p.withoutEndSlashes) with
    ⟨place, content, held, executable, hfound, hfound'⟩ | hlookup
  · rw [hfound, hfound']
    exact .inl ⟨.alreadyExists, rfl, rfl⟩
  · rw [hlookup]
    cases hspot : m.disk.lookup m.directory false p.withoutEndSlashes with
    | error e => exact .inl ⟨e, rfl, rfl⟩
    | ok spot =>
        cases spot with
        | found place entry => exact .inl ⟨.alreadyExists, rfl, rfl⟩
        | vacant place slashed => exact .inr ⟨_, _, rfl, rfl, hsame.put_directory hspot⟩

theorem SameApart.makeDirectoriesFrom (steps : Nat) (hsame : m.SameApart hidden other) (p : Path) :
    (makeDirectoriesFrom steps other p).2 = (makeDirectoriesFrom steps m p).2 ∧
      (makeDirectoriesFrom steps m p).1.SameApart hidden (makeDirectoriesFrom steps other p).1 := by
  induction steps generalizing m other p with
  | zero => exact ⟨rfl, hsame⟩
  | succ steps ih =>
      unfold Machine.makeDirectoriesFrom
      by_cases hempty : p.text.isEmpty
      · rw [if_pos hempty, if_pos hempty]
        exact ⟨rfl, hsame⟩
      · rw [if_neg hempty, if_neg hempty]
        rcases hsame.makeDirectory p with ⟨e, hfails, hfails'⟩ | ⟨made, made', hmade, hmade', hafter⟩
        · rw [hfails, hfails', hsame.alike.isDirectory]
          by_cases hmissing : e = .notFound
          · subst hmissing
            cases hparent : p.parent? with
            | none => exact ⟨rfl, hsame⟩
            | some parent =>
                obtain ⟨hresult, hafter⟩ := ih hsame parent
                dsimp only
                generalize Machine.makeDirectoriesFrom steps m parent = above at hresult hafter ⊢
                generalize Machine.makeDirectoriesFrom steps other parent = above'
                  at hresult hafter ⊢
                obtain ⟨above, e | _⟩ := above <;> obtain ⟨above', e' | _⟩ := above' <;>
                  cases hresult
                · exact ⟨rfl, hafter⟩
                · rcases hafter.makeDirectory p with
                    ⟨e, hfails, hfails'⟩ | ⟨made, made', hmade, hmade', hlast⟩
                  · dsimp only
                    rw [hfails, hfails']
                    dsimp only
                    rw [hafter.alike.isDirectory]
                    split
                    · exact ⟨rfl, hafter⟩
                    · exact ⟨rfl, hafter⟩
                  · dsimp only
                    rw [hmade, hmade']
                    exact ⟨rfl, hlast⟩
          · cases e with
            | notFound => exact absurd rfl hmissing
            | _ =>
                dsimp only
                split
                · exact ⟨rfl, hsame⟩
                · exact ⟨rfl, hsame⟩
        · rw [hmade, hmade']
          exact ⟨rfl, hafter⟩

theorem SameApart.makeDirectories (hsame : m.SameApart hidden other) (p : Path) :
    (other.makeDirectories p).2 = (m.makeDirectories p).2 ∧
      (m.makeDirectories p).1.SameApart hidden (other.makeDirectories p).1 :=
  hsame.makeDirectoriesFrom _ p

end Machine

/-- On machines that are related before, the action has the same result, and what it leaves is
related as well. -/
def Coupled {ε α : Type} (before : Machine → Machine → Prop)
    (action : ExceptT ε (StateM Machine) α) (after : Machine → Machine → Prop) : Prop :=
  ∀ m other, before m other →
    ((action.run).run other).1 = ((action.run).run m).1 ∧
      after ((action.run).run m).2 ((action.run).run other).2

/-- Whatever program is run, it does not look into the files at hidden places. -/
def Spawn.Ignores (hidden : Place → Prop) (spawn : Spawn) : Prop :=
  ∀ program arguments,
    Coupled (Machine.SameApart hidden) (spawn program arguments) Machine.Alike

section

variable {ε α β : Type} {hidden : Place → Prop} {before between after : Machine → Machine → Prop}

theorem Coupled.bind {c : ExceptT ε (StateM Machine) α} {f : α → ExceptT ε (StateM Machine) β}
    (hc : Coupled before c between) (hf : ∀ x, Coupled between (f x) after)
    (hle : ∀ m other, between m other → after m other) : Coupled before (c >>= f) after := by
  intro m other hbefore
  obtain ⟨hresult, hbetween⟩ := hc m other hbefore
  rw [run_bind, run_bind]
  generalize (c.run).run m = first at hresult hbetween ⊢
  generalize (c.run).run other = second at hresult hbetween ⊢
  obtain ⟨e | x, m⟩ := first <;> obtain ⟨e' | x', other⟩ := second <;> cases hresult
  · exact ⟨rfl, hle _ _ hbetween⟩
  · exact hf x m other hbetween

theorem Coupled.adapt {ε' : Type} {action : ExceptT ε (StateM Machine) α}
    (haction : Coupled before action after) (wrap : ε → ε') :
    Coupled before (action.adapt wrap) after := by
  intro m other hbefore
  obtain ⟨hresult, hafter⟩ := haction m other hbefore
  rw [run_adapt, run_adapt, hresult]
  exact ⟨rfl, hafter⟩

theorem coupled_makeOutputDirectory (d : Descriptor) :
    Coupled (Machine.SameApart hidden) (Compiler.makeOutputDirectory d)
      (Machine.SameApart hidden) := by
  intro m other hsame
  unfold Compiler.makeOutputDirectory
  cases d.outputPath.parent? with
  | none => exact ⟨rfl, hsame⟩
  | some parent =>
      dsimp only
      split
      · exact ⟨rfl, hsame⟩
      · obtain ⟨hresult, hafter⟩ := hsame.makeDirectories parent
        simp only [run_bind, run_get, run_set]
        generalize m.makeDirectories parent = made at hresult hafter ⊢
        generalize other.makeDirectories parent = made' at hresult hafter ⊢
        obtain ⟨m, e | _⟩ := made <;> obtain ⟨other, e' | _⟩ := made' <;> cases hresult
        · exact ⟨rfl, hafter⟩
        · exact ⟨rfl, hafter⟩

theorem Machine.Alike.resolve {m other : Machine} (halike : m.Alike other)
    (configured : Option Path) :
    Compiler.resolve other configured = Compiler.resolve m configured := by
  have hvariable : ∀ name, other.environmentValue? name = m.environmentValue? name := by
    intro name
    rw [environmentValue?, environmentValue?, halike.setting.environment]
  have hisFile : other.isFile = m.isFile := funext halike.isFile
  have hvalue : Compiler.fromVariable? other = Compiler.fromVariable? m := by
    rw [Compiler.fromVariable?, Compiler.fromVariable?, hvariable, hisFile]
  have hsearch : Compiler.searchPath? other = Compiler.searchPath? m := by
    funext program
    rw [Compiler.searchPath?, Compiler.searchPath?, hvariable, hisFile]
  unfold Compiler.resolve
  rw [hvalue, hsearch, hisFile]

theorem coupled_compile {spawn : Spawn} (hspawn : spawn.Ignores hidden) (configured : Option Path)
    (d : Descriptor) :
    Coupled (Machine.SameApart hidden) (Compiler.compile spawn configured d) Machine.Alike := by
  intro m other hsame
  simp only [Compiler.compile, run_bind, run_get, hsame.alike.resolve]
  cases Compiler.resolve m configured with
  | error e => exact ⟨rfl, hsame.alike⟩
  | ok program =>
      have hrun : Coupled (Machine.SameApart hidden)
          (do
            let execution ← (spawn program (Compiler.arguments d)).adapt fun e =>
              BackendError.spawn s!"failed to spawn {program.text}: {e.message}"
            return Compiler.outcome d execution) Machine.Alike := by
        refine Coupled.bind ?_ (fun execution => ?_) fun _ _ halike => halike
        · exact (hspawn program (Compiler.arguments d)).adapt _
        · exact fun _ _ halike => ⟨rfl, halike⟩
      exact (coupled_makeOutputDirectory d).bind (fun _ => hrun) (fun _ _ h => h.alike) m other hsame

theorem coupled_dryRun (d : Descriptor) :
    Coupled (Machine.SameApart hidden) (DryRun.backend.compile d) Machine.Alike := by
  intro m other hsame
  have hrun : ∀ m, ((DryRun.backend.compile d).run).run m = (.ok (DryRun.outcome m d), m) :=
    fun _ => rfl
  have hisFile : other.isFile = m.isFile := funext hsame.alike.isFile
  have houtcome : DryRun.outcome other d = DryRun.outcome m d := by
    rw [DryRun.outcome, DryRun.outcome, DryRun.missingReferences, DryRun.missingReferences,
      DryRun.missingSources, DryRun.missingSources, hisFile]
  rw [hrun, hrun, houtcome]
  exact ⟨rfl, hsame.alike⟩

/-- The backends there are do not look into hidden files if the compiler does not; checking the
inputs runs no compiler. -/
theorem coupled_backend {spawn : Spawn} {configured : Option Path} {name : String}
    {backend : Backend (StateM Machine)} (hspawn : name ≠ "dry-run" → spawn.Ignores hidden)
    (hbackend : Backend.named? (Backend.all spawn configured) name = some backend)
    (d : Descriptor) : Coupled (Machine.SameApart hidden) (backend.compile d) Machine.Alike := by
  have hname := Backend.name_of_named? hbackend
  have hmem := List.mem_of_find?_eq_some hbackend
  simp only [Backend.all, List.mem_cons, List.not_mem_nil, or_false] at hmem
  rcases hmem with rfl | rfl
  · refine coupled_compile (hspawn ?_) configured d
    rw [← hname]
    simp [Compiler.backend]
  · exact coupled_dryRun d

theorem coupled_makeParent (path : Path) :
    Coupled Machine.Alike (Stamp.makeParent path) Machine.Alike := by
  intro m other halike
  unfold Stamp.makeParent
  cases path.parent? with
  | none => exact ⟨rfl, halike⟩
  | some parent =>
      obtain ⟨hresult, hafter⟩ := halike.sameApart.makeDirectories parent
      simp only [run_bind, run_get, run_set]
      generalize m.makeDirectories parent = made at hresult hafter ⊢
      generalize other.makeDirectories parent = made' at hresult hafter ⊢
      obtain ⟨m, e | _⟩ := made <;> obtain ⟨other, e' | _⟩ := made' <;> cases hresult
      · exact ⟨rfl, hafter.alike⟩
      · exact ⟨rfl, hafter.alike⟩

/-- Whether a stamp can be written does not depend on what any file holds, though the stamp may. -/
theorem coupled_refresher (path : Path) (now : String) (output : Path) :
    Coupled Machine.Alike (Stamp.refresher path now output) fun _ _ => True := by
  intro m other halike
  obtain ⟨stamp, hstamp⟩ := Stamp.exists_ofOutput m now output
  obtain ⟨stamp', hstamp'⟩ := Stamp.exists_ofOutput other now output
  obtain ⟨hresult, hafter⟩ := coupled_makeParent path m other halike
  refine ⟨?_, trivial⟩
  simp only [Stamp.refresher, Stamp.write, run_bind, run_get, hstamp, hstamp']
  generalize ((Stamp.makeParent path).run).run m = made at hresult hafter ⊢
  generalize ((Stamp.makeParent path).run).run other = made' at hresult hafter ⊢
  obtain ⟨e | _, made⟩ := made <;> obtain ⟨e' | _, made'⟩ := made' <;> cases hresult
  · rfl
  · dsimp only
    rcases hafter.writeFile path stamp.toJson.pretty.toUTF8 stamp'.toJson.pretty.toUTF8 with
      ⟨e, hfails, hfails'⟩ | ⟨first, second, hwrite, hwrite'⟩
    · rw [hfails, hfails']
      rfl
    · rw [hwrite, hwrite']
      rfl

/-- A build whose compiler does not look into hidden files has the same result whatever they
hold. -/
theorem coupled_runner {spawn : Spawn} {configured : Option Path} {name : String}
    {backend : Backend (StateM Machine)} (hspawn : name ≠ "dry-run" → spawn.Ignores hidden)
    (hbackend : Backend.named? (Backend.all spawn configured) name = some backend)
    (path : Path) (now : String) (d : Descriptor) :
    Coupled (Machine.SameApart hidden) ((Runner.mk backend (Stamp.refresher path now)).run d)
      fun _ _ => True := by
  refine Coupled.bind (coupled_backend hspawn hbackend d) (fun outcome => ?_) fun _ _ _ => trivial
  cases BuildResult.ofOutcome outcome with
  | failure diagnostics => exact fun _ _ _ => ⟨rfl, trivial⟩
  | success output =>
      refine Coupled.bind (coupled_refresher path now output) (fun _ => ?_) fun _ _ _ => trivial
      exact fun _ _ _ => ⟨rfl, trivial⟩

end

end ScriptAssembly
