import ScriptAssembly.Build.Stamp
import ScriptAssembly.Proofs.Action
import ScriptAssembly.Proofs.Machine.Shape

/-!
# Builds at two times

A runner looks at the clock only for the stamp that it writes last.  So a build that is run at two
times ends with the same result, and on machines that differ at most in the time of that stamp.
-/

namespace ScriptAssembly

namespace Machine

variable {m first second : Machine} {p : Path} {one other : ByteArray}

/-- Two contents that are written to one path go to the same place. -/
theorem writes_of_both (hfirst : m.writeFile p one = .ok first)
    (hsecond : m.writeFile p other = .ok second) :
    ∃ place executable, m.Writes p one place executable first ∧
      m.Writes p other place executable second := by
  obtain ⟨place, executable, hwrites⟩ := writes_of_writeFile hfirst
  obtain ⟨place', executable', hwrites'⟩ := writes_of_writeFile hsecond
  rcases hwrites.spot with ⟨old, hfound⟩ | ⟨hvacant, rfl⟩
  · obtain ⟨rfl, rfl⟩ := hwrites'.eq_of_find hfound
    exact ⟨_, _, hwrites, hwrites'⟩
  · rcases hwrites'.spot with ⟨old, hfound⟩ | ⟨hvacant', rfl⟩
    · rw [hvacant] at hfound
      cases hfound
    · rw [hvacant] at hvacant'
      cases hvacant'
      exact ⟨_, _, hwrites, hwrites'⟩

/-- What two contents written to one path leave is alike, and every other file is the same. -/
theorem readBytes_of_both (hfirst : m.writeFile p one = .ok first)
    (hsecond : m.writeFile p other = .ok second) (q : Path) :
    second.readBytes q = first.readBytes q ∨ first.find q = first.find p ∧
      first.readBytes q = .ok one ∧ second.readBytes q = .ok other := by
  obtain ⟨place, executable, hwrites, hwrites'⟩ := writes_of_both hfirst hsecond
  have hdisk : ∀ known, second.disk.at? known =
      if known = place then some (.file other executable) else first.disk.at? known := by
    intro known
    rw [hwrites'.disk, hwrites.disk]
    split <;> rfl
  have halike : first.Alike second := by
    refine ⟨hwrites.setting.symm.trans hwrites'.setting, fun known => ?_⟩
    rw [hdisk]
    split
    · rename_i hplace
      rw [hplace, hwrites.at?_place]
      rfl
    · rfl
  rcases halike.find_cases q with ⟨known, content, held, mode, hfind, hother⟩ | hsame
  · by_cases hplace : known = place
    · right
      have hstands : first.disk.at? known = some (.file content mode) := Disk.lookup_stands hfind
      have hheld : second.disk.at? known = some (.file held mode) := Disk.lookup_stands hother
      rw [hplace, hwrites.at?_place] at hstands
      rw [hplace, hwrites'.at?_place] at hheld
      cases hstands
      cases hheld
      refine ⟨?_, readBytes_of_find hfind, readBytes_of_find hother⟩
      rw [hfind, hplace, hwrites.find_written]
    · left
      have hstands : first.disk.at? known = some (.file content mode) := Disk.lookup_stands hfind
      have hheld : second.disk.at? known = some (.file held mode) := Disk.lookup_stands hother
      rw [hdisk, if_neg hplace, hstands] at hheld
      cases hheld
      rw [readBytes_of_find hfind, readBytes_of_find hother]
  · left
    rw [Machine.readBytes, Machine.readBytes, hsame]

end Machine

/-- Compiling comes first, and only a binary is made known. -/
theorem run_runner (runner : Runner (StateM Machine)) (d : Descriptor) (m : Machine) :
    ((runner.run d).run).run m =
      match ((runner.backend.compile d).run).run m with
      | (.error e, after) => (.error e, after)
      | (.ok outcome, compiled) =>
        match BuildResult.ofOutcome outcome with
        | .failure diagnostics => (.ok (.failure diagnostics), compiled)
        | .success output =>
          match ((runner.refresher output).run).run compiled with
          | (.ok _, after) => (.ok (.success output), after)
          | (.error e, after) => (.error e, after) := by
  simp only [Runner.run, run_bind]
  rcases ((runner.backend.compile d).run).run m with ⟨e | outcome, compiled⟩
  · rfl
  · dsimp only
    cases BuildResult.ofOutcome outcome with
    | failure diagnostics => rfl
    | success output =>
        simp only [run_bind]
        rcases ((runner.refresher output).run).run compiled with ⟨e | _, after⟩ <;> rfl

namespace Stamp

/-- The stamp with another time. -/
def dated (time : String) (stamp : Stamp) : Stamp := { stamp with refreshedAt := time }

/-- The machines are the same, or the last that happened on both is that one stamp was written to
the path, each time with a time of its own. -/
def SameButTime (path : Path) (now later : String) (m other : Machine) : Prop :=
  other = m ∨ ∃ (before : Machine) (stamp : Stamp),
    before.writeFile path (stamp.dated now).toJson.pretty.toUTF8 = .ok m ∧
    before.writeFile path (stamp.dated later).toJson.pretty.toUTF8 = .ok other

variable {path : Path} {now later : String} {m other : Machine}

theorem SameButTime.eq_of_now (hsame : SameButTime path now now m other) : other = m := by
  rcases hsame with rfl | ⟨before, stamp, hfirst, hsecond⟩
  · rfl
  · rw [hfirst] at hsecond
    cases hsecond
    rfl

/-- A file that tells the machines apart is the stamp, and it does so by its time. -/
theorem SameButTime.readBytes (hsame : SameButTime path now later m other) (q : Path) :
    other.readBytes q = m.readBytes q ∨ m.find q = m.find path ∧
      ∃ stamp : Stamp, m.readBytes q = .ok (stamp.dated now).toJson.pretty.toUTF8 ∧
        other.readBytes q = .ok (stamp.dated later).toJson.pretty.toUTF8 := by
  rcases hsame with rfl | ⟨before, stamp, hfirst, hsecond⟩
  · exact .inl rfl
  · rcases Machine.readBytes_of_both hfirst hsecond q with hbytes | ⟨hfind, hone, hother⟩
    · exact .inl hbytes
    · exact .inr ⟨hfind, stamp, hone, hother⟩

/-- A file has its digest in the stamp, and what is no file has none. -/
theorem ofOutput_cases (m : Machine) (now : String) (output : Path) :
    (∃ content, m.readBytes output = .ok content ∧ m.isFile output = true ∧
      ofOutput m now output = .ok ⟨output.text, some (Sha256.hex content.data.toList), now⟩) ∨
    (∀ content, m.readBytes output ≠ .ok content) ∧ m.isFile output = false ∧
      ofOutput m now output = .ok ⟨output.text, none, now⟩ := by
  unfold ofOutput Machine.digest Machine.isFile Machine.entry? Machine.readBytes
  rcases m.find output with e | ⟨place, - | ⟨content, executable⟩ | target⟩ | ⟨place, slashed⟩
  case ok.found.file => exact .inl ⟨content, rfl, rfl, rfl⟩
  all_goals exact .inr ⟨fun _ => by rintro ⟨⟩, rfl, rfl⟩

/-- Whatever stands where the binary goes, there is a stamp of it. -/
theorem exists_ofOutput (m : Machine) (now : String) (output : Path) :
    ∃ stamp, ofOutput m now output = .ok stamp := by
  rcases ofOutput_cases m now output with ⟨_, -, -, hstamp⟩ | ⟨-, -, hstamp⟩
  · exact ⟨_, hstamp⟩
  · exact ⟨_, hstamp⟩

/-- The stamp tells what stands where the binary goes. -/
structure TellsOf (stamp : Stamp) (m : Machine) (binary : Path) (now : String) : Prop where
  /-- It shows the path of the binary. -/
  output : stamp.output = binary.text
  /-- It has the digest of the file that the path leads to. -/
  digest : ∀ digest, stamp.digest = some digest ↔
    ∃ content, m.readBytes binary = .ok content ∧ digest = Sha256.hex content.data.toList
  /-- It has no digest if the path leads to no file. -/
  noDigest : stamp.digest = none ↔ m.isFile binary = false
  /-- It has the time. -/
  refreshedAt : stamp.refreshedAt = now

theorem tellsOf_of_ofOutput {output : Path} {stamp : Stamp}
    (hstamp : ofOutput m now output = .ok stamp) : stamp.TellsOf m output now := by
  rcases ofOutput_cases m now output with ⟨content, hread, hfile, hmade⟩ | ⟨hread, hfile, hmade⟩
  · cases hmade.symm.trans hstamp
    refine ⟨rfl, fun digest => ⟨?_, ?_⟩, by simp [hfile], rfl⟩
    · rintro ⟨⟩
      exact ⟨content, hread, rfl⟩
    · rintro ⟨other, hother, rfl⟩
      cases hread.symm.trans hother
      rfl
  · cases hmade.symm.trans hstamp
    exact ⟨rfl, fun digest => by simp [hread], by simp [hfile], rfl⟩

/-- The machine on which the directories above a stamp have been made, or as many as could be. -/
def prepared (path : Path) (m : Machine) : Machine :=
  match path.parent? with
  | none => m
  | some parent => (m.makeDirectories parent).1

theorem prepared_stampPath (l : Layout) (m : Machine) :
    prepared l.stampPath m = (m.makeDirectories l.metaDirectory).1 := by
  rw [prepared, l.parent?_stampPath]

theorem machine_of_makeParent (path : Path) (m : Machine) :
    (((makeParent path).run).run m).2 = prepared path m := by
  unfold makeParent prepared
  cases path.parent? with
  | none => rfl
  | some parent =>
      simp only [run_bind, run_get, run_set]
      rcases m.makeDirectories parent with ⟨made, e | _⟩ <;> rfl

/-- A refresher makes the directories above the stamp.  Then it fails, or it writes a stamp of what
it was told of. -/
theorem refresher_cases (path : Path) (now : String) (output : Path) (m : Machine) :
    (∃ e, ((refresher path now output).run).run m = (.error e, prepared path m)) ∨
    ∃ (stamp : Stamp) (after : Machine) (place : Place) (executable : Bool),
      ((refresher path now output).run).run m = (.ok (), after) ∧ stamp.TellsOf m output now ∧
      (prepared path m).Writes path stamp.toJson.pretty.toUTF8 place executable after := by
  obtain ⟨stamp, hstamp⟩ := exists_ofOutput m now output
  rw [← machine_of_makeParent]
  simp only [refresher, write, run_bind, run_get, hstamp]
  rcases ((makeParent path).run).run m with ⟨e | _, made⟩
  · exact .inl ⟨e, rfl⟩
  · dsimp only
    cases hwrite : made.writeFile path stamp.toJson.pretty.toUTF8 with
    | error e => exact .inl ⟨_, rfl⟩
    | ok written =>
        obtain ⟨place, executable, hwrites⟩ := Machine.writes_of_writeFile hwrite
        exact .inr ⟨stamp, written, place, executable, rfl, tellsOf_of_ofOutput hstamp, hwrites⟩

/-- A refresher that succeeds has written a stamp of what it was told of. -/
theorem readText_of_refresher {output : Path} {after : Machine}
    (hrun : ((refresher path now output).run).run m = (.ok (), after)) :
    ∃ stamp : Stamp, stamp.TellsOf m output now ∧
      after.readText path = .ok stamp.toJson.pretty := by
  rcases refresher_cases path now output m with
    ⟨e, hfailed⟩ | ⟨stamp, written, place, executable, hwritten, htells, hwrites⟩
  · cases hfailed.symm.trans hrun
  · cases hwritten.symm.trans hrun
    exact ⟨stamp, htells, Machine.readText_of_find hwrites.find_written⟩

/-- A refresher that fails has made the directories above the stamp and nothing else. -/
theorem machine_of_refresher_error {output : Path} {after : Machine} {e : BackendError}
    (hrun : ((refresher path now output).run).run m = (.error e, after)) :
    after = prepared path m := by
  rcases refresher_cases path now output m with ⟨e, hfailed⟩ | ⟨_, _, _, _, hwritten, -⟩
  · cases hfailed.symm.trans hrun
    rfl
  · cases hwritten.symm.trans hrun

theorem ofOutput_dated (m : Machine) (now : String) (output : Path) :
    ofOutput m now output = (ofOutput m "" output).map (dated now) := by
  unfold ofOutput
  split
  · cases m.digest output <;> rfl
  · rfl

/-- A refresher fails at every time or at none. -/
theorem run_refresher (path : Path) (now later : String) (output : Path) (m : Machine) :
    (((refresher path later output).run).run m).1 = (((refresher path now output).run).run m).1 ∧
      SameButTime path now later (((refresher path now output).run).run m).2
        (((refresher path later output).run).run m).2 := by
  simp only [refresher, run_bind, run_get]
  rw [ofOutput_dated m now, ofOutput_dated m later]
  cases ofOutput m "" output with
  | error e => exact ⟨rfl, .inl rfl⟩
  | ok stamp =>
      simp only [Except.map, write, run_bind, run_get]
      rcases ((makeParent path).run).run m with ⟨e | _, made⟩
      · exact ⟨rfl, .inl rfl⟩
      · dsimp only
        rcases (Machine.Alike.refl made).writeFile path (stamp.dated now).toJson.pretty.toUTF8
          (stamp.dated later).toJson.pretty.toUTF8 with
          ⟨e, hfirst, hsecond⟩ | ⟨first, second, hfirst, hsecond⟩
        · rw [hfirst, hsecond]
          exact ⟨rfl, .inl rfl⟩
        · rw [hfirst, hsecond]
          exact ⟨rfl, .inr ⟨made, stamp, hfirst, hsecond⟩⟩

end Stamp

/-- A build ends with the same result at all times. -/
theorem run_runner_congr (backend : Backend (StateM Machine)) (path : Path) (now later : String)
    (d : Descriptor) (m : Machine) :
    ((((Runner.mk backend (Stamp.refresher path later)).run d).run).run m).1 =
      ((((Runner.mk backend (Stamp.refresher path now)).run d).run).run m).1 ∧
    Stamp.SameButTime path now later
      ((((Runner.mk backend (Stamp.refresher path now)).run d).run).run m).2
      ((((Runner.mk backend (Stamp.refresher path later)).run d).run).run m).2 := by
  simp only [run_runner]
  rcases ((backend.compile d).run).run m with ⟨e | outcome, compiled⟩
  · exact ⟨rfl, .inl rfl⟩
  · dsimp only
    cases BuildResult.ofOutcome outcome with
    | failure diagnostics => exact ⟨rfl, .inl rfl⟩
    | success output =>
        obtain ⟨hresult, hmachine⟩ := Stamp.run_refresher path now later output compiled
        dsimp only
        generalize ((Stamp.refresher path now output).run).run compiled = first at hresult hmachine ⊢
        generalize ((Stamp.refresher path later output).run).run compiled = second
          at hresult hmachine ⊢
        obtain ⟨e | _, after⟩ := first <;> obtain ⟨e' | _, after'⟩ := second <;> cases hresult
        · exact ⟨rfl, hmachine⟩
        · exact ⟨rfl, hmachine⟩

end ScriptAssembly
