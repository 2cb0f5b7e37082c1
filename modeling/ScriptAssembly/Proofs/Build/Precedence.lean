import ScriptAssembly.Build.Compiler
import ScriptAssembly.Proofs.Machine.Files

/-!
# Which compiler is run

A compiler that is configured is run or none is.  Otherwise a variable may be set to one, which is
passed over if it is no file, and then the directories of the search path are gone through, for the
preferred program first: that program is run from the last directory even if the other one is in
the first.
-/

namespace ScriptAssembly

namespace Machine

/-- The directories of the search path, in order; one that is written as nothing is the working
directory. -/
structure SearchesIn (m : Machine) (directories : List Path) : Prop where
  /-- There is at least one. -/
  searched : directories ≠ []
  /-- None has a colon in it. -/
  uncut : ∀ directory ∈ directories, ':' ∉ directory.text.toList
  /-- The variable holds them with a colon between neighbours. -/
  value : m.environmentValue? "PATH" =
    some (.ofList (Text.join ':' (directories.map fun directory => directory.text.toList)))

/-- The program is found at a path in a directory of the search path, and in none before it. -/
def FindsFirst (m : Machine) (program : String) (p : Path) : Prop :=
  ∃ before directory behind, m.SearchesIn (before ++ directory :: behind) ∧
    directory.join ⟨program⟩ = p ∧ m.isFile p = true ∧
    ∀ earlier ∈ before, m.isFile (earlier.join ⟨program⟩) = false

/-- The program is in no directory of the search path. -/
def LacksProgram (m : Machine) (program : String) : Prop :=
  ∀ directories, m.SearchesIn directories →
    ∀ directory ∈ directories, m.isFile (directory.join ⟨program⟩) = false

/-- The variable for the compiler is set to a file. -/
def IsPinnedTo (m : Machine) (p : Path) : Prop :=
  m.environmentValue? Compiler.pinVariable = some p.text ∧ m.isFile p = true

variable {m : Machine} {directories : List Path} {program : String} {p : Path}

/-- The directories are the pieces of the variable between its colons. -/
theorem searchesIn_iff : m.SearchesIn directories ↔
    ∃ value, m.environmentValue? "PATH" = some value ∧
      directories = (Text.split ':' value.toList).map fun entry => ⟨.ofList entry⟩ := by
  constructor
  · rintro ⟨hsearched, huncut, hvalue⟩
    refine ⟨_, hvalue, ?_⟩
    have huncut : ∀ entry ∈ directories.map fun directory => directory.text.toList,
        ':' ∉ entry := by
      intro entry hentry
      obtain ⟨directory, hdirectory, rfl⟩ := List.mem_map.mp hentry
      exact huncut directory hdirectory
    rw [String.toList_ofList, Text.split_join (by simpa using hsearched) huncut, List.map_map]
    simp [Function.comp_def]
  · rintro ⟨value, hvalue, rfl⟩
    have hpieces : Text.split ':' value.toList ≠ [] := Text.splitWhere_ne_nil _ _
    refine ⟨by simpa using hpieces, ?_, ?_⟩
    · intro directory hdirectory
      obtain ⟨entry, hentry, rfl⟩ := List.mem_map.mp hdirectory
      rw [String.toList_ofList]
      exact Text.not_mem_of_mem_split hentry
    · rw [hvalue, List.map_map]
      simp [Function.comp_def, Text.join_split]

end Machine

namespace Compiler

variable {m : Machine} {directories : List Path} {program : String} {p : Path}

theorem searchPath?_of_searchesIn (hsearches : m.SearchesIn directories) :
    searchPath? m program =
      (directories.find? fun directory => m.isFile (directory.join ⟨program⟩)).map
        fun directory => directory.join ⟨program⟩ := by
  obtain ⟨value, hvalue, rfl⟩ := Machine.searchesIn_iff.mp hsearches
  rw [searchPath?, hvalue, Option.bind_some]
  simp only [List.find?_map, Option.map_map, Function.comp_def]

/-- Where the variable is not set no directory is searched. -/
theorem searchPath?_cases (m : Machine) (program : String) :
    (∃ directories, m.SearchesIn directories) ∨
      searchPath? m program = none ∧ ∀ directories, ¬m.SearchesIn directories := by
  cases hvalue : m.environmentValue? "PATH" with
  | some value => exact .inl ⟨_, Machine.searchesIn_iff.mpr ⟨value, hvalue, rfl⟩⟩
  | none =>
      refine .inr ⟨by rw [searchPath?, hvalue, Option.bind_none], fun directories hsearches => ?_⟩
      cases hvalue.symm.trans hsearches.value

theorem searchPath?_eq_some_iff : searchPath? m program = some p ↔ m.FindsFirst program p := by
  constructor
  · intro hfound
    rcases searchPath?_cases m program with ⟨directories, hsearches⟩ | ⟨hnone, -⟩
    · rw [searchPath?_of_searchesIn hsearches, Option.map_eq_some_iff] at hfound
      obtain ⟨directory, hfirst, hjoined⟩ := hfound
      obtain ⟨hfile, before, behind, rfl, hbefore⟩ := List.find?_eq_some_iff_append.mp hfirst
      exact ⟨before, directory, behind, hsearches, hjoined, hjoined ▸ hfile, by simpa using hbefore⟩
    · cases hnone.symm.trans hfound
  · rintro ⟨before, directory, behind, hsearches, rfl, hfile, hbefore⟩
    rw [searchPath?_of_searchesIn hsearches, Option.map_eq_some_iff]
    refine ⟨directory, List.find?_eq_some_iff_append.mpr ?_, rfl⟩
    exact ⟨hfile, before, behind, rfl, by simpa using hbefore⟩

theorem searchPath?_eq_none_iff : searchPath? m program = none ↔ m.LacksProgram program := by
  rcases searchPath?_cases m program with ⟨directories, hsearches⟩ | ⟨hnone, hunset⟩
  · constructor
    · intro hmissed others hothers
      rw [searchPath?_of_searchesIn hothers, Option.map_eq_none_iff] at hmissed
      simpa using hmissed
    · intro hlacks
      rw [searchPath?_of_searchesIn hsearches, Option.map_eq_none_iff]
      simpa using hlacks directories hsearches
  · exact iff_of_true hnone fun directories hsearches => absurd hsearches (hunset directories)

theorem fromVariable?_eq_some_iff : fromVariable? m = some p ↔ m.IsPinnedTo p := by
  rw [fromVariable?, Option.filter_eq_some_iff, Option.map_eq_some_iff, Machine.IsPinnedTo]
  constructor
  · rintro ⟨⟨value, hvalue, rfl⟩, hfile⟩
    exact ⟨hvalue, hfile⟩
  · rintro ⟨hvalue, hfile⟩
    exact ⟨⟨p.text, hvalue, rfl⟩, hfile⟩

theorem fromVariable?_eq_none_iff : fromVariable? m = none ↔ ∀ p, ¬m.IsPinnedTo p := by
  simp only [Option.eq_none_iff_forall_ne_some, ne_eq, fromVariable?_eq_some_iff]

/-- The other program is looked for where the preferred one is in no directory. -/
theorem findSome?_programs_eq_some_iff :
    programs.findSome? (searchPath? m) = some p ↔
      m.FindsFirst "csc" p ∨ m.LacksProgram "csc" ∧ m.FindsFirst "mcs" p := by
  rw [← searchPath?_eq_some_iff, ← searchPath?_eq_some_iff, ← searchPath?_eq_none_iff, programs,
    List.findSome?_cons, List.findSome?_singleton]
  cases searchPath? m "csc" with
  | some found => simp
  | none => simp

theorem findSome?_programs_eq_none_iff :
    programs.findSome? (searchPath? m) = none ↔ m.LacksProgram "csc" ∧ m.LacksProgram "mcs" := by
  simp only [List.findSome?_eq_none_iff, searchPath?_eq_none_iff, programs, List.forall_mem_cons,
    List.not_mem_nil, false_implies, implies_true, and_true]

theorem resolve_none_eq_ok_iff : resolve m none = .ok p ↔
    m.IsPinnedTo p ∨ (∀ other, ¬m.IsPinnedTo other) ∧
      (m.FindsFirst "csc" p ∨ m.LacksProgram "csc" ∧ m.FindsFirst "mcs" p) := by
  rw [← fromVariable?_eq_some_iff, ← fromVariable?_eq_none_iff, ← findSome?_programs_eq_some_iff,
    resolve]
  cases fromVariable? m with
  | some pinned => simp
  | none =>
      cases programs.findSome? (searchPath? m) with
      | some found => simp
      | none => simp

theorem resolve_none_eq_error_iff {e : BackendError} : resolve m none = .error e ↔
    ((∀ p, ¬m.IsPinnedTo p) ∧ m.LacksProgram "csc" ∧ m.LacksProgram "mcs") ∧
      e = .missingCompiler "set DLL_FORGE_CSC or put csc/mcs on PATH" := by
  have hmessage : s!"set {pinVariable} or put csc/mcs on PATH" =
      "set DLL_FORGE_CSC or put csc/mcs on PATH" := by decide
  rw [← fromVariable?_eq_none_iff, ← findSome?_programs_eq_none_iff, resolve, hmessage]
  cases fromVariable? m with
  | some pinned => simp
  | none =>
      cases programs.findSome? (searchPath? m) with
      | some found => simp
      | none => simp [eq_comm]

/-- Whatever the variable and the search path lead to is a file. -/
theorem isFile_of_resolve_none (hresolve : resolve m none = .ok p) : m.isFile p = true := by
  rcases resolve_none_eq_ok_iff.mp hresolve with hpinned | ⟨-, hfirst | ⟨-, hfirst⟩⟩
  · exact hpinned.2
  all_goals
    obtain ⟨before, directory, behind, -, -, hfile, -⟩ := hfirst
    exact hfile

/-- A compiler that is configured is run exactly if it is a file, and nothing is run in its place.
Without one the variable is followed exactly if it is set to a file.  Otherwise the preferred
program is run from the first directory of the search path that has it, and the other one only if no
directory has that.  There is no compiler exactly if all of these fail. -/
theorem resolve_precedence (m : Machine) :
    (∀ chosen p, resolve m (some chosen) = .ok p ↔ p = chosen ∧ m.isFile chosen = true) ∧
    (∀ chosen e, resolve m (some chosen) = .error e ↔ m.isFile chosen = false ∧
      e = .missingCompiler s!"configured compiler not found at {chosen.text}") ∧
    (∀ value, m.environmentValue? "DLL_FORGE_CSC" = some value →
      (resolve m none = .ok ⟨value⟩ ↔ m.isFile ⟨value⟩ = true)) ∧
    (∀ p, resolve m none = .ok p ↔ m.IsPinnedTo p ∨ (∀ other, ¬m.IsPinnedTo other) ∧
      (m.FindsFirst "csc" p ∨ m.LacksProgram "csc" ∧ m.FindsFirst "mcs" p)) ∧
    ∀ e, resolve m none = .error e ↔
      ((∀ p, ¬m.IsPinnedTo p) ∧ m.LacksProgram "csc" ∧ m.LacksProgram "mcs") ∧
      e = .missingCompiler "set DLL_FORGE_CSC or put csc/mcs on PATH" := by
  refine ⟨fun chosen p => ?_, fun chosen e => ?_, fun value hvalue => ?_, fun p => ?_, fun e => ?_⟩
  · rw [resolve]
    cases hfile : m.isFile chosen with
    | true => simp [eq_comm]
    | false => simp
  · rw [resolve]
    cases hfile : m.isFile chosen with
    | true => simp
    | false => simp [eq_comm]
  · exact ⟨isFile_of_resolve_none,
      fun hfile => resolve_none_eq_ok_iff.mpr (.inl ⟨hvalue, hfile⟩)⟩
  · exact resolve_none_eq_ok_iff
  · exact resolve_none_eq_error_iff

/-- The preferred program is in the last but one directory of the search path and the other one in
the first; the variable is set to a directory. -/
def toolbox : Machine where
  disk := ⟨[(["old"], .directory), (["old", "mcs"], .file .empty true), (["new"], .directory),
    (["new", "csc"], .file .empty true)]⟩
  directory := []
  environment := [("DLL_FORGE_CSC", "old"), ("PATH", "old::new:old")]

theorem searchesIn_toolbox : toolbox.SearchesIn [⟨"old"⟩, ⟨""⟩, ⟨"new"⟩, ⟨"old"⟩] where
  searched := by decide
  uncut := by decide
  value := by decide

theorem isFile_toolbox : toolbox.isFile ⟨"old/mcs"⟩ = true ∧ toolbox.isFile ⟨"new/csc"⟩ = true := by
  have hother : toolbox.find ⟨"old/mcs"⟩ = .ok (.found ["old", "mcs"] (.file .empty true)) :=
    Disk.lookup_of_leads ["old".toList, "mcs".toList] (by decide) rfl
      (.directory (by decide) rfl (.file (by decide) rfl))
  have hpreferred : toolbox.find ⟨"new/csc"⟩ = .ok (.found ["new", "csc"] (.file .empty true)) :=
    Disk.lookup_of_leads ["new".toList, "csc".toList] (by decide) rfl
      (.directory (by decide) rfl (.file (by decide) rfl))
  exact ⟨Machine.isFile_of_find hother, Machine.isFile_of_find hpreferred⟩

theorem not_isFile_toolbox : toolbox.isFile ⟨"old"⟩ = false ∧
    toolbox.isFile ⟨"old/csc"⟩ = false ∧ toolbox.isFile ⟨"csc"⟩ = false := by
  have hdirectory : toolbox.find ⟨"old"⟩ = .ok (.found ["old"] .directory) :=
    Disk.lookup_of_leads ["old".toList] (by decide) rfl (.directory (by decide) rfl .arrived)
  have hfirst : toolbox.find ⟨"old/csc"⟩ = .ok (.vacant ["old", "csc"] false) :=
    Disk.lookup_of_leads ["old".toList, "csc".toList] (by decide) rfl
      (.directory (by decide) rfl (.vacant (by decide) rfl rfl))
  have hhere : toolbox.find ⟨"csc"⟩ = .ok (.vacant ["csc"] false) :=
    Disk.lookup_of_leads ["csc".toList] (by decide) rfl (.vacant (by decide) rfl rfl)
  unfold Machine.isFile Machine.entry?
  rw [hdirectory, hfirst, hhere]
  exact ⟨rfl, rfl, rfl⟩

/-- The preferred program is run though the other one is in the first directory, and the variable is
passed over; where that directory is configured nothing is run. -/
theorem resolve_precedence_toolbox :
    toolbox.environmentValue? "DLL_FORGE_CSC" = some "old" ∧
    toolbox.isFile ⟨"old/mcs"⟩ = true ∧
    resolve toolbox none ≠ .ok ⟨"old"⟩ ∧
    resolve toolbox none = .ok ⟨"new/csc"⟩ ∧
    resolve toolbox (some ⟨"old"⟩) =
      .error (.missingCompiler "configured compiler not found at old") := by
  have hvariable : toolbox.environmentValue? "DLL_FORGE_CSC" = some "old" := by decide
  obtain ⟨hother, hpreferred⟩ := isFile_toolbox
  obtain ⟨hdirectory, hfirst, hhere⟩ := not_isFile_toolbox
  obtain ⟨-, hconfigured, hpinned, hfound, -⟩ := resolve_precedence toolbox
  have hunpinned : ∀ p, ¬toolbox.IsPinnedTo p := by
    rintro ⟨text⟩ ⟨hvalue, hfile⟩
    obtain rfl := Option.some.inj (hvariable.symm.trans hvalue)
    cases hdirectory.symm.trans hfile
  have hbefore : ∀ earlier ∈ [Path.mk "old", ⟨""⟩],
      toolbox.isFile (earlier.join ⟨"csc"⟩) = false := by
    simp only [List.forall_mem_cons, List.not_mem_nil, false_implies, implies_true, and_true]
    exact ⟨hfirst, hhere⟩
  refine ⟨hvariable, hother, fun hchosen => ?_, ?_, ?_⟩
  · cases hdirectory.symm.trans ((hpinned "old" hvariable).mp hchosen)
  · exact (hfound _).mpr (.inr ⟨hunpinned, .inl
      ⟨_, ⟨"new"⟩, [⟨"old"⟩], searchesIn_toolbox, by decide, hpreferred, hbefore⟩⟩)
  · exact (hconfigured ⟨"old"⟩ _).mpr ⟨hdirectory, by decide⟩

end Compiler

end ScriptAssembly
