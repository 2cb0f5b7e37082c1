import ScriptAssembly.Build.Compiler
import ScriptAssembly.Proofs.Build.Calls

/-!
# Errors and diagnostics

An outcome with errors is honest if an error is among its diagnostics, and an outcome without errors
if none is.  Every backend there is reports honestly: the compiler's outcome adds an error of its
own where a failed run has reported none, and checking the inputs counts the errors it has found.
-/

namespace ScriptAssembly

namespace Text

/-- The texts stand in the text one behind the other. -/
def InOrder : List (List Char) → List Char → Prop
  | [], _ => True
  | part :: parts, s => ∃ front rest, s = front ++ part ++ rest ∧ InOrder parts rest

theorem InOrder.append_left {parts : List (List Char)} {s : List Char} (hparts : InOrder parts s)
    (front : List Char) : InOrder parts (front ++ s) := by
  cases parts with
  | nil => trivial
  | cons part parts =>
      obtain ⟨before, rest, rfl, hrest⟩ := hparts
      exact ⟨front ++ before, rest, by simp, hrest⟩

theorem inOrder_join (separator : Char) (parts : List (List Char)) :
    InOrder parts (join separator parts) := by
  induction parts with
  | nil => trivial
  | cons part parts ih =>
      cases parts with
      | nil => exact ⟨[], [], by simp [join], trivial⟩
      | cons second others =>
          refine ⟨[], separator :: join separator (second :: others), ?_, ih.append_left [separator]⟩
          rw [join_cons_of_ne_nil part (List.cons_ne_nil second others), List.nil_append]

end Text

namespace Outcome

/-- There are errors exactly if an error is told. -/
def Honest (o : Outcome) : Prop := o.hasErrors = true ↔ ∃ d ∈ o.diagnostics, d.isError = true

end Outcome

namespace Execution

/-- What the compiler has reported, on its standard output first. -/
def reported (execution : Execution) : List Diagnostic :=
  Diagnostic.ofOutput (Text.lossy execution.output) ++
    Diagnostic.ofOutput (Text.lossy execution.errors)

/-- The program has ended unsuccessfully. -/
def Failed (execution : Execution) : Prop := execution.status ≠ .code 0

/-- The compiler has reported an error. -/
def NamesError (execution : Execution) : Prop := ∃ d ∈ execution.reported, d.isError = true

/-- What the program has written, trimmed, as far as there is anything. -/
def written (execution : Execution) : List (List Char) :=
  [Text.trim (Text.lossy execution.output), Text.trim (Text.lossy execution.errors)].filter
    (· ≠ [])

end Execution

/-- What an outcome says of the run it comes from. -/
structure Outcome.TellsOf (o : Outcome) (execution : Execution) : Prop where
  /-- All that was reported is told, and at most one error is added, which is the case if the run
  has failed without naming an error. -/
  diagnostics : ∃ added, o.diagnostics = execution.reported ++ added ∧ added.length ≤ 1 ∧
    (added ≠ [] ↔ execution.Failed ∧ ¬execution.NamesError) ∧
    ∀ d ∈ added, ∃ message, d = .error message ∧
      Text.InOrder (execution.status.text.toList :: execution.written) message.toList
  /-- There are errors if the run has failed or named one. -/
  hasErrors_iff : o.hasErrors = true ↔ execution.Failed ∨ execution.NamesError

/-- What tells of a run is honest. -/
theorem Outcome.TellsOf.honest {o : Outcome} {execution : Execution} (htells : o.TellsOf execution) :
    o.Honest := by
  obtain ⟨added, hdiagnostics, -, hadded, herror⟩ := htells.diagnostics
  rw [Honest, htells.hasErrors_iff]
  constructor
  · intro hcause
    by_cases hnames : execution.NamesError
    · obtain ⟨d, hd, hisError⟩ := hnames
      exact ⟨d, hdiagnostics ▸ List.mem_append_left added hd, hisError⟩
    · have hfailed := hcause.resolve_right hnames
      obtain ⟨d, hd⟩ := List.exists_mem_of_ne_nil added (hadded.mpr ⟨hfailed, hnames⟩)
      obtain ⟨message, rfl, -⟩ := herror d hd
      exact ⟨_, hdiagnostics ▸ List.mem_append_right execution.reported hd, rfl⟩
  · rintro ⟨d, hd, hisError⟩
    rw [hdiagnostics] at hd
    rcases List.mem_append.mp hd with hreported | hin
    · exact .inr ⟨d, hreported, hisError⟩
    · exact .inl (hadded.mp (List.ne_nil_of_mem hin)).1

namespace Compiler

/-- The message of a failed run names the status and all that was written. -/
theorem inOrder_failureMessage (execution : Execution) :
    Text.InOrder (execution.status.text.toList :: execution.written)
      (failureMessage execution.status (Text.lossy execution.output)
        (Text.lossy execution.errors)).toList := by
  let detail := Text.join '\n' execution.written
  have hdetail := Text.inOrder_join '\n' execution.written
  have hmessage : failureMessage execution.status (Text.lossy execution.output)
      (Text.lossy execution.errors) =
      if detail = [] then "compiler exited with " ++ execution.status.text
      else "compiler exited with " ++ execution.status.text ++ ": " ++ .ofList detail := rfl
  rw [hmessage]
  split
  · rename_i hempty
    refine ⟨"compiler exited with ".toList, [], ?_, ?_⟩
    · rw [String.toList_append, List.append_nil]
    · exact hempty ▸ hdetail
  · refine ⟨"compiler exited with ".toList, ": ".toList ++ detail, ?_, ?_⟩
    · simp only [String.toList_append, String.toList_ofList, List.append_assoc]
    · exact hdetail.append_left ": ".toList

theorem tellsOf_outcome (d : Descriptor) (execution : Execution) :
    (outcome d execution).TellsOf execution := by
  have hfailed : execution.Failed ↔ execution.status.isSuccess = false := by
    simp [Execution.Failed, ExitStatus.isSuccess]
  have hnames : execution.NamesError ↔ execution.reported.any Diagnostic.isError = true := by
    simp [Execution.NamesError]
  let added := if !execution.status.isSuccess && !execution.reported.any Diagnostic.isError then
    [Diagnostic.error (failureMessage execution.status (Text.lossy execution.output)
      (Text.lossy execution.errors))]
    else []
  have hadded : added ≠ [] ↔ execution.Failed ∧ ¬execution.NamesError := by
    rw [hfailed, hnames]
    simp [added]
  refine ⟨⟨added, rfl, ?_, hadded, ?_⟩, ?_⟩
  · simp only [added]
    split <;> simp
  · intro diagnostic hmem
    simp only [added] at hmem
    split at hmem
    · obtain rfl := List.mem_singleton.mp hmem
      exact ⟨_, rfl, inOrder_failureMessage execution⟩
    · cases hmem
  · have hasErrors : (outcome d execution).hasErrors =
        (execution.reported.any Diagnostic.isError || !execution.status.isSuccess) := rfl
    rw [hasErrors, hfailed, hnames]
    simp [or_comm]

variable {spawn : Spawn} {configured : Option Path} {d : Descriptor} {m after : Machine}

/-- The directory of the binary is made as any other. -/
theorem run_makeOutputDirectory {made : Machine} {parent : Path}
    (hparent : d.outputPath.parent? = some parent) (hwritten : parent.text.isEmpty = false)
    (hmake : m.makeDirectories parent = (made, .ok ())) :
    ((makeOutputDirectory d).run).run m = (.ok (), made) := by
  simp only [makeOutputDirectory, hparent, hwritten, hmake, run_bind, run_get, run_set,
    Bool.false_eq_true, if_false]
  rfl

/-- Compiling takes three steps: the compiler is found, the directory of the binary is made, and the
compiler is run. -/
theorem run_compile (spawn : Spawn) (configured : Option Path) (d : Descriptor) (m : Machine) :
    ((compile spawn configured d).run).run m =
      match resolve m configured with
      | .error e => (.error e, m)
      | .ok program =>
        match ((makeOutputDirectory d).run).run m with
        | (.error e, made) => (.error e, made)
        | (.ok _, made) =>
          match ((spawn program (arguments d)).run).run made with
          | (.error e, after) =>
            (.error (.spawn s!"failed to spawn {program.text}: {e.message}"), after)
          | (.ok execution, after) => (.ok (outcome d execution), after) := by
  simp only [compile, run_bind, run_get]
  cases resolve m configured with
  | error e => rfl
  | ok program =>
      simp only [run_bind, run_adapt]
      rcases ((makeOutputDirectory d).run).run m with ⟨e | _, made⟩
      · rfl
      · dsimp only
        rcases ((spawn program (arguments d)).run).run made with ⟨e | execution, after⟩ <;> rfl

/-- An outcome comes from a run of the compiler. -/
theorem run_compile_eq_ok_iff {o : Outcome} :
    ((compile spawn configured d).run).run m = (.ok o, after) ↔
      ∃ program made execution, resolve m configured = .ok program ∧
        ((makeOutputDirectory d).run).run m = (.ok (), made) ∧
        ((spawn program (arguments d)).run).run made = (.ok execution, after) ∧
        o = outcome d execution := by
  rw [run_compile]
  constructor
  · intro hrun
    cases hresolve : resolve m configured with
    | error e =>
        rw [hresolve] at hrun
        cases hrun
    | ok program =>
        simp only [hresolve] at hrun
        rcases hmade : ((makeOutputDirectory d).run).run m with ⟨e | _, made⟩
        · simp only [hmade] at hrun
          cases hrun
        · simp only [hmade] at hrun
          rcases hspawn : ((spawn program (arguments d)).run).run made with ⟨e | execution, ended⟩
          · simp only [hspawn] at hrun
            cases hrun
          · simp only [hspawn] at hrun
            cases hrun
            exact ⟨program, made, execution, rfl, rfl, hspawn, rfl⟩
  · rintro ⟨program, made, execution, hresolve, hmade, hspawn, rfl⟩
    simp only [hresolve, hmade, hspawn]

end Compiler

namespace DryRun

variable (m : Machine) (d : Descriptor)

theorem isError_of_mem_outcome {diagnostic : Diagnostic}
    (hmem : diagnostic ∈ (outcome m d).diagnostics) : diagnostic.isError = true := by
  simp only [outcome, missingReferences, missingSources, noSources, List.mem_append,
    List.mem_map] at hmem
  rcases hmem with (⟨p, -, rfl⟩ | ⟨p, -, rfl⟩) | hmem
  · rfl
  · rfl
  · split at hmem
    · obtain rfl := List.mem_singleton.mp hmem
      rfl
    · cases hmem

theorem honest_outcome : (outcome m d).Honest := by
  have hasErrors : (outcome m d).hasErrors = (outcome m d).diagnostics.any Diagnostic.isError := rfl
  rw [Outcome.Honest, hasErrors, List.any_eq_true]

/-- Checking the inputs finds no fault if there is a source and every input is a file. -/
theorem hasErrors_eq_false_iff : (outcome m d).hasErrors = false ↔
    d.sources ≠ [] ∧ (∀ p ∈ d.sources, m.isFile p = true) ∧
      ∀ p ∈ d.references, m.isFile p = true := by
  have hnone : (outcome m d).hasErrors = false ↔ (outcome m d).diagnostics = [] := by
    have herror : (outcome m d).hasErrors = true ↔
      ∃ diagnostic ∈ (outcome m d).diagnostics, diagnostic.isError = true := honest_outcome m d
    rw [← Bool.not_eq_true, herror]
    constructor
    · intro hclean
      refine List.eq_nil_iff_forall_not_mem.mpr fun diagnostic hmem => ?_
      exact hclean ⟨diagnostic, hmem, isError_of_mem_outcome m d hmem⟩
    · rintro hempty ⟨diagnostic, hmem, -⟩
      simp [hempty] at hmem
  rw [hnone]
  simp only [outcome, missingReferences, missingSources, noSources, List.append_eq_nil_iff,
    List.map_eq_nil_iff, List.filter_eq_nil_iff]
  by_cases hsources : d.sources = []
  · simp [hsources]
  · simp [hsources, and_comm]

end DryRun

/-- The outcomes of the backends there are are honest. -/
theorem Backend.honest_of_all {spawn : Spawn} {configured : Option Path}
    {backend : Backend (StateM Machine)} (hbackend : backend ∈ all spawn configured)
    {d : Descriptor} {m after : Machine} {o : Outcome}
    (hcompile : ((backend.compile d).run).run m = (.ok o, after)) : o.Honest := by
  simp only [all, List.mem_cons, List.not_mem_nil, or_false] at hbackend
  rcases hbackend with rfl | rfl
  · obtain ⟨_, _, execution, -, -, -, rfl⟩ := Compiler.run_compile_eq_ok_iff.mp hcompile
    exact (Compiler.tellsOf_outcome d execution).honest
  · cases hcompile
    exact DryRun.honest_outcome m d

/-- A result is the meaning of an outcome. -/
theorem Runner.outcome_of_run {runner : Runner (StateM Machine)} {d : Descriptor}
    {m after : Machine} {result : BuildResult}
    (hrun : ((runner.run d).run).run m = (.ok result, after)) :
    ∃ o compiled, ((runner.backend.compile d).run).run m = (.ok o, compiled) ∧
      result = .ofOutcome o := by
  obtain ⟨calls, answer, last, hgoes, hanswer, -⟩ := runner.goes_watched d m []
  obtain ⟨rfl, rfl⟩ := Prod.mk.inj (hrun.symm.trans hanswer)
  cases hgoes with
  | failed hcompile herrors => exact ⟨_, _, hcompile, by simp [BuildResult.ofOutcome, herrors]⟩
  | succeeded hcompile hclean _ => exact ⟨_, _, hcompile, by simp [BuildResult.ofOutcome, hclean]⟩

/-- What the result of an honest outcome says of its errors. -/
theorem Outcome.Honest.result {o : Outcome} (honest : o.Honest) :
    match BuildResult.ofOutcome o with
    | .success _ => ∀ diagnostic ∈ o.diagnostics, diagnostic.isError = false
    | .failure diagnostics =>
      diagnostics = o.diagnostics ∧ ∃ diagnostic ∈ diagnostics, diagnostic.isError = true := by
  cases herrors : o.hasErrors with
  | true =>
      simp only [BuildResult.ofOutcome, herrors, if_true, true_and]
      exact honest.mp herrors
  | false =>
      simp only [BuildResult.ofOutcome, herrors, Bool.false_eq_true, if_false]
      intro diagnostic hmem
      refine Bool.eq_false_iff.mpr fun hisError => ?_
      rw [honest.mpr ⟨diagnostic, hmem, hisError⟩] at herrors
      cases herrors

/-- Where the compiler has been run, the outcome tells of that run, and there is no outcome that
does not come from a run.  Checking the inputs has an outcome, which is honest and finds no fault
exactly if there is a source and every input is a file.  So a build that fails names an error, and
one that succeeds has reported none. -/
theorem errors_told (spawn : Spawn) (configured : Option Path) (d : Descriptor) (m : Machine) :
    let compiling := ((Compiler.backend spawn configured).compile d).run
    let checking := (DryRun.backend.compile d).run
    (∀ program made execution after, Compiler.resolve m configured = .ok program →
      ((Compiler.makeOutputDirectory d).run).run m = (.ok (), made) →
      ((spawn program (Compiler.arguments d)).run).run made = (.ok execution, after) →
      ∃ o, compiling.run m = (.ok o, after) ∧ o.TellsOf execution ∧ o.Honest) ∧
    (∀ o after, compiling.run m = (.ok o, after) →
      ∃ program made execution, Compiler.resolve m configured = .ok program ∧
        ((Compiler.makeOutputDirectory d).run).run m = (.ok (), made) ∧
        ((spawn program (Compiler.arguments d)).run).run made = (.ok execution, after) ∧
        o.TellsOf execution ∧ o.Honest) ∧
    (∃ o, checking.run m = (.ok o, m) ∧ o.Honest ∧
      (o.hasErrors = false ↔ d.sources ≠ [] ∧ (∀ p ∈ d.sources, m.isFile p = true) ∧
        ∀ p ∈ d.references, m.isFile p = true)) ∧
    ∀ backend ∈ Backend.all spawn configured, ∀ refresher result after,
      (((Runner.mk backend refresher).run d).run).run m = (.ok result, after) →
      ∃ o compiled, ((backend.compile d).run).run m = (.ok o, compiled) ∧
        match result with
        | .success _ => ∀ diagnostic ∈ o.diagnostics, diagnostic.isError = false
        | .failure diagnostics => diagnostics = o.diagnostics ∧
          ∃ diagnostic ∈ diagnostics, diagnostic.isError = true := by
  intro compiling checking
  refine ⟨?_, ?_, ?_, ?_⟩
  · intro program made execution after hresolve hmade hspawn
    have htells := Compiler.tellsOf_outcome d execution
    exact ⟨Compiler.outcome d execution,
      Compiler.run_compile_eq_ok_iff.mpr ⟨program, made, execution, hresolve, hmade, hspawn, rfl⟩,
      htells, htells.honest⟩
  · intro o after hcompile
    obtain ⟨program, made, execution, hresolve, hmade, hspawn, rfl⟩ :=
      Compiler.run_compile_eq_ok_iff.mp hcompile
    have htells := Compiler.tellsOf_outcome d execution
    exact ⟨program, made, execution, hresolve, hmade, hspawn, htells, htells.honest⟩
  · exact ⟨DryRun.outcome m d, rfl, DryRun.honest_outcome m d, DryRun.hasErrors_eq_false_iff m d⟩
  · intro backend hbackend refresher result after hrun
    obtain ⟨o, compiled, hcompile, rfl⟩ := Runner.outcome_of_run hrun
    exact ⟨o, compiled, hcompile, (Backend.honest_of_all hbackend hcompile).result⟩

end ScriptAssembly
