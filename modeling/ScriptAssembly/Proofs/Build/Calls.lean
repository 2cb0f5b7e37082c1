import ScriptAssembly.Build.Pipeline
import ScriptAssembly.Proofs.Action

/-!
# What a build calls

The backend and the refresher of a build are programs that may fail and may change a state of any
kind.  A watched runner does what the runner does and notes every call with its answer.  So the
notes tell what a build has called, in which order and with what, and the result of the build is
read off them.
-/

namespace ScriptAssembly

/-- A call of the backend or of the refresher, with its answer. -/
inductive Call where
  /-- The backend was handed a descriptor. -/
  | compile (d : Descriptor) (answer : Except BackendError Outcome)
  /-- The refresher was told of a binary. -/
  | refresh (output : Path) (answer : Except BackendError Unit)

namespace Call

/-- The descriptor that the backend was handed. -/
def descriptor? : Call → Option Descriptor
  | compile d _ => some d
  | refresh .. => none

/-- The outcome that the backend answered with. -/
def outcome? : Call → Option Outcome
  | compile _ (.ok o) => some o
  | _ => none

/-- The binary that the refresher was told of. -/
def output? : Call → Option Path
  | compile .. => none
  | refresh output _ => some output

/-- The call did not fail. -/
def Succeeds : Call → Prop
  | compile _ answer => ∃ o, answer = .ok o
  | refresh _ answer => answer = .ok ()

end Call

section

variable {σ ε α : Type}

/-- The action, with a note of the call that it is. -/
def noting (call : Except ε α → Call) (action : ExceptT ε (StateM σ) α) :
    ExceptT ε (StateM (σ × List Call)) α := do
  let (state, calls) ← getThe (σ × List Call)
  let (answer, after) := (action.run).run state
  set (after, calls ++ [call answer])
  match answer with
  | .ok x => return x
  | .error e => throw e

theorem run_noting (call : Except ε α → Call) (action : ExceptT ε (StateM σ) α) (state : σ)
    (calls : List Call) :
    ((noting call action).run).run (state, calls) =
      (((action.run).run state).1,
        (((action.run).run state).2, calls ++ [call ((action.run).run state).1])) := by
  simp only [noting, run_bind, run_get]
  rcases (action.run).run state with ⟨e | x, after⟩ <;> rfl

namespace Runner

/-- The runner with a note of every call. -/
def watched (runner : Runner (StateM σ)) : Runner (StateM (σ × List Call)) where
  backend := ⟨runner.backend.name, fun d => noting (.compile d) (runner.backend.compile d)⟩
  refresher output := noting (.refresh output) (runner.refresher output)

/-- The ways a run can go: the calls it makes, its result and the state it leaves. -/
inductive Goes (runner : Runner (StateM σ)) (d : Descriptor) (state : σ) :
    List Call → Except BackendError BuildResult → σ → Prop
  | uncompiled {e after}
      (hcompile : ((runner.backend.compile d).run).run state = (.error e, after)) :
      Goes runner d state [.compile d (.error e)] (.error e) after
  | failed {o after} (hcompile : ((runner.backend.compile d).run).run state = (.ok o, after))
      (herrors : o.hasErrors = true) :
      Goes runner d state [.compile d (.ok o)] (.ok (.failure o.diagnostics)) after
  | unrefreshed {o between e after}
      (hcompile : ((runner.backend.compile d).run).run state = (.ok o, between))
      (hclean : o.hasErrors = false)
      (hrefresh : ((runner.refresher o.outputPath).run).run between = (.error e, after)) :
      Goes runner d state [.compile d (.ok o), .refresh o.outputPath (.error e)] (.error e) after
  | succeeded {o between after}
      (hcompile : ((runner.backend.compile d).run).run state = (.ok o, between))
      (hclean : o.hasErrors = false)
      (hrefresh : ((runner.refresher o.outputPath).run).run between = (.ok (), after)) :
      Goes runner d state [.compile d (.ok o), .refresh o.outputPath (.ok ())]
        (.ok (.success o.outputPath)) after

variable (runner : Runner (StateM σ)) (d : Descriptor) (state : σ)

/-- A watched run goes one of the ways, and the run that is not watched goes the same way. -/
theorem goes_watched (calls : List Call) : ∃ made result after,
    runner.Goes d state made result after ∧
      ((runner.run d).run).run state = (result, after) ∧
      ((runner.watched.run d).run).run (state, calls) = (result, (after, calls ++ made)) := by
  rw [run, run, run_bind, run_bind, watched, run_noting]
  rcases hcompile : ((runner.backend.compile d).run).run state with ⟨e | o, between⟩
  · exact ⟨_, _, _, .uncompiled hcompile, rfl, rfl⟩
  · cases herrors : o.hasErrors with
    | true =>
        refine ⟨_, _, _, .failed hcompile herrors, ?_, ?_⟩
        · simp only [BuildResult.ofOutcome, herrors, if_true]
          rfl
        · simp only [BuildResult.ofOutcome, herrors, if_true]
          rfl
    | false =>
        simp only [BuildResult.ofOutcome, herrors, Bool.false_eq_true, if_false, run_bind,
          run_noting]
        rcases hrefresh : ((runner.refresher o.outputPath).run).run between with ⟨e | _, after⟩
        · exact ⟨_, _, _, .unrefreshed hcompile herrors hrefresh, rfl, by simp⟩
        · refine ⟨_, _, _, .succeeded hcompile herrors hrefresh, rfl, ?_⟩
          simp only [List.append_assoc]
          rfl

namespace Goes

variable {runner : Runner (StateM σ)} {d : Descriptor} {state after : σ} {calls : List Call}
  {result : Except BackendError BuildResult}

theorem descriptors (hgoes : runner.Goes d state calls result after) :
    calls.filterMap Call.descriptor? = [d] := by
  cases hgoes <;> rfl

/-- The refresher is told of the binary that an outcome without errors names. -/
theorem outputs (hgoes : runner.Goes d state calls result after) :
    calls.filterMap Call.output? =
      ((calls.filterMap Call.outcome?).filter fun o => !o.hasErrors).map Outcome.outputPath := by
  cases hgoes with
  | uncompiled => rfl
  | failed _ herrors => simp [Call.output?, Call.outcome?, herrors]
  | unrefreshed _ hclean _ => simp [List.filterMap_cons, Call.output?, Call.outcome?, hclean]
  | succeeded _ hclean _ => simp [List.filterMap_cons, Call.output?, Call.outcome?, hclean]

theorem head_compiles (hgoes : runner.Goes d state calls result after) :
    calls.head?.bind Call.output? = none := by
  cases hgoes <;> rfl

/-- The noted answer of the backend is the one it gives in the state that the run starts in. -/
theorem answer_compile (hgoes : runner.Goes d state calls result after) {d' : Descriptor}
    {answer : Except BackendError Outcome} (hcall : .compile d' answer ∈ calls) :
    (((runner.backend.compile d').run).run state).1 = answer := by
  cases hgoes with
  | uncompiled hcompile => simp_all
  | failed hcompile _ => simp_all
  | unrefreshed hcompile _ _ => simp_all
  | succeeded hcompile _ _ => simp_all

theorem ok_iff (hgoes : runner.Goes d state calls result after) :
    (∃ built, result = .ok built) ↔ ∀ call ∈ calls, call.Succeeds := by
  cases hgoes <;> simp [Call.Succeeds]

/-- A result is the meaning of the only outcome there is. -/
theorem outcome (hgoes : runner.Goes d state calls result after) {built : BuildResult}
    (hbuilt : result = .ok built) : ∃ o, calls.filterMap Call.outcome? = [o] ∧
      built = if o.hasErrors then .failure o.diagnostics else .success o.outputPath := by
  cases hgoes with
  | uncompiled => cases hbuilt
  | @failed o after hcompile herrors =>
      cases hbuilt
      exact ⟨o, rfl, by simp [herrors]⟩
  | unrefreshed => cases hbuilt
  | @succeeded o between after hcompile hclean hrefresh =>
      cases hbuilt
      exact ⟨o, rfl, by simp [hclean]⟩

end Goes

end Runner

section ScanAndBuild

variable {scan : Option (Session → Except ScanError Session)} {s scanned : Session}

theorem run_scanAndBuild_of_error {e : ScanError} (hscan : s.scanned scan = .error e)
    (runner : Runner (StateM σ)) (directory : Path) (state : σ) :
    ((scanAndBuild scan runner directory s).run).run state = (.error (.scan e), state) := by
  rw [scanAndBuild, hscan]
  rfl

theorem run_scanAndBuild_of_ok (hscan : s.scanned scan = .ok scanned)
    (runner : Runner (StateM σ)) (directory : Path) (state : σ) :
    ((scanAndBuild scan runner directory s).run).run state =
      match ((runner.run (scanned.descriptor directory)).run).run state with
      | (.ok result, after) => (.ok (scanned, result), after)
      | (.error e, after) => (.error (.backend e), after) := by
  rw [scanAndBuild, hscan]
  simp only [run_bind, run_adapt]
  rcases ((runner.run (scanned.descriptor directory)).run).run state with ⟨e | result, after⟩
  · rfl
  · rfl

end ScanAndBuild

/-- A scan changes nothing but the symbols. -/
theorem Session.eq_withSymbols_of_scanned {reader : Option Machine} {s returned : Session}
    (hscanned : s.scanned (reader.map Session.rescan) = .ok returned) :
    returned = s.withSymbols returned.symbols ∧ (reader = none → returned = s) := by
  cases reader with
  | none =>
      cases hscanned
      exact ⟨rfl, fun _ => rfl⟩
  | some m =>
      refine ⟨?_, fun hnone => nomatch hnone⟩
      have hrescan : (m.scanFiles s.sources.toList).map (fun symbols => s.withSymbols symbols) =
          .ok returned := hscanned
      cases hfiles : m.scanFiles s.sources.toList with
      | error e =>
          rw [hfiles] at hrescan
          cases hrescan
      | ok symbols =>
          rw [hfiles] at hrescan
          cases hrescan
          rfl

/-- A build calls the backend exactly if nothing is to be scanned or the scan succeeds, once and
with the inputs of the session that it returns.  It calls the refresher exactly if the backend has
answered with an outcome without errors, once, afterwards and with the binary of that outcome.  It
succeeds exactly if the scan and all calls do, the outcome is what its result means, and the session
it returns is the given one, apart from the symbols of a scan. -/
theorem calls_of_scanAndBuild (reader : Option Machine) (runner : Runner (StateM σ))
    (directory : Path) (s : Session) (state : σ) :
    let scan := reader.map Session.rescan
    let watched := ((scanAndBuild scan runner.watched directory s).run).run (state, [])
    let result := watched.1
    let calls := watched.2.2
    ((scanAndBuild scan runner directory s).run).run state = (result, watched.2.1) ∧
    (calls.filterMap Call.descriptor? =
      match s.scanned scan with
      | .ok returned => [returned.descriptor directory]
      | .error _ => []) ∧
    (∀ d answer, Call.compile d answer ∈ calls →
      (((runner.backend.compile d).run).run state).1 = answer) ∧
    calls.filterMap Call.output? =
      ((calls.filterMap Call.outcome?).filter fun o => !o.hasErrors).map Outcome.outputPath ∧
    calls.head?.bind Call.output? = none ∧
    ((∃ built, result = .ok built) ↔
      (∃ returned, s.scanned scan = .ok returned) ∧ ∀ call ∈ calls, call.Succeeds) ∧
    (∀ returned built, result = .ok (returned, built) →
      s.scanned scan = .ok returned ∧
      ∃ o, calls.filterMap Call.outcome? = [o] ∧
        built = if o.hasErrors then .failure o.diagnostics else .success o.outputPath) ∧
    ∀ returned, s.scanned scan = .ok returned →
      returned = s.withSymbols returned.symbols ∧ (reader = none → returned = s) := by
  intro scan watched result calls
  cases hscan : s.scanned scan with
  | error e =>
      have hwatched : watched = (.error (.scan e), (state, [])) :=
        run_scanAndBuild_of_error hscan runner.watched directory (state, [])
      have hrun := run_scanAndBuild_of_error hscan runner directory state
      simp [result, calls, hwatched, hrun]
  | ok returned =>
      obtain ⟨made, answer, after, hgoes, hrun, hnoted⟩ :=
        runner.goes_watched (returned.descriptor directory) state []
      have hplain := run_scanAndBuild_of_ok hscan runner directory state
      have hwatched : watched = _ :=
        run_scanAndBuild_of_ok hscan runner.watched directory (state, [])
      rw [hrun] at hplain
      rw [hnoted, List.nil_append] at hwatched
      have hresult : result = (answer.map fun built => (returned, built)).mapError .backend := by
        cases answer <;> simp [result, hwatched, Except.map, Except.mapError]
      have hcalls : calls = made := by
        cases answer <;> simp [calls, hwatched]
      have hbuilt : ∀ session built, result = .ok (session, built) →
          returned = session ∧ answer = .ok built := by
        intro session built hok
        cases answer with
        | error e => simp [hresult, Except.map, Except.mapError] at hok
        | ok other => simpa [hresult, Except.map, Except.mapError] using hok
      rw [hcalls]
      refine ⟨?_, hgoes.descriptors, fun _ _ => hgoes.answer_compile, hgoes.outputs,
        hgoes.head_compiles, ?_, ?_, ?_⟩
      · cases answer <;> simp [hplain, hwatched, hresult, Except.map, Except.mapError]
      · rw [← hgoes.ok_iff]
        cases answer <;> simp [hresult, Except.map, Except.mapError]
      · intro session built hok
        obtain ⟨rfl, hanswer⟩ := hbuilt session built hok
        exact ⟨rfl, hgoes.outcome hanswer⟩
      · intro session hsession
        cases hsession
        exact Session.eq_withSymbols_of_scanned hscan

end

end ScriptAssembly
