import ScriptAssembly.Proofs.Build.Verdict
import ScriptAssembly.Proofs.Machine.Files

/-!
# What a backend does to a machine

A backend leaves the machine as it was, or makes the directory of the binary, or makes that
directory and runs the compiler.  The compiler is a program of its own, so what it does to a place
is a hypothesis.
-/

namespace ScriptAssembly

namespace Compiler

theorem grows_makeOutputDirectory (d : Descriptor) (m : Machine) :
    m.Grows (((makeOutputDirectory d).run).run m).2 := by
  unfold makeOutputDirectory
  cases d.outputPath.parent? with
  | none => exact .refl m
  | some parent =>
      have hgrows := m.grows_makeDirectories parent
      dsimp only
      by_cases hempty : parent.text.isEmpty
      · rw [if_pos hempty]
        exact .refl m
      · rw [if_neg hempty]
        simp only [run_bind, run_get]
        cases hmade : m.makeDirectories parent with
        | mk made result =>
            rw [hmade] at hgrows
            cases result <;> exact hgrows

end Compiler

namespace Backend

variable {spawn : Spawn} {configured : Option Path} {backend : Backend (StateM Machine)}

/-- The backend runs the compiler on a descriptor: on a machine with the directory of the binary,
and with what the compiler makes of it. -/
def Spawns (spawn : Spawn) (backend : Backend (StateM Machine)) (d : Descriptor)
    (m before after : Machine) : Prop :=
  ∃ configured program, backend = Compiler.backend spawn configured ∧
    Compiler.resolve m configured = .ok program ∧
    ((Compiler.makeOutputDirectory d).run).run m = (.ok (), before) ∧
    (((spawn program (Compiler.arguments d)).run).run before).2 = after

/-- A backend leaves the machine as it was, or it makes the directory of the binary, or it makes
that directory and runs the compiler. -/
theorem compile_cases (hbackend : backend ∈ all spawn configured) (d : Descriptor) (m : Machine) :
    let made := (((Compiler.makeOutputDirectory d).run).run m).2
    let compiled := (((backend.compile d).run).run m).2
    compiled = m ∨ compiled = made ∨ backend.Spawns spawn d m made compiled := by
  intro made compiled
  simp only [all, List.mem_cons, List.not_mem_nil, or_false] at hbackend
  rcases hbackend with rfl | rfl
  · have hcompile : compiled = (((Compiler.compile spawn configured d).run).run m).2 := rfl
    rw [Compiler.run_compile] at hcompile
    cases hresolve : Compiler.resolve m configured with
    | error e =>
        rw [hresolve] at hcompile
        exact .inl hcompile
    | ok program =>
        simp only [hresolve] at hcompile
        rcases hmade : ((Compiler.makeOutputDirectory d).run).run m with ⟨e | _, before⟩
        · simp only [hmade] at hcompile
          exact .inr (.inl (by rw [hcompile]; exact (congrArg Prod.snd hmade).symm))
        · simp only [hmade] at hcompile
          have hbefore : made = before := congrArg Prod.snd hmade
          refine .inr (.inr ⟨configured, program, rfl, hresolve, hbefore ▸ hmade, ?_⟩)
          rw [hcompile, hbefore]
          rcases ((spawn program (Compiler.arguments d)).run).run before with ⟨e | execution, after⟩
          · rfl
          · rfl
  · exact .inl rfl

theorem outputPath_of_all (hbackend : backend ∈ all spawn configured) {d : Descriptor}
    {m compiled : Machine} {o : Outcome}
    (hcompile : ((backend.compile d).run).run m = (.ok o, compiled)) :
    o.outputPath = d.outputPath := by
  simp only [all, List.mem_cons, List.not_mem_nil, or_false] at hbackend
  rcases hbackend with rfl | rfl
  · obtain ⟨_, _, execution, -, -, -, rfl⟩ := Compiler.run_compile_eq_ok_iff.mp hcompile
    rfl
  · cases hcompile
    rfl

end Backend

end ScriptAssembly
