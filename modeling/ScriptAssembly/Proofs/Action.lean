import Mathlib

/-!
# Running actions

The actions of the program may fail and change a state.  What was changed before the failure stays,
so a run always ends in a state; the lemmas say which result and which state each step ends in.
-/

namespace ScriptAssembly

variable {ε σ α β : Type}

theorem run_bind (c : ExceptT ε (StateM σ) α) (f : α → ExceptT ε (StateM σ) β) (s : σ) :
    ((c >>= f).run).run s =
      match (c.run).run s with
      | (.ok x, after) => ((f x).run).run after
      | (.error e, after) => (.error e, after) := by
  simp only [ExceptT.run_bind, StateT.run_bind]
  rcases (c.run).run s with ⟨result, after⟩
  cases result <;> rfl

theorem run_get (s : σ) : ((getThe σ : ExceptT ε (StateM σ) σ).run).run s = (.ok s, s) := rfl

theorem run_set (s after : σ) :
    ((set after : ExceptT ε (StateM σ) PUnit).run).run s = (.ok (), after) := rfl

theorem run_modify (s : σ) (f : σ → σ) :
    ((modifyThe σ f : ExceptT ε (StateM σ) PUnit).run).run s = (.ok (), f s) := rfl

theorem run_pure (s : σ) (x : α) : ((pure x : ExceptT ε (StateM σ) α).run).run s = (.ok x, s) :=
  rfl

theorem run_adapt {ε' : Type} (c : ExceptT ε (StateM σ) α) (f : ε → ε') (s : σ) :
    ((c.adapt f).run).run s = (((c.run).run s).1.mapError f, ((c.run).run s).2) := by
  rw [ExceptT.run_adapt, StateT.run_map]
  rfl

end ScriptAssembly
