import Zouipocar.Lib.Action

/-!
# Two runs of one program

A program run twice from related states: `Agree pre post low` says that both
runs end the same way, in states related by `post` if they return and by `low`
if they stop with an error. The rules take the two runs through a program side
by side, so that a difference in the states has to be accounted for only where
the program looks at it.
-/

namespace Lib.Action

variable {σ ε α β : Type} {pre mid post low : σ → σ → Prop}

/-- Related states for an outcome of both runs. -/
def After (post low : σ → σ → Prop) : Except ε α → σ → σ → Prop
  | .ok _ => post
  | .error _ => low

/-- From related states both runs have the same outcome, in related states. -/
def Agree (pre post low : σ → σ → Prop) (x : Action σ ε α) : Prop :=
  ∀ s t, pre s t → (result x s).1 = (result x t).1 ∧
    After post low (result x s).1 (result x s).2 (result x t).2

theorem agree_pure (a : α) : Agree pre pre low (pure a : Action σ ε α) := fun _ _ h => ⟨rfl, h⟩

theorem agree_throw (e : ε) (seen : ∀ s t, pre s t → low s t) :
    Agree pre post low (throw e : Action σ ε α) := fun s t h => ⟨rfl, seen s t h⟩

theorem agree_modify {f : σ → σ} (keeps : ∀ s t, pre s t → post (f s) (f t)) :
    Agree pre post low (modify f : Action σ ε PUnit) := fun s t h => ⟨rfl, keeps s t h⟩

/-- A value that is the same in both states. -/
theorem agree_read {f : σ → α} (same : ∀ s t, pre s t → f s = f t) :
    Agree pre pre low (do return f (← get) : Action σ ε α) :=
  fun s t h => ⟨congrArg Except.ok (same s t h), h⟩

/-- **Runs that agree go on together.** -/
theorem Agree.bind {x : Action σ ε α} {f : α → Action σ ε β} (first : Agree pre mid low x)
    (next : ∀ a, Agree mid post low (f a)) : Agree pre post low (x >>= f) := by
  intro s t related
  obtain ⟨same, after⟩ := first s t related
  rw [result_bind, result_bind]
  cases left : result x s with
  | mk outcome s' =>
    cases right : result x t with
    | mk outcome' t' =>
      rw [left, right] at same after
      obtain rfl : outcome = outcome' := same
      cases outcome with
      | ok a => exact next a s' t' after
      | error e => exact ⟨rfl, after⟩

theorem Agree.weaken {x : Action σ ε α} (h : Agree pre mid low x) (weaker : ∀ s t, mid s t → post s t) :
    Agree pre post low x := by
  intro s t related
  obtain ⟨same, after⟩ := h s t related
  refine ⟨same, ?_⟩
  cases outcome : (result x s).1 with
  | ok a =>
    rw [outcome] at after
    exact weaker _ _ after
  | error e =>
    rw [outcome] at after
    exact after

end Lib.Action
