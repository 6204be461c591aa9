import Mathlib.Logic.Basic

/-!
# Programs with a state and early returns

An `Action` reads and changes a state and may return early with a code.
`result` runs one, and the rules below run it statement by statement.
-/

namespace Lib

abbrev Action (σ ε α : Type) := ExceptT ε (StateM σ) α

variable {σ ε α β : Type}

namespace Action

/-- The result of a program and the state it leaves. -/
def result (x : Action σ ε α) (s : σ) : Except ε α × σ := (x.run.run s)

variable (s : σ)

@[simp] theorem result_pure (a : α) : result (pure a : Action σ ε α) s = (.ok a, s) := rfl

@[simp] theorem result_throw (e : ε) : result (throw e : Action σ ε α) s = (.error e, s) := rfl

@[simp] theorem result_get : result (get : Action σ ε σ) s = (.ok s, s) := rfl

@[simp] theorem result_set (t : σ) : result (set t : Action σ ε PUnit) s = (.ok ⟨⟩, t) := rfl

@[simp] theorem result_modify (f : σ → σ) :
    result (modify f : Action σ ε PUnit) s = (.ok ⟨⟩, f s) := rfl

theorem result_bind (x : Action σ ε α) (f : α → Action σ ε β) :
    result (x >>= f) s = match result x s with
      | (.ok a, t) => result (f a) t
      | (.error e, t) => (.error e, t) := by
  show (match (result x s).1 with
    | .ok a => (f a).run
    | .error e => pure (.error e)).run (result x s).2 = _
  generalize result x s = r
  obtain ⟨outcome, t⟩ := r
  cases outcome <;> rfl

theorem result_bind_ok {x : Action σ ε α} {f : α → Action σ ε β} {s t : σ} {a : α}
    (h : result x s = (.ok a, t)) : result (x >>= f) s = result (f a) t := by
  rw [result_bind, h]

theorem result_bind_error {x : Action σ ε α} {f : α → Action σ ε β} {s t : σ} {e : ε}
    (h : result x s = (.error e, t)) : result (x >>= f) s = (.error e, t) := by
  rw [result_bind, h]

end Action

end Lib
