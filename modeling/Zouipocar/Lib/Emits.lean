import Mathlib.Computability.Language
import Mathlib.Order.CompletePartialOrder
import Zouipocar.Lib.Action

/-!
# What a program puts out

The state of a program has an output that grows at its end. `Emits out x W`
says that a run of `x` that returns `a` has put out a word of the language
`W a`; nothing is said of a run that stops with an error. The rules follow the
construction of the program, the one for `>>=` multiplying languages.
-/

namespace Lib.Action

variable {σ τ ε α β γ : Type} {out : σ → List γ}

/-- A run that returns `a` adds a word of `W a` to the output. -/
def Emits (out : σ → List γ) (x : Action σ ε α) (W : α → Language γ) : Prop :=
  ∀ s a t, result x s = (.ok a, t) → ∃ w ∈ W a, out t = out s ++ w

/-- A run that returns puts out nothing. -/
abbrev Quiet (out : σ → List γ) (x : Action σ ε α) : Prop := Emits out x fun _ => 1

theorem emits_pure {W : α → Language γ} (a : α) (empty : [] ∈ W a) :
    Emits out (pure a : Action σ ε α) W := by
  rintro s _ _ ⟨⟩
  exact ⟨[], empty, (List.append_nil _).symm⟩

theorem emits_throw (e : ε) (W : α → Language γ) : Emits out (throw e : Action σ ε α) W := by
  rintro s a t ⟨⟩

theorem quiet_get : Quiet out (get : Action σ ε σ) := by
  rintro s _ _ ⟨⟩
  exact ⟨[], rfl, (List.append_nil _).symm⟩

/-- A change of what is not the output. -/
theorem quiet_modify {f : σ → σ} (same : ∀ s, out (f s) = out s) :
    Quiet out (modify f : Action σ ε PUnit) := by
  rintro s _ _ ⟨⟩
  exact ⟨[], rfl, (same s).trans (List.append_nil _).symm⟩

theorem Emits.mono {x : Action σ ε α} {W V : α → Language γ} (h : Emits out x W)
    (within : ∀ a, W a ≤ V a) : Emits out x V := by
  intro s a t ran
  obtain ⟨w, word, grown⟩ := h s a t ran
  exact ⟨w, within a word, grown⟩

/-- **One program after the other puts out one word after the other.** -/
theorem Emits.bind {x : Action σ ε α} {f : α → Action σ ε β} {W : α → Language γ}
    {V : β → Language γ} {U : α → β → Language γ} (first : Emits out x W)
    (next : ∀ a, Emits out (f a) (U a)) (joined : ∀ a b, W a * U a b ≤ V b) :
    Emits out (x >>= f) V := by
  intro s b t ran
  rw [result_bind] at ran
  cases left : result x s with
  | mk outcome m =>
    rw [left] at ran
    cases outcome with
    | error e => cases ran
    | ok a =>
      obtain ⟨v, before, grown⟩ := first s a m left
      obtain ⟨w, after, grown'⟩ := next a m b t ran
      refine ⟨v ++ w, joined a b (Language.append_mem_mul before after), ?_⟩
      rw [grown', grown, List.append_assoc]

/-- A quiet program in front adds nothing. -/
theorem Quiet.bind {x : Action σ ε α} {f : α → Action σ ε β} {V : β → Language γ}
    (first : Quiet out x) (next : ∀ a, Emits out (f a) V) : Emits out (x >>= f) V :=
  Emits.bind first next fun _ b => (one_mul (V b)).le

/-- A quiet program behind adds nothing. -/
theorem Emits.then_quiet {x : Action σ ε α} {f : α → Action σ ε β} {V : Language γ}
    (first : Emits out x fun _ => V) (next : ∀ a, Quiet out (f a)) :
    Emits out (x >>= f) fun _ => V :=
  first.bind next fun _ _ => (mul_one V).le

/-! ## A program on a part of the state -/

/-- A program on the part of the state that `view` shows and `put` replaces. -/
def zoom (view : τ → σ) (put : τ → σ → τ) (x : Action σ ε α) : Action τ ε α :=
  fun s => ((result x (view s)).1, put s (result x (view s)).2)

@[simp] theorem result_zoom (view : τ → σ) (put : τ → σ → τ) (x : Action σ ε α) (s : τ) :
    result (zoom view put x) s = ((result x (view s)).1, put s (result x (view s)).2) := rfl

theorem Emits.zoom {view : τ → σ} {put : τ → σ → τ} (law : ∀ s p, view (put s p) = p)
    {x : Action σ ε α} {W : α → Language γ} (h : Emits out x W) :
    Emits (fun s => out (view s)) (zoom view put x) W := by
  intro s a t ran
  rw [result_zoom] at ran
  obtain ⟨same, rfl⟩ := Prod.mk.inj ran
  obtain ⟨w, word, grown⟩ := h (view s) a _ (Prod.ext same rfl)
  exact ⟨w, word, (congrArg out (law _ _)).trans grown⟩

end Lib.Action
