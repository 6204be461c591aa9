import Zouipocar.Lib.Emits

/-!
# Programs with fuel

A loop whose end is not plain to see is given fuel, and the program stops with
an error when it is spent. `Settles` says what such a program comes to with
fuel enough, `Stable` that a result obtained with some fuel stays with more.
Both are carried through a program by their rules, so that only its loops have
to be looked at.
-/

namespace Lib.Action

variable {σ τ ε α β : Type} {s t u : σ} {a : α} {b : β}

/-- With fuel enough the program returns this, in this state. -/
def Settles (x : Nat → Action σ ε α) (s : σ) (a : α) (t : σ) : Prop :=
  ∃ enough, ∀ fuel, enough ≤ fuel → result (x fuel) s = (.ok a, t)

/-- Some fuel makes the program return. -/
def Returns (x : Nat → Action σ ε α) (s : σ) : Prop := ∃ fuel a t, result (x fuel) s = (.ok a, t)

/-- More fuel does not change a result. -/
def Stable (x : Nat → Action σ ε α) : Prop :=
  ∀ s fuel a t, result (x fuel) s = (.ok a, t) → ∀ more, result (x (fuel + more)) s = (.ok a, t)

section Settles

variable {x : Nat → Action σ ε α} {f : Nat → α → Action σ ε β}

/-- A program without loops. -/
theorem settles_of_result {y : Action σ ε α} (ran : result y s = (.ok a, t)) : Settles (fun _ => y) s a t :=
  ⟨0, fun _ _ => ran⟩

theorem Settles.result_eq (h : Settles x s a t) : ∃ fuel, result (x fuel) s = (.ok a, t) := by
  obtain ⟨enough, ran⟩ := h
  exact ⟨enough, ran enough (Nat.le_refl _)⟩

theorem returns_of_settles (h : ∃ a t, Settles x s a t) : Returns x s := by
  obtain ⟨a, t, settled⟩ := h
  obtain ⟨fuel, ran⟩ := settled.result_eq
  exact ⟨fuel, a, t, ran⟩

/-- **One program after the other.** -/
theorem Settles.bind (first : Settles x s a t) (next : Settles (fun fuel => f fuel a) t b u) :
    Settles (fun fuel => x fuel >>= f fuel) s b u := by
  obtain ⟨enough, ran⟩ := first
  obtain ⟨enough', ran'⟩ := next
  refine ⟨max enough enough', fun fuel more => ?_⟩
  rw [result_bind_ok (ran fuel (Nat.le_trans (Nat.le_max_left ..) more))]
  exact ran' fuel (Nat.le_trans (Nat.le_max_right ..) more)

/-- What a program settles to is what it returns with any fuel. -/
theorem Settles.eq_result (h : Settles x s a t) (stable : Stable x) {fuel : Nat} {a' : α} {t' : σ}
    (ran : result (x fuel) s = (.ok a', t')) : a' = a ∧ t' = t := by
  obtain ⟨enough, settled⟩ := h
  have later := stable s fuel a' t' ran enough
  rw [settled (fuel + enough) (Nat.le_add_left ..)] at later
  obtain ⟨same, rfl⟩ := Prod.mk.inj later
  exact ⟨(Except.ok.inj same).symm, rfl⟩

theorem Settles.unique {a' : α} {t' : σ} (h : Settles x s a t) (h' : Settles x s a' t') : a = a' ∧ t = t' := by
  obtain ⟨enough, ran⟩ := h
  obtain ⟨enough', ran'⟩ := h'
  have same := ran (max enough enough') (Nat.le_max_left ..)
  rw [ran' (max enough enough') (Nat.le_max_right ..)] at same
  obtain ⟨outcome, rfl⟩ := Prod.mk.inj same
  exact ⟨(Except.ok.inj outcome).symm, rfl⟩

/-- A result that stays is settled. -/
theorem Returns.settles (h : Returns x s) (stable : Stable x) : ∃ a t, Settles x s a t := by
  obtain ⟨fuel, a, t, ran⟩ := h
  refine ⟨a, t, fuel, fun more enough => ?_⟩
  obtain ⟨rest, rfl⟩ := Nat.exists_eq_add_of_le enough
  exact stable s fuel a t ran rest

end Settles

section Returns

variable {x : Nat → Action σ ε α} {f : Nat → α → Action σ ε β}

/-- A program returns only if its first part does. -/
theorem Returns.first (h : Returns (fun fuel => x fuel >>= f fuel) s) : Returns x s := by
  obtain ⟨fuel, b, t, ran⟩ := h
  rw [result_bind] at ran
  cases first : result (x fuel) s with
  | mk outcome u =>
    rw [first] at ran
    cases outcome with
    | error => cases ran
    | ok a => exact ⟨fuel, a, u, first⟩

/-- **With a second part that always settles, the first decides.** -/
theorem returns_bind (stable : Stable x) (next : ∀ a t, ∃ b u, Settles (fun fuel => f fuel a) t b u) :
    Returns (fun fuel => x fuel >>= f fuel) s ↔ Returns x s := by
  constructor
  · exact fun h => h.first
  · intro h
    obtain ⟨a, t, settled⟩ := h.settles stable
    obtain ⟨b, u, settled'⟩ := next a t
    exact returns_of_settles ⟨b, u, settled.bind settled'⟩

theorem returns_map (f : α → β) : Returns (fun fuel => do return f (← x fuel)) s ↔ Returns x s := by
  constructor
  · exact fun h => h.first
  · rintro ⟨fuel, a, t, ran⟩
    exact ⟨fuel, f a, t, result_bind_ok ran⟩

/-- A program on a part of the state returns as it does on the part alone. -/
theorem returns_zoom (view : τ → σ) (put : τ → σ → τ) {s : τ} :
    Returns (fun fuel => zoom view put (x fuel)) s ↔ Returns x (view s) := by
  constructor
  · rintro ⟨fuel, a, c, ran⟩
    rw [result_zoom] at ran
    obtain ⟨same, -⟩ := Prod.mk.inj ran
    exact ⟨fuel, a, _, Prod.ext same rfl⟩
  · rintro ⟨fuel, a, t, ran⟩
    refine ⟨fuel, a, put s t, ?_⟩
    rw [result_zoom, ran]

end Returns

section Stable

variable {x : Nat → Action σ ε α} {f : Nat → α → Action σ ε β}

theorem stable_const (y : Action σ ε α) : Stable fun _ => y := fun _ _ _ _ ran _ => ran

theorem Stable.bind (first : Stable x) (next : ∀ a, Stable fun fuel => f fuel a) :
    Stable fun fuel => x fuel >>= f fuel := by
  intro s fuel b u ran more
  rw [result_bind] at ran
  cases left : result (x fuel) s with
  | mk outcome t =>
    rw [left] at ran
    cases outcome with
    | error => cases ran
    | ok a =>
      rw [result_bind_ok (first s fuel a t left more)]
      exact next a t fuel b u ran more

end Stable

end Lib.Action
