import Mathlib.Data.List.Induction
import Mathlib.Logic.Basic

/-!
# Labelled runs and their invariants

A system is a step relation `σ → ε → σ → Prop`; the label of a step says what
happened in it. `Run` is the finite execution with its trace, oldest label
first. The rules at the end turn a step lemma into a statement about every
run, with or without the history.
-/

namespace Lib

variable {σ ε : Type} {step : σ → ε → σ → Prop}

/-- A finite execution from the first state to the last, with its trace. -/
inductive Run (step : σ → ε → σ → Prop) : σ → List ε → σ → Prop
  | refl (s : σ) : Run step s [] s
  | snoc {s m t : σ} {trace : List ε} {e : ε} :
      Run step s trace m → step m e t → Run step s (trace ++ [e]) t

theorem Run.single {s t : σ} {e : ε} (h : step s e t) : Run step s [e] t :=
  (Run.refl s).snoc h

theorem Run.trans {s m t : σ} {first second : List ε}
    (h : Run step s first m) (h' : Run step m second t) : Run step s (first ++ second) t := by
  induction h' with
  | refl => simpa using h
  | snoc _ last ih =>
    rw [← List.append_assoc]
    exact ih.snoc last

theorem Run.cons {s m t : σ} {e : ε} {trace : List ε}
    (h : step s e m) (rest : Run step m trace t) : Run step s (e :: trace) t :=
  (Run.single h).trans rest

/-- The last step of a nonempty trace. -/
theorem Run.last {s t : σ} {e : ε} {trace : List ε} (h : Run step s (trace ++ [e]) t) :
    ∃ m, Run step s trace m ∧ step m e t := by
  generalize whole : trace ++ [e] = full at h
  cases h with
  | refl => simp at whole
  | snoc before final =>
    obtain ⟨rfl, same⟩ := List.append_inj' whole rfl
    obtain rfl := List.singleton_inj.mp same
    exact ⟨_, before, final⟩

/-- A run splits wherever its trace does. -/
theorem Run.split {s t : σ} {first second : List ε} (h : Run step s (first ++ second) t) :
    ∃ m, Run step s first m ∧ Run step m second t := by
  induction second using List.reverseRecOn generalizing t with
  | nil => exact ⟨t, by simpa using h, .refl t⟩
  | append_singleton second e ih =>
    rw [← List.append_assoc] at h
    obtain ⟨m, before, final⟩ := h.last
    obtain ⟨k, left, right⟩ := ih before
    exact ⟨k, left, right.snoc final⟩

/-- The first step of a nonempty trace. -/
theorem Run.first {s t : σ} {e : ε} {trace : List ε} (h : Run step s (e :: trace) t) :
    ∃ m, step s e m ∧ Run step m trace t := by
  have parts : Run step s ([e] ++ trace) t := h
  obtain ⟨m, before, rest⟩ := parts.split
  have one : Run step s ([] ++ [e]) m := before
  obtain ⟨k, none, taken⟩ := one.last
  generalize empty : ([] : List ε) = trace at none
  cases none with
  | refl => exact ⟨m, taken, rest⟩
  | snoc => simp at empty

/-- A trace leads to one state where each event does. -/
theorem Run.unique (single : ∀ s e t u, step s e t → step s e u → t = u) {s t u : σ} {trace : List ε}
    (h : Run step s trace t) (h' : Run step s trace u) : t = u := by
  induction h generalizing u with
  | refl =>
    generalize empty : ([] : List ε) = trace at h'
    cases h' with
    | refl => rfl
    | snoc => simp at empty
  | snoc _ last ih =>
    obtain ⟨m, before, final⟩ := h'.last
    obtain rfl := ih before
    exact single _ _ _ _ last final

/-- A step function that may refuse runs over a trace. -/
theorem Run.of_foldlM {f : σ → ε → Option σ} {s t : σ} {trace : List ε}
    (h : trace.foldlM f s = some t) : Run (fun s e t => f s e = some t) s trace t := by
  induction trace generalizing s with
  | nil =>
    obtain rfl := Option.some.inj h
    exact .refl s
  | cons e rest ih =>
    rw [List.foldlM_cons, Option.bind_eq_bind, Option.bind_eq_some_iff] at h
    obtain ⟨m, first, onward⟩ := h
    exact .cons first (ih onward)

/-- **The invariant rule**: what every step preserves holds after every run. -/
theorem Run.invariant (Inv : σ → Prop) (preserved : ∀ s e t, Inv s → step s e t → Inv t)
    {s t : σ} {trace : List ε} (h : Run step s trace t) (base : Inv s) : Inv t := by
  induction h with
  | refl => exact base
  | snoc _ last ih => exact preserved _ _ _ ih last

/-- **The history rule**: the invariant may speak about the trace so far. -/
theorem Run.history {s : σ} (Inv : List ε → σ → Prop)
    (preserved : ∀ trace m e t, Run step s trace m → Inv trace m → step m e t → Inv (trace ++ [e]) t)
    {t : σ} {trace : List ε} (h : Run step s trace t) (base : Inv [] s) : Inv trace t := by
  induction h with
  | refl => exact base
  | snoc before last ih => exact preserved _ _ _ _ before ih last

/-- An event of a trace is its last one or stands in the trace before. -/
theorem snoc_eq_append_cons {trace before after : List ε} {last e : ε}
    (whole : trace ++ [last] = before ++ e :: after) :
    after = [] ∧ trace = before ∧ last = e ∨
      ∃ middle, after = middle ++ [last] ∧ trace = before ++ e :: middle := by
  rcases List.eq_nil_or_concat after with rfl | ⟨middle, final, rfl⟩
  · obtain ⟨rfl, same⟩ := List.append_inj' whole rfl
    exact .inl ⟨rfl, rfl, List.singleton_inj.mp same⟩
  · rw [List.concat_eq_append, ← List.cons_append, ← List.append_assoc] at whole
    obtain ⟨rfl, same⟩ := List.append_inj' whole rfl
    rw [List.concat_eq_append, ← List.singleton_inj.mp same]
    exact .inr ⟨middle, rfl, rfl⟩

/-- Every event is allowed after what came before it. -/
def Obeys (allowed : List ε → ε → Prop) (trace : List ε) : Prop :=
  ∀ before e after, trace = before ++ e :: after → allowed before e

theorem obeys_nil (allowed : List ε → ε → Prop) : Obeys allowed [] := by
  intro before e after whole
  simp at whole

theorem Obeys.snoc {allowed : List ε → ε → Prop} {trace : List ε} (h : Obeys allowed trace) {e : ε}
    (next : allowed trace e) : Obeys allowed (trace ++ [e]) := by
  intro before e' after whole
  rcases snoc_eq_append_cons whole with ⟨rfl, rfl, rfl⟩ | ⟨middle, rfl, earlier⟩
  · exact next
  · exact h before e' middle earlier

/-- A relation that every step extends holds between the ends of every run. -/
theorem Run.extends {R : σ → σ → Prop} (refl : ∀ s, R s s) (trans : ∀ s m t, R s m → R m t → R s t)
    (grows : ∀ s e t, step s e t → R s t)
    {s t : σ} {trace : List ε} (h : Run step s trace t) : R s t := by
  induction h with
  | refl => exact refl _
  | snoc _ last ih => exact trans _ _ _ ih (grows _ _ _ last)

end Lib
