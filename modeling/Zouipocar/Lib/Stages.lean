import Mathlib.Computability.Language
import Zouipocar.Lib.Transition

/-!
# Runs that pass through stages

A system that tries the same thing again until it succeeds stays in one state
for some labels and leaves it for others. `Through step s L n inside` says that
every run from `s` is still among the states `inside`, its trace the beginning
of a word of `L`, or has gone on to `n` with a word of `L`. Stages in a row
multiply their languages.
-/

namespace Lib

open Computability

variable {σ ε : Type} {step : σ → ε → σ → Prop} {s m n t : σ} {inside : Set σ} {L M : Language ε}
  {trace : List ε}

theorem Run.eq_of_nil (run : Run step s [] t) : s = t := by
  generalize whole : ([] : List ε) = trace at run
  cases run with
  | refl => rfl
  | snoc => simp at whole

/-- What every step of one system is in another, every run of it is there. -/
theorem Run.map {σ' ε' : Type} {step' : σ' → ε' → σ' → Prop} (f : σ → σ') (g : ε → ε')
    (simulates : ∀ s e t, step s e t → step' (f s) (g e) (f t)) (run : Run step s trace t) :
    Run step' (f s) (trace.map g) (f t) := by
  induction run with
  | refl => exact .refl _
  | snoc _ last ih =>
    rw [List.map_append]
    exact ih.snoc (simulates _ _ _ last)

/-- The words of one label. -/
def letters (A : Set ε) : Language ε := {w | ∃ e ∈ A, w = [e]}

theorem mem_letters {A : Set ε} {e : ε} (among : e ∈ A) : [e] ∈ letters A := ⟨e, among, rfl⟩

theorem kstar_snoc {w v : List ε} (words : w ∈ L∗) (last : v ∈ L) : w ++ v ∈ L∗ := by
  obtain ⟨parts, rfl, each⟩ := Language.mem_kstar.mp words
  apply Language.mem_kstar.mpr
  refine ⟨parts ++ [v], by simp, fun y among => ?_⟩
  rcases List.mem_append.mp among with before | here
  · exact each y before
  · rwa [List.mem_singleton.mp here]

/-- Every run from `s` is on its way to `n`, or has passed it, through a word of `L`. -/
def Through (step : σ → ε → σ → Prop) (s : σ) (L : Language ε) (n : σ) (inside : Set σ) : Prop :=
  ∀ trace t, Run step s trace t →
    (t ∈ inside ∧ ∃ more, trace ++ more ∈ L) ∨
      ∃ first ∈ L, ∃ rest, trace = first ++ rest ∧ Run step n rest t

/-- **A stage that is tried again until it succeeds.** -/
theorem Through.retry {again done : Set ε} (here : s ∈ inside) (possible : done.Nonempty)
    (out : ∀ e t, step s e t → e ∈ again ∧ t = s ∨ e ∈ done ∧ t = n) :
    Through step s ((letters again)∗ * letters done) n inside := by
  have inner : ∀ trace t, Run step s trace t → trace ∈ (letters again)∗ ∧ t = s ∨
      ∃ first ∈ (letters again)∗ * letters done, ∃ rest, trace = first ++ rest ∧ Run step n rest t := by
    intro trace t run
    induction run with
    | refl => exact .inl ⟨Language.nil_mem_kstar _, rfl⟩
    | @snoc m t trace e _ last ih =>
      rcases ih with ⟨tries, rfl⟩ | ⟨first, word, rest, rfl, onward⟩
      · rcases out e t last with ⟨fails, rfl⟩ | ⟨succeeds, rfl⟩
        · exact .inl ⟨kstar_snoc tries (mem_letters fails), rfl⟩
        · refine .inr ⟨trace ++ [e], Language.append_mem_mul tries (mem_letters succeeds), [], ?_, .refl _⟩
          exact (List.append_nil _).symm
      · exact .inr ⟨first, word, rest ++ [e], List.append_assoc .., onward.snoc last⟩
  intro trace t run
  rcases inner trace t run with ⟨tries, rfl⟩ | passed
  · obtain ⟨e, succeeds⟩ := possible
    exact .inl ⟨here, [e], Language.append_mem_mul tries (mem_letters succeeds)⟩
  · exact .inr passed

/-- One step, whatever its label. -/
theorem Through.once {done : Set ε} (here : s ∈ inside) (possible : done.Nonempty)
    (out : ∀ e t, step s e t → e ∈ done ∧ t = n) : Through step s (letters done) n inside := by
  intro trace t run
  cases trace with
  | nil =>
    obtain rfl := run.eq_of_nil
    obtain ⟨e, succeeds⟩ := possible
    exact .inl ⟨here, [e], mem_letters succeeds⟩
  | cons e rest =>
    obtain ⟨m, first, onward⟩ := run.first
    obtain ⟨succeeds, rfl⟩ := out e m first
    exact .inr ⟨[e], mem_letters succeeds, rest, rfl, onward⟩

/-- There is a way through a stage. -/
theorem Through.possible (h : Through step s L n inside) : ∃ w, w ∈ L := by
  rcases h [] s (.refl s) with ⟨_, more, word⟩ | ⟨first, word, _⟩
  · exact ⟨more, word⟩
  · exact ⟨first, word⟩

/-- **Stages in a row.** -/
theorem Through.trans (first : Through step s L m inside) (second : Through step m M n inside) :
    Through step s (L * M) n inside := by
  intro trace t run
  rcases first trace t run with ⟨here, more, word⟩ | ⟨w, word, rest, rfl, onward⟩
  · obtain ⟨v, ending⟩ := second.possible
    refine .inl ⟨here, more ++ v, ?_⟩
    rw [← List.append_assoc]
    exact Language.append_mem_mul word ending
  · rcases second rest t onward with ⟨here, more, word'⟩ | ⟨v, word', rest', rfl, onward'⟩
    · refine .inl ⟨here, more, ?_⟩
      rw [List.append_assoc]
      exact Language.append_mem_mul word word'
    · refine .inr ⟨w ++ v, Language.append_mem_mul word word', rest', ?_, onward'⟩
      exact (List.append_assoc ..).symm

/-- A step that leads to a detour or straight on. -/
theorem Through.detour {aside straight : Set ε} (here : s ∈ inside) (possible : straight.Nonempty)
    (out : ∀ e t, step s e t → e ∈ aside ∧ t = m ∨ e ∈ straight ∧ t = n)
    (second : Through step m M n inside) :
    Through step s (letters aside * M + letters straight) n inside := by
  intro trace t run
  cases trace with
  | nil =>
    obtain rfl := run.eq_of_nil
    obtain ⟨e, succeeds⟩ := possible
    exact .inl ⟨here, [e], .inr (mem_letters succeeds)⟩
  | cons e rest =>
    obtain ⟨k, first, onward⟩ := run.first
    rcases out e k first with ⟨turns, rfl⟩ | ⟨succeeds, rfl⟩
    · rcases second rest t onward with ⟨there, more, word⟩ | ⟨v, word, rest', rfl, onward'⟩
      · refine .inl ⟨there, more, .inl ?_⟩
        show [e] ++ (rest ++ more) ∈ letters aside * M
        exact Language.append_mem_mul (mem_letters turns) word
      · exact .inr ⟨e :: v, .inl (Language.append_mem_mul (mem_letters turns) word), rest', rfl, onward'⟩
    · exact .inr ⟨[e], .inr (mem_letters succeeds), rest, rfl, onward⟩

end Lib
