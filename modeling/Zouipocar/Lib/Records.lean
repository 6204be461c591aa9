import Mathlib.Data.List.Pairwise
import Mathlib.Order.WithBot

/-!
# The records of a sequence

An entry is a record when its key is above a starting point and above the keys
of everything before it. A filter that remembers the greatest key it let
through and lets only greater ones through passes exactly the records.
-/

namespace Lib

/-- All of a sequence, or all but its last entry. -/
def Cut {α : Type} (part whole : List α) : Prop := whole = part ∨ ∃ x, whole = part ++ [x]

variable {α κ : Type} [LinearOrder κ] (key : α → κ)

/-- The entries that are greater than all before them. -/
def records : WithBot κ → List α → List α
  | _, [] => []
  | start, x :: rest => if start < key x then x :: records (key x) rest else records start rest

variable {key} {start : WithBot κ} {x : α} {rest : List α}

theorem records_cons_of_lt (above : start < key x) :
    records key start (x :: rest) = x :: records key (key x) rest := by
  rw [records, if_pos above]

theorem records_cons_of_le (below : (key x : WithBot κ) ≤ start) :
    records key start (x :: rest) = records key start rest := by
  rw [records, if_neg (not_lt.mpr below)]

/-- A record is above the start and above everything before it. -/
theorem mem_records {l : List α} : x ∈ records key start l ↔
    ∃ before after, l = before ++ x :: after ∧ start < key x ∧ ∀ y ∈ before, key y < key x := by
  induction l generalizing start with
  | nil => simp [records]
  | cons z rest ih =>
    by_cases above : start < key z
    · rw [records_cons_of_lt above, List.mem_cons, ih]
      constructor
      · rintro (rfl | ⟨before, after, rfl, next, greater⟩)
        · exact ⟨[], rest, rfl, above, by simp⟩
        · refine ⟨z :: before, after, rfl, above.trans next, fun y inside => ?_⟩
          rcases List.mem_cons.mp inside with rfl | inside
          · exact WithBot.coe_lt_coe.mp next
          · exact greater y inside
      · rintro ⟨before, after, whole, next, greater⟩
        cases before with
        | nil =>
          obtain ⟨rfl, -⟩ := List.cons.inj whole
          exact .inl rfl
        | cons y before =>
          obtain ⟨rfl, rfl⟩ := List.cons.inj whole
          have first : key z < key x := greater z List.mem_cons_self
          exact .inr ⟨before, after, rfl, WithBot.coe_lt_coe.mpr first,
            fun y inside => greater y (List.mem_cons_of_mem _ inside)⟩
    · rw [records_cons_of_le (not_lt.mp above), ih]
      constructor
      · rintro ⟨before, after, rfl, next, greater⟩
        refine ⟨z :: before, after, rfl, next, fun y inside => ?_⟩
        rcases List.mem_cons.mp inside with rfl | inside
        · exact WithBot.coe_lt_coe.mp ((not_lt.mp above).trans_lt next)
        · exact greater y inside
      · rintro ⟨before, after, whole, next, greater⟩
        cases before with
        | nil =>
          obtain ⟨rfl, -⟩ := List.cons.inj whole
          exact absurd next above
        | cons y before =>
          obtain ⟨rfl, rfl⟩ := List.cons.inj whole
          exact ⟨before, after, rfl, next, fun y inside => greater y (List.mem_cons_of_mem _ inside)⟩

theorem lt_of_mem_records {l : List α} (inside : x ∈ records key start l) : start < key x := by
  obtain ⟨_, _, _, above, _⟩ := mem_records.mp inside
  exact above

/-- **The keys of the records ascend.** -/
theorem records_ascending (start : WithBot κ) (l : List α) :
    (records key start l).Pairwise fun a b => key a < key b := by
  induction l generalizing start with
  | nil => exact .nil
  | cons z rest ih =>
    by_cases above : start < key z
    · rw [records_cons_of_lt above]
      exact .cons (fun y inside => WithBot.coe_lt_coe.mp (lt_of_mem_records inside)) (ih _)
    · rw [records_cons_of_le (not_lt.mp above)]
      exact ih start

end Lib
