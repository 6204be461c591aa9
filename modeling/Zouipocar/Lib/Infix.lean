import Mathlib.Data.List.Infix

/-!
# Words inside lists

The first position of a word, as `strstr` finds it, the shortest prefix with a
property, and the words that cannot straddle the end of a line.
-/

namespace Lib

variable {α : Type}

/-- The first position at which a word occurs. -/
def position [DecidableEq α] (word : List α) : List α → Option Nat
  | [] => if word = [] then some 0 else none
  | a :: rest => if word <+: a :: rest then some 0 else (position word rest).map (· + 1)

/-- A word has a position exactly when it occurs. -/
theorem position_isSome [DecidableEq α] (word s : List α) : (position word s).isSome ↔ word <:+: s := by
  induction s with
  | nil => simp [position]
  | cons a rest ih =>
    rw [position, List.infix_cons_iff]
    split
    · rename_i starts
      simp [starts]
    · rename_i other
      rw [Option.isSome_map, ih]
      simp [other]

/-- A word ends inside the list it is found in. -/
theorem position_le [DecidableEq α] {word s : List α} {p : Nat} (found : position word s = some p) :
    p + word.length ≤ s.length := by
  induction s generalizing p with
  | nil =>
    rw [position] at found
    split at found
    · rename_i empty
      obtain rfl := Option.some.inj found
      simp [empty]
    · cases found
  | cons a rest ih =>
    rw [position] at found
    split at found
    · rename_i starts
      obtain rfl := Option.some.inj found
      rw [Nat.zero_add]
      exact starts.length_le
    · obtain ⟨q, there, rfl⟩ := Option.map_eq_some_iff.mp found
      have inside := ih there
      rw [List.length_cons]
      omega

/-- The first of the prefixes with a property is the shortest. -/
theorem find?_inits {p : List α → Bool} {s P : List α} :
    s.inits.find? p = some P ↔ P <+: s ∧ p P = true ∧ ∀ Q, Q <+: s → p Q = true → P.length ≤ Q.length := by
  induction s generalizing p P with
  | nil =>
    rw [List.inits, List.find?_singleton, List.prefix_nil]
    constructor
    · intro found
      split at found
      · rename_i holds
        obtain rfl := Option.some.inj found
        exact ⟨rfl, holds, fun _ _ _ => Nat.zero_le _⟩
      · cases found
    · rintro ⟨rfl, holds, -⟩
      rw [if_pos holds]
  | cons a rest ih =>
    rw [List.inits_cons, List.find?_cons, List.find?_map]
    cases holds : p [] with
    | true =>
      constructor
      · rintro ⟨⟩
        exact ⟨List.nil_prefix, holds, fun Q _ _ => Nat.zero_le _⟩
      · rintro ⟨_, _, least⟩
        have empty := least [] List.nil_prefix holds
        rw [List.eq_nil_of_length_eq_zero (Nat.le_zero.mp empty)]
    | false =>
      simp only [Option.map_eq_some_iff, ih, Function.comp_apply]
      constructor
      · rintro ⟨P, ⟨inside, here, least⟩, rfl⟩
        refine ⟨by simpa using inside, here, fun Q within found => ?_⟩
        rcases List.prefix_cons_iff.mp within with rfl | ⟨Q, rfl, short⟩
        · simp [holds] at found
        · simpa using least Q short found
      · rintro ⟨inside, here, least⟩
        rcases List.prefix_cons_iff.mp inside with rfl | ⟨P, rfl, short⟩
        · simp [holds] at here
        · refine ⟨P, ⟨short, here, fun Q within found => ?_⟩, rfl⟩
          simpa using least (a :: Q) (by simpa using within) found

/-- A word without the separator does not straddle the end of a line. -/
theorem infix_flatten {sep : α} {word : List α} (plain : sep ∉ word) (nonempty : word ≠ [])
    {lines : List (List α)} (ended : ∀ line ∈ lines, line.getLast? = some sep)
    (inside : word <:+: lines.flatten) : ∃ line ∈ lines, word <:+: line := by
  induction lines with
  | nil => simp_all
  | cons line rest ih =>
    rw [List.flatten_cons, List.infix_append_iff_ne_nil] at inside
    rcases inside with here | behind | ⟨front, _, some, -, rfl, ending, -⟩
    · exact ⟨line, List.mem_cons_self, here⟩
    · obtain ⟨other, among, there⟩ := ih (fun l among => ended l (List.mem_cons_of_mem _ among)) behind
      exact ⟨other, List.mem_cons_of_mem _ among, there⟩
    · -- the front part would end with the separator
      have last : front.getLast? = sep := by
        rw [← ended line List.mem_cons_self]
        obtain ⟨before, rfl⟩ := ending
        rw [List.getLast?_append_of_ne_nil _ some]
      exact (plain (List.mem_append_left _ (List.mem_of_getLast? last))).elim

/-- A word that stands in no line of a text is first found behind it. -/
theorem position_behind [DecidableEq α] {sep : α} {word : List α} (plain : sep ∉ word) {U : List α}
    (ended : ∀ c, U.getLast? = some c → c = sep) (absent : ¬ word <:+: U) (t : List α) :
    position word (U ++ t) = (position word t).map (· + U.length) := by
  induction U with
  | nil => simp
  | cons a rest ih =>
    have later : ¬ word <:+: rest := fun inside => absent (List.infix_cons inside)
    have ended' : ∀ c, rest.getLast? = some c → c = sep := by
      intro c last
      apply ended c
      rw [List.getLast?_cons, last]
      rfl
    have elsewhere : ¬ word <+: a :: rest ++ t := by
      intro starts
      rcases List.prefix_or_prefix_of_prefix starts (List.prefix_append (a :: rest) t) with inside | longer
      · exact absent inside.isInfix
      · -- the word would contain the end of the text
        have last := ended ((a :: rest).getLast (List.cons_ne_nil a rest)) (List.getLast?_eq_some_getLast _)
        apply plain
        rw [← last]
        exact longer.subset (List.getLast_mem _)
    rw [List.cons_append] at elsewhere ⊢
    rw [position, if_neg elsewhere, ih ended' later, Option.map_map]
    congr 1

theorem infix_behind [DecidableEq α] {sep : α} {word : List α} (plain : sep ∉ word) {U : List α}
    (ended : ∀ c, U.getLast? = some c → c = sep) (absent : ¬ word <:+: U) (t : List α) :
    word <:+: U ++ t ↔ word <:+: t := by
  rw [← position_isSome, ← position_isSome, position_behind plain ended absent, Option.isSome_map]

end Lib
