import Mathlib.Data.List.Sort
import Mathlib.Order.Basic

/-!
# Tables with a unique ordered key

Rows are kept in ascending order of their key, so a table with two rows of one
key cannot be built. `insert` refuses a key that is present; the queries are a
point lookup, the two ends of the order and a closed range.
-/

namespace Lib

/-- Rows in strictly ascending key order. -/
structure OrderedTable {ρ κ : Type} [LinearOrder κ] (key : ρ → κ) where
  rows : List ρ
  ascending : rows.Pairwise fun a b => key a < key b

namespace OrderedTable

variable {ρ κ : Type} [LinearOrder κ] {key : ρ → κ}

def empty : OrderedTable key := ⟨[], .nil⟩

instance : Membership ρ (OrderedTable key) := ⟨fun t r => r ∈ t.rows⟩

@[simp] theorem mem_rows {t : OrderedTable key} {r : ρ} : r ∈ t.rows ↔ r ∈ t := Iff.rfl

@[simp] theorem not_mem_empty {r : ρ} : r ∉ (empty : OrderedTable key) := List.not_mem_nil

/-- Some row carries the key. -/
def HasKey (t : OrderedTable key) (k : κ) : Prop := ∃ r ∈ t.rows, key r = k

instance (t : OrderedTable key) (k : κ) : Decidable (t.HasKey k) :=
  inferInstanceAs (Decidable (∃ r ∈ t.rows, key r = k))

/-- Putting a row of a new key in its place keeps the order. -/
theorem ascending_orderedInsert {rows : List ρ} {r : ρ}
    (ascending : rows.Pairwise fun a b => key a < key b) (fresh : ¬ ∃ x ∈ rows, key x = key r) :
    (rows.orderedInsert (fun a b => key a < key b) r).Pairwise fun a b => key a < key b := by
  induction rows with
  | nil => simp
  | cons x rest ih =>
    obtain ⟨below, tail⟩ := List.pairwise_cons.mp ascending
    simp only [List.mem_cons, exists_eq_or_imp, not_or] at fresh
    rw [List.orderedInsert_cons]
    split
    · rename_i less
      refine List.pairwise_cons.mpr ⟨?_, ascending⟩
      intro y hy
      rcases List.mem_cons.mp hy with rfl | inside
      · exact less
      · exact less.trans (below y inside)
    · rename_i notLess
      refine List.pairwise_cons.mpr ⟨?_, ih tail fresh.2⟩
      intro y hy
      rcases (List.mem_orderedInsert _).mp hy with rfl | inside
      · exact lt_of_le_of_ne (not_lt.mp notLess) fresh.1
      · exact below y inside

/-- Insert a row, unless its key is present. -/
def insert (t : OrderedTable key) (r : ρ) : Option (OrderedTable key) :=
  if fresh : t.HasKey (key r) then none
  else some ⟨t.rows.orderedInsert (fun a b => key a < key b) r,
    ascending_orderedInsert t.ascending fresh⟩

def find? (t : OrderedTable key) (k : κ) : Option ρ := t.rows.find? fun r => key r = k

def first? (t : OrderedTable key) : Option ρ := t.rows.head?

def last? (t : OrderedTable key) : Option ρ := t.rows.getLast?

/-- The rows with keys in the closed range, in order. -/
def between (t : OrderedTable key) (lo hi : κ) : List ρ :=
  t.rows.filter fun r => lo ≤ key r ∧ key r ≤ hi

theorem insert_eq_none {t : OrderedTable key} {r : ρ} : t.insert r = none ↔ t.HasKey (key r) := by
  unfold insert
  split <;> simp_all

theorem mem_insert {t u : OrderedTable key} {r x : ρ} (h : t.insert r = some u) :
    x ∈ u ↔ x = r ∨ x ∈ t := by
  unfold insert at h
  split at h
  · cases h
  · obtain rfl := Option.some.inj h
    exact List.mem_orderedInsert _

theorem eq_of_key {t : OrderedTable key} {a b : ρ} (ha : a ∈ t) (hb : b ∈ t)
    (same : key a = key b) : a = b := by
  have distinct : (t.rows.map key).Nodup :=
    List.pairwise_map.mpr (t.ascending.imp fun less => less.ne)
  exact List.inj_on_of_nodup_map distinct ha hb same

theorem find?_eq_some {t : OrderedTable key} {k : κ} {r : ρ} :
    t.find? k = some r ↔ r ∈ t ∧ key r = k := by
  constructor
  · intro h
    exact ⟨List.mem_of_find?_eq_some h, by simpa using List.find?_some h⟩
  · rintro ⟨inside, rfl⟩
    cases found : t.find? (key r) with
    | none => simpa using List.find?_eq_none.mp found r inside
    | some x =>
      have same : key x = key r := by simpa using List.find?_some found
      rw [eq_of_key (List.mem_of_find?_eq_some found) inside same]

theorem find?_eq_none {t : OrderedTable key} {k : κ} : t.find? k = none ↔ ¬ t.HasKey k := by
  simp [find?, HasKey]

/-- Insertion is first-wins: a key keeps the row it has. -/
theorem find?_insert (t : OrderedTable key) (r : ρ) (k : κ) :
    ((t.insert r).getD t).find? k = (t.find? k).or (if key r = k then some r else none) := by
  cases inserted : t.insert r with
  | none =>
    obtain ⟨x, inside, same⟩ := insert_eq_none.mp inserted
    rw [Option.getD_none]
    split
    · rename_i hit
      rw [find?_eq_some.mpr ⟨inside, same.trans hit⟩]
      rfl
    · rw [Option.or_none]
  | some u =>
    have fresh : ¬ t.HasKey (key r) := fun present => by
      rw [insert_eq_none.mpr present] at inserted
      cases inserted
    rw [Option.getD_some]
    cases found : t.find? k with
    | some x =>
      obtain ⟨inside, same⟩ := find?_eq_some.mp found
      exact find?_eq_some.mpr ⟨(mem_insert inserted).mpr (.inr inside), same⟩
    | none =>
      rw [Option.none_or]
      split
      · rename_i hit
        exact find?_eq_some.mpr ⟨(mem_insert inserted).mpr (.inl rfl), hit⟩
      · rename_i miss
        apply find?_eq_none.mpr
        rintro ⟨x, inside, same⟩
        rcases (mem_insert inserted).mp inside with rfl | old
        · exact miss same
        · exact find?_eq_none.mp found ⟨x, old, same⟩

theorem insert_subset (t : OrderedTable key) (r : ρ) {x : ρ} (h : x ∈ (t.insert r).getD t) :
    x = r ∨ x ∈ t := by
  cases inserted : t.insert r with
  | none => rw [inserted] at h; exact .inr h
  | some u => rw [inserted] at h; exact (mem_insert inserted).mp h

/-- No row is ever changed or removed by an insertion. -/
theorem subset_insert (t : OrderedTable key) (r : ρ) {x : ρ} (h : x ∈ t) :
    x ∈ (t.insert r).getD t := by
  cases inserted : t.insert r with
  | none => exact h
  | some u => exact (mem_insert inserted).mpr (.inr h)

theorem first?_eq_none {t : OrderedTable key} : t.first? = none ↔ ∀ r, r ∉ t := by
  rw [first?, List.head?_eq_none_iff, List.eq_nil_iff_forall_not_mem]
  rfl

/-- The first row is the one of least key. -/
theorem first?_eq_some {t : OrderedTable key} {r : ρ} :
    t.first? = some r ↔ r ∈ t ∧ ∀ x ∈ t, key r ≤ key x := by
  have least : ∀ h, t.first? = some h → h ∈ t ∧ ∀ x ∈ t, key h ≤ key x := by
    intro h first
    obtain ⟨rest, split⟩ := List.head?_eq_some_iff.mp first
    have below := (List.pairwise_cons.mp (split ▸ t.ascending)).1
    refine ⟨List.mem_of_head? first, fun x hx => ?_⟩
    rw [← mem_rows, split] at hx
    rcases List.mem_cons.mp hx with rfl | inside
    · exact le_refl _
    · exact (below x inside).le
  refine ⟨least r, ?_⟩
  rintro ⟨inside, below⟩
  cases first : t.first? with
  | none => exact (first?_eq_none.mp first r inside).elim
  | some h =>
    obtain ⟨member, lower⟩ := least h first
    rw [eq_of_key member inside (le_antisymm (lower r inside) (below h member))]

theorem last?_eq_none {t : OrderedTable key} : t.last? = none ↔ ∀ r, r ∉ t := by
  rw [last?, List.getLast?_eq_none_iff, List.eq_nil_iff_forall_not_mem]
  rfl

/-- The last row is the one of greatest key. -/
theorem last?_eq_some {t : OrderedTable key} {r : ρ} :
    t.last? = some r ↔ r ∈ t ∧ ∀ x ∈ t, key x ≤ key r := by
  have greatest : ∀ h, t.last? = some h → h ∈ t ∧ ∀ x ∈ t, key x ≤ key h := by
    intro h last
    obtain ⟨front, split⟩ := List.getLast?_eq_some_iff.mp last
    have above := (List.pairwise_append.mp (split ▸ t.ascending)).2.2
    refine ⟨List.mem_of_getLast? last, fun x hx => ?_⟩
    rw [← mem_rows, split] at hx
    rcases List.mem_append.mp hx with inside | single
    · exact (above x inside h (List.mem_singleton_self h)).le
    · rw [List.mem_singleton.mp single]
  refine ⟨greatest r, ?_⟩
  rintro ⟨inside, above⟩
  cases last : t.last? with
  | none => exact (last?_eq_none.mp last r inside).elim
  | some h =>
    obtain ⟨member, upper⟩ := greatest h last
    rw [eq_of_key member inside (le_antisymm (above h member) (upper r inside))]

theorem mem_between {t : OrderedTable key} {lo hi : κ} {r : ρ} :
    r ∈ t.between lo hi ↔ r ∈ t ∧ lo ≤ key r ∧ key r ≤ hi := by
  simp [between]

theorem between_ascending (t : OrderedTable key) (lo hi : κ) :
    (t.between lo hi).Pairwise fun a b => key a < key b :=
  t.ascending.filter _

end OrderedTable

end Lib
