import Zouipocar.Server.Database

/-!
# Timestamps as keys

A `uint32_t` timestamp reaches the table through `sqlite3_bind_int`, so it is
stored under its signed reading. The conversion loses nothing, but it agrees
with the unsigned order only inside one half of the range: timestamps from
2^31 on are stored under negative keys, below all the others.
-/

namespace Zouipocar
set_option autoImplicit false
open Lib Lib.Sqlite

@[simp] theorem keyOf_toInt (t : BitVec 32) : (keyOf t).toInt = t.toInt :=
  BitVec.toInt_signExtend_of_le (by decide)

@[simp] theorem keyOf_truncate (t : BitVec 32) : (keyOf t).truncate 32 = t := by
  apply BitVec.eq_of_getLsbD_eq
  intro i hi
  have wide : i < 64 := by omega
  rw [keyOf, BitVec.truncate_eq_setWidth, BitVec.getLsbD_setWidth, BitVec.getLsbD_signExtend]
  simp [hi, wide]

theorem key_inj {a b : BitVec 32} : a.toInt = b.toInt ↔ a = b :=
  ⟨BitVec.eq_of_toInt_eq, fun h => by rw [h]⟩

/-- The half of the range that is stored under negative keys. -/
def Upper (t : BitVec 32) : Prop := 2 ^ 31 ≤ t.toNat

instance (t : BitVec 32) : Decidable (Upper t) := inferInstanceAs (Decidable (_ ≤ _))

theorem toInt_of_upper {t : BitVec 32} (h : Upper t) : t.toInt = t.toNat - 2 ^ 32 := by
  rw [BitVec.toInt_eq_toNat_cond, Upper] at *
  split <;> omega

theorem toInt_of_not_upper {t : BitVec 32} (h : ¬ Upper t) : t.toInt = t.toNat := by
  rw [BitVec.toInt_eq_toNat_cond, Upper] at *
  split <;> omega

/-- Inside one half the signed order is the unsigned one. -/
theorem key_le_iff {a b : BitVec 32} (same : Upper a ↔ Upper b) : a.toInt ≤ b.toInt ↔ a ≤ b := by
  by_cases up : Upper a
  · rw [toInt_of_upper up, toInt_of_upper (same.mp up), BitVec.le_def]
    omega
  · rw [toInt_of_not_upper up, toInt_of_not_upper fun h => up (same.mpr h), BitVec.le_def]
    omega

/-- Across the halves it is reversed. -/
theorem key_lt_of_upper {a b : BitVec 32} (up : Upper a) (down : ¬ Upper b) :
    a.toInt < b.toInt ∧ b < a := by
  rw [toInt_of_upper up, toInt_of_not_upper down, BitVec.lt_def]
  rw [Upper] at up down
  have := a.isLt
  exact ⟨by omega, by omega⟩

/-- A range inside one half selects the same timestamps in both orders. -/
theorem between_iff {a b : BitVec 32} (same : Upper a ↔ Upper b) (t : BitVec 32) :
    (a.toInt ≤ t.toInt ∧ t.toInt ≤ b.toInt) ↔ (a ≤ t ∧ t ≤ b) := by
  by_cases here : Upper a ↔ Upper t
  · rw [key_le_iff here, key_le_iff (here.symm.trans same)]
  · -- a timestamp of the other half is outside in either order
    by_cases up : Upper a
    · have down : ¬ Upper t := fun h => here ⟨fun _ => h, fun _ => up⟩
      obtain ⟨low, below⟩ := key_lt_of_upper (same.mp up) down
      obtain ⟨_, under⟩ := key_lt_of_upper up down
      rw [BitVec.lt_def] at under
      simp only [BitVec.le_def]
      omega
    · have high : Upper t := by
        by_contra down
        exact here ⟨fun h => (up h).elim, fun h => (down h).elim⟩
      obtain ⟨low, below⟩ := key_lt_of_upper high up
      obtain ⟨_, above⟩ := key_lt_of_upper high fun h => up (same.mpr h)
      rw [BitVec.lt_def] at above
      simp only [BitVec.le_def]
      omega

/-- A range across 2^31 has its ends in the wrong order as keys. -/
theorem key_gt_of_split {a b : BitVec 32} (ordered : a ≤ b) (split : ¬ (Upper a ↔ Upper b)) :
    b.toInt < a.toInt := by
  by_cases up : Upper a
  · have down : ¬ Upper b := fun h => split ⟨fun _ => h, fun _ => up⟩
    have below := (key_lt_of_upper up down).2
    rw [BitVec.lt_def] at below
    rw [BitVec.le_def] at ordered
    omega
  · have high : Upper b := by
      by_contra down
      exact split ⟨fun h => (up h).elim, fun h => (down h).elim⟩
    exact (key_lt_of_upper high up).1

end Zouipocar
