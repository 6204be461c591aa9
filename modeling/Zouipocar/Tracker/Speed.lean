import Zouipocar.Server.Process
import Zouipocar.Tracker.RmcFields
import Mathlib.Data.Rat.Floor
import Mathlib.Tactic.Linarith

/-!
# The speed

`uint8_t speed = strtod(…)` drops the fraction of the knots before they are
multiplied, so the product misses what the fraction is worth. That is seen when
it would have carried the product over the next whole number; the server's rule
then drops a fix it should store.
-/

namespace Zouipocar
set_option autoImplicit false
open Lib Rmc

/-- One knot in km/h. -/
def knot : ℚ := 1852 / 1000

/-- The whole number of km/h a speed of `k` knots is worth. -/
def wholeKmh (k : ℚ) : Int := ⌊knot * k⌋

/-- The fraction of the knots does not carry the product over a whole number. -/
def NoCarry (k : ℚ) : Prop := Int.fract (knot * ⌊k⌋) + knot * Int.fract k < 1

theorem toNat_ofInt_of_small {n : Int} (nonneg : 0 ≤ n) (small : n < 256) :
    ((BitVec.ofInt 8 n).toNat : Int) = n := by
  rw [BitVec.toNat_ofInt]
  omega

/-- Below the limit of the byte `kmh` truncates twice. -/
theorem kmh_eq {k : ℚ} (nonneg : 0 ≤ k) (small : knot * k < 256) :
    ((kmh (.finite k)).toNat : Int) = wholeKmh ⌊k⌋ := by
  have whole : 0 ≤ ⌊k⌋ := Int.floor_nonneg.mpr nonneg
  have below : (⌊k⌋ : ℚ) ≤ k := Int.floor_le k
  have above : knot * ⌊k⌋ < 256 := by
    unfold knot at small ⊢
    linarith
  have positive : (0 : ℚ) ≤ knot * ⌊k⌋ := by
    have : (0 : ℚ) ≤ ⌊k⌋ := by exact_mod_cast whole
    unfold knot
    linarith
  have limit : ⌊k⌋ < 256 := by
    have : (⌊k⌋ : ℚ) < 256 := by
      unfold knot at above positive
      linarith
    exact_mod_cast this
  have speed := toNat_ofInt_of_small whole limit
  have product : (((BitVec.ofInt 8 ⌊k⌋).toNat : ℚ) * mkRat 1852 1000) = knot * ⌊k⌋ := by
    have cast : ((BitVec.ofInt 8 ⌊k⌋).toNat : ℚ) = ⌊k⌋ := by exact_mod_cast speed
    rw [cast, Rat.mkRat_eq_div, mul_comm]
    rfl
  unfold kmh
  simp only [CFloat.truncate_of_nonneg nonneg, product, CFloat.truncate_of_nonneg positive]
  exact toNat_ofInt_of_small (Int.floor_nonneg.mpr positive) (Int.floor_lt.mpr (by exact_mod_cast above))

/-- The two truncations make one when nothing is carried. -/
theorem wholeKmh_floor_iff (k : ℚ) : wholeKmh ⌊k⌋ = wholeKmh k ↔ NoCarry k := by
  have parts : knot * k = knot * ⌊k⌋ + knot * Int.fract k := by
    rw [← mul_add, Int.floor_add_fract]
  have fraction : (0 : ℚ) ≤ knot * Int.fract k :=
    mul_nonneg (by unfold knot; norm_num) (Int.fract_nonneg k)
  have low := Int.floor_le (knot * (⌊k⌋ : ℚ))
  have split := Int.floor_add_fract (knot * (⌊k⌋ : ℚ))
  unfold wholeKmh NoCarry
  rw [eq_comm, Int.floor_eq_iff, parts]
  constructor
  · rintro ⟨-, above⟩
    linarith
  · intro small
    exact ⟨by linarith, by linarith⟩

/-- A speed is right when it is the whole number of km/h and the server's rule
stores it from 6 km/h on. -/
structure SpeedRight (speed : BitVec 8) (k : ℚ) : Prop where
  whole : (speed.toNat : Int) = wholeKmh k
  stored : Process.Fast speed ↔ 6 ≤ knot * k

/-- The rule follows from the number. -/
theorem stored_of_whole {speed : BitVec 8} {k : ℚ} (whole : (speed.toNat : Int) = wholeKmh k) :
    Process.Fast speed ↔ 6 ≤ knot * k := by
  have floor : (6 : Int) ≤ ⌊knot * k⌋ ↔ ((6 : Int) : ℚ) ≤ knot * k := Int.le_floor
  have five : (5 : BitVec 8).toNat = 5 := rfl
  rw [wholeKmh] at whole
  rw [Process.Fast, BitVec.lt_def, five, show (6 : ℚ) = ((6 : Int) : ℚ) by norm_num, ← floor, ← whole]
  omega

/-- **An accepted sentence has the right speed exactly when its fraction of a
knot carries nothing.** -/
theorem speedRight_iff (src : CString) (output : FixOf CFloat) (lib : CLib) (k : ℚ)
    (accepted : (processRmc src output lib).1 = .ok)
    (denotes : doubleValue ((tokens comma src).getD 7 []) = .finite k) (nonneg : 0 ≤ k)
    (small : knot * k < 256) : SpeedRight (processRmc src output lib).2.1.speed k ↔ NoCarry k := by
  have speed : (processRmc src output lib).2.1.speed = kmh (.finite k) := by
    rw [processRmc_fix accepted, ← denotes]
    rfl
  have number := kmh_eq nonneg small
  rw [speed]
  constructor
  · rintro ⟨whole, -⟩
    rw [number, wholeKmh_floor_iff] at whole
    exact whole
  · intro nothing
    rw [← wholeKmh_floor_iff, ← number] at nothing
    exact ⟨nothing, stored_of_whole nothing⟩

/-- The sentence of a car at some speed over the ground. -/
def atSpeed (knots : String) : CString :=
  ascii "$GNRMC,185612.00,A,4855.91,N,00203.29,E," ++ ascii knots ++ ascii ",90.0,010220,,,A"

/-- 12.2 knots are 22 km/h. -/
theorem speedRight_twelve : SpeedRight (processRmc (atSpeed "12.2") zeroed .start).2.1.speed (61 / 5) := by
  refine (speedRight_iff _ _ _ _ (by decide +kernel) (by decide +kernel) (by norm_num)
    (by unfold knot; norm_num)).mpr ?_
  norm_num [NoCarry, knot, Int.fract]

/-- Three and a half knots are over 6 km/h, but give 5 and are not stored. -/
theorem not_speedRight : ¬ ∀ (src : CString) (output : FixOf CFloat) (lib : CLib) (k : ℚ),
    (processRmc src output lib).1 = .ok → doubleValue ((tokens comma src).getD 7 []) = .finite k →
    0 ≤ k → knot * k < 256 → SpeedRight (processRmc src output lib).2.1.speed k := by
  intro always
  have stored := (always (atSpeed "3.5") zeroed .start (7 / 2) (by decide +kernel) (by decide +kernel)
    (by norm_num) (by unfold knot; norm_num)).stored
  have moving : (6 : ℚ) ≤ knot * (7 / 2) := by
    unfold knot
    norm_num
  have slow : ¬ Process.Fast (processRmc (atSpeed "3.5") zeroed .start).2.1.speed := by decide +kernel
  exact slow (stored.mpr moving)

end Zouipocar
