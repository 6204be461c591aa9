import Mathlib.Data.Nat.Log
import Mathlib.Tactic.Linarith
import Mathlib.Tactic.Ring

/-!
# Binary interchange formats

A format is given by its exponent and fraction widths. `decode` reads a bit
pattern as `± m · 2^q`, an infinity or a NaN; `encode` rounds such a datum to
the nearest pattern, ties to even. Converting from a format to a wider one and
back is the identity on finite patterns (`convert_convert`), because both
directions are exact there: the wider pattern denotes the same number, and a
number that a format can represent has one canonical `m` and `q` in it. Only the
payload of a NaN is lost (`convert_convert_of_not_nan`).
-/

namespace Lib

/-- The number a pattern denotes: `± m · 2^q` when finite. -/
inductive Datum
  | nan
  | infinite (negative : Bool)
  | finite (negative : Bool) (m : Nat) (q : Int)
deriving DecidableEq, Repr

structure FloatFormat where
  exponentBits : Nat
  fractionBits : Nat
  two_le : 2 ≤ exponentBits

/-- `m / 2^k` to the nearest integer, ties to even. -/
def roundHalfEven (m k : Nat) : Nat :=
  if 2 * (m % 2 ^ k) < 2 ^ k then m / 2 ^ k
  else if 2 ^ k < 2 * (m % 2 ^ k) then m / 2 ^ k + 1
  else m / 2 ^ k + m / 2 ^ k % 2

theorem roundHalfEven_mul (m k : Nat) : roundHalfEven (m * 2 ^ k) k = m := by
  have positive : 0 < 2 ^ k := Nat.two_pow_pos k
  simp [roundHalfEven, positive]

namespace FloatFormat

def binary32 : FloatFormat := ⟨8, 23, by decide⟩

def binary64 : FloatFormat := ⟨11, 52, by decide⟩

variable (F : FloatFormat)

/-- The exponent of the last place of a subnormal number. -/
def lowest : Int := 3 - 2 ^ (F.exponentBits - 1) - 1 - F.fractionBits

/-- The pattern of the magnitude infinity. -/
def infinity : Nat := (2 ^ F.exponentBits - 1) * 2 ^ F.fractionBits

/-- The weight of the sign bit. -/
def signBit : Nat := 2 ^ F.exponentBits * 2 ^ F.fractionBits

/-- The exponent and fraction fields of `m · 2^q`, for a canonical `m` and `q`. -/
def fields (m : Nat) (q : Int) : Nat := (q - F.lowest).toNat * 2 ^ F.fractionBits + m

def decodeMagnitude (negative : Bool) (bits : Nat) : Datum :=
  let exponent := bits / 2 ^ F.fractionBits
  let fraction := bits % 2 ^ F.fractionBits
  if exponent = 2 ^ F.exponentBits - 1 then
    if fraction = 0 then .infinite negative else .nan
  else if exponent = 0 then .finite negative fraction F.lowest
  else .finite negative (2 ^ F.fractionBits + fraction) (F.lowest + (exponent - 1 : Nat))

def decode (bits : Nat) : Datum :=
  F.decodeMagnitude (F.signBit ≤ bits) (bits % F.signBit)

/-- The exponent of the last place to which `m · 2^q` is rounded. -/
def target (m : Nat) (q : Int) : Int := max F.lowest (q + m.log2 - F.fractionBits)

def encodeMagnitude (m : Nat) (q : Int) : Nat :=
  if m = 0 then 0
  else
    let t := F.target m q
    let rounded := if t ≤ q then m * 2 ^ (q - t).toNat else roundHalfEven m (t - q).toNat
    min (F.fields rounded t) F.infinity

def encode : Datum → Nat
  | .nan => F.infinity + 2 ^ (F.fractionBits - 1)
  | .infinite negative => negative.toNat * F.signBit + F.infinity
  | .finite negative m q => negative.toNat * F.signBit + F.encodeMagnitude m q

/-- The one `m` and `q` by which the format represents a finite number. -/
structure Canonical (m : Nat) (q : Int) : Prop where
  above : F.lowest ≤ q
  fits : m < 2 ^ (F.fractionBits + 1)
  normal : q = F.lowest ∨ 2 ^ F.fractionBits ≤ m
  bounded : F.fields m q < F.infinity

/-- Every finite number of `F` is one of `G`. -/
structure Widens (F G : FloatFormat) : Prop where
  fraction : F.fractionBits ≤ G.fractionBits
  small : G.lowest ≤ F.lowest
  large : F.lowest + 2 ^ F.exponentBits ≤ G.lowest + 2 ^ G.exponentBits

theorem binary32_widens : Widens binary32 binary64 :=
  ⟨by decide, by decide, by decide⟩

variable {F}

theorem infinity_lt_signBit : F.infinity < F.signBit := by
  have positive : 0 < 2 ^ F.fractionBits := Nat.two_pow_pos _
  have exponents : 0 < 2 ^ F.exponentBits := Nat.two_pow_pos _
  exact Nat.mul_lt_mul_of_pos_right (by omega) positive

/-- Decoding a finite magnitude gives its canonical form, and the fields give it back. -/
theorem decodeMagnitude_canonical {negative s : Bool} {bits m : Nat} {q : Int}
    (h : F.decodeMagnitude negative bits = .finite s m q) (low : bits < F.signBit) :
    s = negative ∧ F.Canonical m q ∧ F.fields m q = bits := by
  have positive : 0 < 2 ^ F.fractionBits := Nat.two_pow_pos _
  have parts := Nat.div_add_mod bits (2 ^ F.fractionBits)
  have fraction := Nat.mod_lt bits positive
  have exponent : bits / 2 ^ F.fractionBits < 2 ^ F.exponentBits :=
    Nat.div_lt_of_lt_mul (by rw [Nat.mul_comm]; exact low)
  have double : 2 ^ (F.fractionBits + 1) = 2 * 2 ^ F.fractionBits := by rw [pow_succ]; ring
  unfold decodeMagnitude at h
  simp only at h
  split at h
  · split at h <;> cases h
  · rename_i finite
    have bounded : bits < F.infinity := by
      unfold infinity
      calc bits < (bits / 2 ^ F.fractionBits + 1) * 2 ^ F.fractionBits := by
            rw [Nat.add_mul, Nat.mul_comm]; omega
        _ ≤ (2 ^ F.exponentBits - 1) * 2 ^ F.fractionBits :=
            Nat.mul_le_mul_right _ (by omega)
    split at h
    · rename_i zero
      obtain ⟨rfl, rfl, rfl⟩ := Datum.finite.inj h
      have all : F.fields (bits % 2 ^ F.fractionBits) F.lowest = bits := by
        simp only [fields, Int.sub_self, Int.toNat_zero, Nat.zero_mul, Nat.zero_add]
        rw [zero] at parts
        omega
      exact ⟨rfl, ⟨le_refl _, by omega, .inl rfl, by rw [all]; exact bounded⟩, all⟩
    · rename_i nonzero
      obtain ⟨rfl, rfl, rfl⟩ := Datum.finite.inj h
      have all : F.fields (2 ^ F.fractionBits + bits % 2 ^ F.fractionBits)
          (F.lowest + (bits / 2 ^ F.fractionBits - 1 : Nat)) = bits := by
        have shift : (F.lowest + (bits / 2 ^ F.fractionBits - 1 : Nat) - F.lowest).toNat =
            bits / 2 ^ F.fractionBits - 1 := by omega
        rw [fields, shift, Nat.sub_mul, Nat.mul_comm (bits / 2 ^ F.fractionBits)]
        have : 2 ^ F.fractionBits * 1 ≤ 2 ^ F.fractionBits * (bits / 2 ^ F.fractionBits) :=
          Nat.mul_le_mul_left _ (Nat.one_le_iff_ne_zero.mpr nonzero)
        omega
      exact ⟨rfl, ⟨by omega, by omega, .inr (Nat.le_add_right _ _), by rw [all]; exact bounded⟩, all⟩

/-- The fields of a canonical finite number decode to it. -/
theorem Canonical.decodeMagnitude {m : Nat} {q : Int} (h : F.Canonical m q) (negative : Bool) :
    F.decodeMagnitude negative (F.fields m q) = .finite negative m q := by
  have positive : 0 < 2 ^ F.fractionBits := Nat.two_pow_pos _
  have double : 2 ^ (F.fractionBits + 1) = 2 * 2 ^ F.fractionBits := by rw [pow_succ]; ring
  have fits := h.fits
  have above := h.above
  have bounded := h.bounded
  rw [infinity, ← Nat.div_lt_iff_lt_mul positive] at bounded
  by_cases normal : 2 ^ F.fractionBits ≤ m
  · -- the hidden bit carries into the exponent field
    have split : F.fields m q =
        2 ^ F.fractionBits * ((q - F.lowest).toNat + 1) + (m - 2 ^ F.fractionBits) := by
      rw [fields, Nat.mul_add, Nat.mul_comm]; omega
    have exponent : F.fields m q / 2 ^ F.fractionBits = (q - F.lowest).toNat + 1 := by
      rw [split, Nat.mul_add_div positive, Nat.div_eq_of_lt (by omega), Nat.add_zero]
    have fraction : F.fields m q % 2 ^ F.fractionBits = m - 2 ^ F.fractionBits := by
      rw [split, Nat.mul_add_mod, Nat.mod_eq_of_lt (by omega)]
    rw [exponent] at bounded
    simp only [FloatFormat.decodeMagnitude, exponent, fraction]
    rw [if_neg (by omega), if_neg (by omega)]
    congr 1
    · omega
    · omega
  · have subnormal : q = F.lowest := h.normal.resolve_right normal
    have all : F.fields m q = m := by simp [fields, subnormal]
    have exponent : m / 2 ^ F.fractionBits = 0 := Nat.div_eq_of_lt (by omega)
    have fraction : m % 2 ^ F.fractionBits = m := Nat.mod_eq_of_lt (by omega)
    rw [all, exponent] at bounded
    simp only [FloatFormat.decodeMagnitude, all, exponent, fraction]
    rw [if_neg (by omega), if_pos trivial, subnormal]

/-- A finite number leaves the top exponent field unused. -/
theorem Canonical.exponent_le {m : Nat} {q : Int} (h : F.Canonical m q) :
    (q - F.lowest).toNat + 3 ≤ 2 ^ F.exponentBits := by
  have four : 2 ^ 2 ≤ 2 ^ F.exponentBits := Nat.pow_le_pow_right (by decide) F.two_le
  rcases h.normal with subnormal | normal
  · rw [subnormal, Int.sub_self, Int.toNat_zero]
    omega
  · have bounded := h.bounded
    rw [fields, infinity] at bounded
    have below : ((q - F.lowest).toNat + 1) * 2 ^ F.fractionBits <
        (2 ^ F.exponentBits - 1) * 2 ^ F.fractionBits := by
      rw [Nat.add_mul]; omega
    have := Nat.lt_of_mul_lt_mul_right below
    omega

theorem log2_mul_pow {m : Nat} (nonzero : m ≠ 0) (k : Nat) : (m * 2 ^ k).log2 = m.log2 + k := by
  have positive : 0 < 2 ^ k := Nat.two_pow_pos k
  have product : m * 2 ^ k ≠ 0 := Nat.mul_ne_zero nonzero positive.ne'
  apply Nat.le_antisymm
  · rw [← Nat.lt_succ_iff, Nat.log2_lt product, Nat.succ_eq_add_one,
      show m.log2 + k + 1 = (m.log2 + 1) + k by omega, pow_add]
    exact Nat.mul_lt_mul_of_pos_right Nat.lt_log2_self positive
  · rw [Nat.le_log2 product, pow_add]
    exact Nat.mul_le_mul_right _ (Nat.log2_self_le nonzero)

/-- A canonical number is rounded to its own last place, however it is scaled. -/
theorem Canonical.target {m : Nat} {q : Int} (h : F.Canonical m q) (nonzero : m ≠ 0) (k : Nat) :
    F.target (m * 2 ^ k) (q - k) = q := by
  have top : m.log2 ≤ F.fractionBits := by
    rw [← Nat.lt_succ_iff, Nat.log2_lt nonzero]; exact h.fits
  have above := h.above
  rw [FloatFormat.target, log2_mul_pow nonzero]
  rcases h.normal with subnormal | normal
  · omega
  · have : F.fractionBits ≤ m.log2 := (Nat.le_log2 nonzero).mpr normal
    omega

/-- **Exact encoding**: any scaling of a canonical number encodes to its fields. -/
theorem Canonical.encodeMagnitude {m : Nat} {q : Int} (h : F.Canonical m q) (k : Nat) :
    F.encodeMagnitude (m * 2 ^ k) (q - k) = F.fields m q := by
  by_cases zero : m = 0
  · have subnormal : q = F.lowest := by
      rcases h.normal with same | normal
      · exact same
      · have := Nat.two_pow_pos F.fractionBits
        omega
    simp [FloatFormat.encodeMagnitude, zero, fields, subnormal]
  · have product : m * 2 ^ k ≠ 0 := Nat.mul_ne_zero zero (Nat.two_pow_pos k).ne'
    have rounded : (if q ≤ q - k then m * 2 ^ k * 2 ^ (q - k - q).toNat
        else roundHalfEven (m * 2 ^ k) (q - (q - k)).toNat) = m := by
      split
      · have : k = 0 := by omega
        subst this
        simp
      · have shift : (q - (q - k)).toNat = k := by omega
        rw [shift, roundHalfEven_mul]
    simp only [FloatFormat.encodeMagnitude, if_neg product, h.target zero, rounded]
    exact Nat.min_eq_left h.bounded.le

/-- A canonical number of a narrower format is canonical in the wider one, scaled. -/
theorem Canonical.widen {F G : FloatFormat} (wider : Widens F G) {m : Nat} {q : Int}
    (h : F.Canonical m q) (nonzero : m ≠ 0) :
    ∃ k : Nat, G.Canonical (m * 2 ^ k) (q - k) ∧
      G.encodeMagnitude m q = G.fields (m * 2 ^ k) (q - k) := by
  have top : m.log2 ≤ F.fractionBits := by
    rw [← Nat.lt_succ_iff, Nat.log2_lt nonzero]; exact h.fits
  have fraction := wider.fraction
  have small := wider.small
  have large := wider.large
  have above := h.above
  have low : G.target m q ≤ q := by rw [FloatFormat.target]; omega
  have floor : G.lowest ≤ G.target m q := by rw [FloatFormat.target]; omega
  obtain ⟨k, scale⟩ : ∃ k : Nat, q - G.target m q = k := ⟨(q - G.target m q).toNat, by omega⟩
  have place : q - k = G.target m q := by omega
  have fits : m * 2 ^ k < 2 ^ (G.fractionBits + 1) := by
    have room : m.log2 + 1 + k ≤ G.fractionBits + 1 := by
      have := place; rw [FloatFormat.target] at this; omega
    calc m * 2 ^ k < 2 ^ (m.log2 + 1) * 2 ^ k :=
          Nat.mul_lt_mul_of_pos_right Nat.lt_log2_self (Nat.two_pow_pos k)
      _ = 2 ^ (m.log2 + 1 + k) := by rw [← pow_add]
      _ ≤ 2 ^ (G.fractionBits + 1) := Nat.pow_le_pow_right (by decide) room
  have bounded : G.fields (m * 2 ^ k) (q - k) < G.infinity := by
    -- the last place of a finite number of `F` lies below the top of `G`
    have top := h.exponent_le
    have positive : 0 < 2 ^ G.fractionBits := Nat.two_pow_pos _
    have double : 2 ^ (G.fractionBits + 1) = 2 * 2 ^ G.fractionBits := by rw [pow_succ]; ring
    have room : (q - k - G.lowest).toNat + 2 ≤ 2 ^ G.exponentBits - 1 := by
      have castF : ((2 ^ F.exponentBits : Nat) : Int) = 2 ^ F.exponentBits := by push_cast; rfl
      have castG : ((2 ^ G.exponentBits : Nat) : Int) = 2 ^ G.exponentBits := by push_cast; rfl
      omega
    calc G.fields (m * 2 ^ k) (q - k) < ((q - k - G.lowest).toNat + 2) * 2 ^ G.fractionBits := by
          rw [fields, Nat.add_mul]; omega
      _ ≤ G.infinity := Nat.mul_le_mul_right _ room
  refine ⟨k, ⟨by omega, fits, ?_, bounded⟩, ?_⟩
  · rw [place, FloatFormat.target]
    rcases le_total G.lowest (q + m.log2 - G.fractionBits) with normal | subnormal
    · right
      have exact : m.log2 + k = G.fractionBits := by
        have := place; rw [FloatFormat.target] at this; omega
      rw [← exact, pow_add]
      exact Nat.mul_le_mul_right _ (Nat.log2_self_le nonzero)
    · left; omega
  · have shift : (q - G.target m q).toNat = k := by omega
    simp only [FloatFormat.encodeMagnitude, if_neg nonzero, if_pos low, shift]
    rw [← place]
    exact Nat.min_eq_left bounded.le

/-- The canonical form survives the detour through a wider format. -/
theorem Canonical.detour {F G : FloatFormat} (wider : Widens F G) {m : Nat} {q : Int}
    (h : F.Canonical m q) :
    ∃ m' q', G.Canonical m' q' ∧ G.encodeMagnitude m q = G.fields m' q' ∧
      F.encodeMagnitude m' q' = F.fields m q := by
  by_cases zero : m = 0
  · subst zero
    have lowest : q = F.lowest := by
      rcases h.normal with same | normal
      · exact same
      · have := Nat.two_pow_pos F.fractionBits
        omega
    have four : 2 ^ 2 ≤ 2 ^ G.exponentBits := Nat.pow_le_pow_right (by decide) G.two_le
    have positive : 0 < 2 ^ G.fractionBits := Nat.two_pow_pos _
    refine ⟨0, G.lowest, ⟨le_refl _, Nat.two_pow_pos _, .inl rfl, ?_⟩, ?_, ?_⟩
    · simp only [fields, Int.sub_self, Int.toNat_zero, Nat.zero_mul, Nat.zero_add, infinity]
      exact Nat.mul_pos (by omega) positive
    · simp [FloatFormat.encodeMagnitude, fields]
    · simp [FloatFormat.encodeMagnitude, fields, lowest]
  · obtain ⟨k, canonical, encoded⟩ := h.widen wider zero
    exact ⟨_, _, canonical, encoded, h.encodeMagnitude k⟩

theorem decode_sign (negative : Bool) {bits : Nat} (low : bits < F.signBit) :
    F.decode (negative.toNat * F.signBit + bits) = F.decodeMagnitude negative bits := by
  cases negative
  · simp [decode, Nat.mod_eq_of_lt low, Nat.not_le.mpr low]
  · simp [decode, Nat.mod_eq_of_lt low]

/-- Read a pattern of one format, write the nearest one of another. -/
def convert (F G : FloatFormat) (bits : Nat) : Nat := G.encode (F.decode bits)

/-- The pattern denotes a number. -/
def isFinite (F : FloatFormat) (bits : Nat) : Bool :=
  match F.decode bits with
  | .finite _ _ _ => true
  | _ => false

def isNaN (F : FloatFormat) (bits : Nat) : Bool := F.decode bits == .nan

/-- A pattern is its sign bit and the rest. -/
theorem sign_add_magnitude {bits : Nat} (low : bits < 2 * F.signBit) :
    (decide (F.signBit ≤ bits)).toNat * F.signBit + bits % F.signBit = bits := by
  by_cases high : F.signBit ≤ bits
  · simp only [high, decide_true, Bool.toNat_true, Nat.one_mul]
    rw [Nat.mod_eq_sub_mod high, Nat.mod_eq_of_lt (by omega)]
    omega
  · simp only [high, decide_false, Bool.toNat_false, Nat.zero_mul, Nat.zero_add]
    rw [Nat.mod_eq_of_lt (by omega)]

/-- Splitting a finite pattern into its sign and its canonical magnitude. -/
theorem decode_finite {bits : Nat} (low : bits < 2 * F.signBit) (finite : F.isFinite bits) :
    ∃ negative m q, F.decode bits = .finite negative m q ∧ F.Canonical m q ∧
      bits = negative.toNat * F.signBit + F.fields m q := by
  have positive : 0 < F.signBit := Nat.mul_pos (Nat.two_pow_pos _) (Nat.two_pow_pos _)
  unfold isFinite at finite
  split at finite
  · rename_i negative m q read
    obtain ⟨sign, canonical, all⟩ := decodeMagnitude_canonical read (Nat.mod_lt _ positive)
    refine ⟨negative, m, q, read, canonical, ?_⟩
    rw [all, sign]
    exact (sign_add_magnitude low).symm
  · cases finite

/-- Widening keeps a number a number. -/
theorem decode_convert {F G : FloatFormat} (wider : Widens F G) {bits : Nat}
    (low : bits < 2 * F.signBit) (finite : F.isFinite bits) :
    ∃ negative m q, G.decode (convert F G bits) = .finite negative m q ∧
      F.encode (.finite negative m q) = bits := by
  obtain ⟨negative, m, q, read, canonical, all⟩ := decode_finite low finite
  obtain ⟨m', q', wide, encoded, back⟩ := canonical.detour wider
  refine ⟨negative, m', q', ?_, ?_⟩
  · rw [convert, read, encode, encoded, decode_sign _ (wide.bounded.trans infinity_lt_signBit)]
    exact wide.decodeMagnitude negative
  · rw [encode, back, all]

/-- **Widening loses nothing**: narrowing the widened pattern gives it back. -/
theorem convert_convert {F G : FloatFormat} (wider : Widens F G) {bits : Nat}
    (low : bits < 2 * F.signBit) (finite : F.isFinite bits) :
    convert G F (convert F G bits) = bits := by
  obtain ⟨negative, m, q, read, back⟩ := decode_convert wider low finite
  rw [convert, read, back]

/-- An infinite pattern is its sign and the magnitude infinity. -/
theorem decode_infinite {bits : Nat} (low : bits < 2 * F.signBit) {negative : Bool}
    (read : F.decode bits = .infinite negative) : F.encode (.infinite negative) = bits := by
  have parts := Nat.div_add_mod (bits % F.signBit) (2 ^ F.fractionBits)
  unfold decode decodeMagnitude at read
  simp only at read
  split at read
  · rename_i all
    split at read
    · rename_i zero
      obtain rfl := Datum.infinite.inj read
      rw [all, zero, Nat.add_zero, Nat.mul_comm] at parts
      rw [encode, infinity, parts]
      exact sign_add_magnitude low
    · cases read
  · split at read <;> cases read

theorem decode_encode_infinite (negative : Bool) :
    F.decode (F.encode (.infinite negative)) = .infinite negative := by
  have positive : 0 < 2 ^ F.fractionBits := Nat.two_pow_pos _
  rw [encode, decode_sign _ infinity_lt_signBit, decodeMagnitude, infinity,
    Nat.mul_div_cancel _ positive, Nat.mul_mod_left, if_pos rfl, if_pos rfl]

/-- What is no NaN comes back from the wider format. -/
theorem convert_convert_of_not_nan {F G : FloatFormat} (wider : Widens F G) {bits : Nat}
    (low : bits < 2 * F.signBit) (number : F.isNaN bits = false) :
    convert G F (convert F G bits) = bits := by
  cases read : F.decode bits with
  | nan => simp [isNaN, read] at number
  | infinite negative =>
    rw [convert, convert, read, decode_encode_infinite]
    exact decode_infinite low read
  | finite negative m q => exact convert_convert wider low (by simp [isFinite, read])

theorem convert_not_nan {F G : FloatFormat} (wider : Widens F G) {bits : Nat}
    (low : bits < 2 * F.signBit) (finite : F.isFinite bits) :
    G.isNaN (convert F G bits) = false := by
  obtain ⟨negative, m, q, read, _⟩ := decode_convert wider low finite
  rw [isNaN, read]
  rfl

theorem encode_lt (d : Datum) : F.encode d < 2 * F.signBit := by
  have below := infinity_lt_signBit (F := F)
  have magnitude : ∀ m q, F.encodeMagnitude m q ≤ F.infinity := by
    intro m q
    unfold FloatFormat.encodeMagnitude
    split
    · exact Nat.zero_le _
    · exact Nat.min_le_right _ _
  cases d with
  | nan =>
    have payload : 2 ^ (F.fractionBits - 1) ≤ F.signBit := by
      calc 2 ^ (F.fractionBits - 1) ≤ 1 * 2 ^ F.fractionBits := by
            rw [Nat.one_mul]; exact Nat.pow_le_pow_right (by decide) (Nat.sub_le _ _)
        _ ≤ F.signBit := Nat.mul_le_mul_right _ (Nat.two_pow_pos _)
    simp only [encode]
    omega
  | infinite negative => cases negative <;> simp only [encode, Bool.toNat_true, Bool.toNat_false] <;> omega
  | finite negative m q =>
    have := magnitude m q
    cases negative <;> simp only [encode, Bool.toNat_true, Bool.toNat_false] <;> omega

/-- The integer part of a datum, as a conversion to a wide integer type computes it. -/
def truncate (low high : Int) : Datum → Int
  | .nan => 0
  | .infinite negative => if negative then low else high
  | .finite negative m q =>
    let magnitude : Int := (m * 2 ^ q.toNat / 2 ^ (-q).toNat : Nat)
    max low (min high (if negative then -magnitude else magnitude))

/-- The datum of an integer. -/
def ofInt (n : Int) : Datum := .finite (n < 0) n.natAbs 0

end FloatFormat

/-! ## The two formats of C's `float` and `double` -/

/-- `(double)x` on bit patterns. -/
def floatToDouble (x : BitVec 32) : BitVec 64 :=
  BitVec.ofNat 64 (FloatFormat.convert .binary32 .binary64 x.toNat)

/-- `(float)x` on bit patterns. -/
def doubleToFloat (x : BitVec 64) : BitVec 32 :=
  BitVec.ofNat 32 (FloatFormat.convert .binary64 .binary32 x.toNat)

def floatIsFinite (x : BitVec 32) : Bool := FloatFormat.binary32.isFinite x.toNat

def floatIsNaN (x : BitVec 32) : Bool := FloatFormat.binary32.isNaN x.toNat

def doubleIsNaN (x : BitVec 64) : Bool := FloatFormat.binary64.isNaN x.toNat

theorem floatToDouble_toNat (x : BitVec 32) :
    (floatToDouble x).toNat = FloatFormat.convert .binary32 .binary64 x.toNat := by
  have bound := FloatFormat.encode_lt (F := .binary64) (FloatFormat.binary32.decode x.toNat)
  rw [floatToDouble, BitVec.toNat_ofNat]
  exact Nat.mod_eq_of_lt bound

/-- A float that is no NaN survives the round trip through a double. -/
theorem doubleToFloat_of_not_nan {x : BitVec 32} (number : floatIsNaN x = false) :
    doubleToFloat (floatToDouble x) = x := by
  apply BitVec.eq_of_toNat_eq
  rw [doubleToFloat, floatToDouble_toNat,
    FloatFormat.convert_convert_of_not_nan FloatFormat.binary32_widens x.isLt number,
    BitVec.ofNat_toNat]
  simp

/-- Every NaN becomes the same one. -/
theorem floatToDouble_of_nan {x : BitVec 32} (nan : floatIsNaN x = true) : floatToDouble x = 0x7FF8000000000000 := by
  have read : FloatFormat.binary32.decode x.toNat = .nan := eq_of_beq nan
  rw [floatToDouble, FloatFormat.convert, read]
  rfl

theorem floatIsNaN_of_finite {x : BitVec 32} (finite : floatIsFinite x) : floatIsNaN x = false := by
  unfold floatIsFinite FloatFormat.isFinite at finite
  split at finite
  · rename_i read
    rw [floatIsNaN, FloatFormat.isNaN, read]
    rfl
  · cases finite

/-- A finite float survives the round trip through a double. -/
theorem doubleToFloat_floatToDouble {x : BitVec 32} (finite : floatIsFinite x) :
    doubleToFloat (floatToDouble x) = x :=
  doubleToFloat_of_not_nan (floatIsNaN_of_finite finite)

theorem floatToDouble_not_nan {x : BitVec 32} (finite : floatIsFinite x) :
    doubleIsNaN (floatToDouble x) = false := by
  rw [doubleIsNaN, floatToDouble_toNat]
  exact FloatFormat.convert_not_nan FloatFormat.binary32_widens x.isLt finite

-- 1.5 and the least subnormal float widen to the doubles of the same value
example : floatToDouble 0x3FC00000#32 = 0x3FF8000000000000#64 := by decide
example : floatToDouble 0x00000001#32 = 0x36A0000000000000#64 := by decide
example : doubleToFloat 0x3FF8000010000001#64 = 0x3FC00001#32 := by decide

end Lib
