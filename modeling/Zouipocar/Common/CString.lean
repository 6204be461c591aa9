import Zouipocar.Common.Fix
import Mathlib.Algebra.Ring.Nat
import Mathlib.Data.List.Induction
import Mathlib.Data.List.TakeWhile
import Mathlib.Tactic.Ring

/-!
# Numbers in C strings

What `strtol` on the tracker and `strtoul` on the server read of a number is
the same: white space, a sign and digits. A C string is the list of its
characters up to the terminator.
-/

namespace Zouipocar
set_option autoImplicit false

abbrev CString := List Byte

/-- The characters of a literal. -/
def ascii (text : String) : CString := text.toList.map fun c => BitVec.ofNat 8 c.toNat

def isSpace (c : Byte) : Bool := c = 32 ∨ (9 ≤ c ∧ c ≤ 13)

def isDigit (c : Byte) : Bool := 48 ≤ c ∧ c ≤ 57

/-- The value of a run of decimal digits. -/
def digitsValue (digits : CString) : Nat :=
  digits.foldl (fun n c => 10 * n + (c.toNat - 48)) 0

/-- An optional sign, and what follows it. -/
def takeSign (s : CString) : Bool × CString :=
  match s with
  | 45 :: rest => (true, rest)
  | 43 :: rest => (false, rest)
  | _ => (false, s)

/-- The integer in front of a string: white space, a sign, digits. -/
def longValue (s : CString) : Int :=
  let (negative, rest) := takeSign (s.dropWhile isSpace)
  let magnitude := digitsValue (rest.takeWhile isDigit)
  if negative then -magnitude else magnitude

/-! ## Digit strings -/

/-- Only digits. -/
def Digits (s : CString) : Prop := ∀ c ∈ s, isDigit c = true

instance : DecidablePred Digits := fun _ => inferInstanceAs (Decidable (∀ _ ∈ _, _))

/-- A number written with a fixed count of digits. -/
def decimal : Nat → Nat → CString
  | 0, _ => []
  | width + 1, n => decimal width (n / 10) ++ [BitVec.ofNat 8 (48 + n % 10)]

theorem Digits.append {s t : CString} (hs : Digits s) (ht : Digits t) : Digits (s ++ t) := by
  intro c inside
  exact (List.mem_append.mp inside).elim (hs c) (ht c)

theorem digitsValue_snoc (s : CString) (c : Byte) :
    digitsValue (s ++ [c]) = 10 * digitsValue s + (c.toNat - 48) := by
  rw [digitsValue, digitsValue, List.foldl_append]
  rfl

theorem digitsValue_append (s t : CString) :
    digitsValue (s ++ t) = digitsValue s * 10 ^ t.length + digitsValue t := by
  induction t using List.reverseRecOn with
  | nil => simp [digitsValue]
  | append_singleton t c ih =>
    rw [← List.append_assoc, digitsValue_snoc, digitsValue_snoc, ih, List.length_append,
      List.length_singleton, pow_succ]
    ring

/-- A run of digits is below the power of its length. -/
theorem digitsValue_lt {s : CString} (digits : Digits s) : digitsValue s < 10 ^ s.length := by
  induction s using List.reverseRecOn with
  | nil => exact Nat.one_pos
  | append_singleton s c ih =>
    have here := ih fun x inside => digits x (List.mem_append_left _ inside)
    have digit := digits c (List.mem_append_right _ (List.mem_singleton.mpr rfl))
    rw [isDigit, decide_eq_true_eq, BitVec.le_def, BitVec.le_def] at digit
    have nine : (57 : Byte).toNat = 57 := rfl
    rw [digitsValue_snoc, List.length_append, List.length_singleton, pow_succ]
    omega

theorem digit_toNat (n : Nat) : (BitVec.ofNat 8 (48 + n % 10)).toNat = 48 + n % 10 := by
  rw [BitVec.toNat_ofNat, Nat.mod_eq_of_lt (by omega)]

@[simp] theorem decimal_length (width n : Nat) : (decimal width n).length = width := by
  induction width generalizing n with
  | zero => rfl
  | succ width ih => rw [decimal, List.length_append, ih, List.length_singleton]

theorem decimal_digits (width n : Nat) : Digits (decimal width n) := by
  induction width generalizing n with
  | zero =>
    intro c inside
    cases inside
  | succ width ih =>
    apply (ih (n / 10)).append
    intro c inside
    rw [List.mem_singleton.mp inside, isDigit, decide_eq_true_eq, BitVec.le_def, BitVec.le_def,
      digit_toNat]
    show 48 ≤ _ ∧ _ ≤ 57
    omega

/-- The digits of a number denote it. -/
theorem digitsValue_decimal {width n : Nat} (fits : n < 10 ^ width) :
    digitsValue (decimal width n) = n := by
  induction width generalizing n with
  | zero =>
    rw [Nat.pow_zero] at fits
    obtain rfl : n = 0 := by omega
    rfl
  | succ width ih =>
    rw [Nat.pow_succ] at fits
    rw [decimal, digitsValue_snoc, ih (by omega), digit_toNat]
    omega

theorem takeWhile_digits {s t : CString} (digits : Digits s)
    (ends : ∀ c, t.head? = some c → isDigit c = false) :
    (s ++ t).takeWhile isDigit = s ∧ (s ++ t).dropWhile isDigit = t := by
  rw [List.takeWhile_append_of_pos digits, List.dropWhile_append_of_pos digits]
  cases t with
  | nil => simp
  | cons c more =>
    have stop : isDigit c ≠ true := by simp [ends c rfl]
    rw [List.takeWhile_cons_of_neg stop, List.dropWhile_cons_of_neg stop]
    simp

theorem takeSign_other {c : Byte} {s : CString} (minus : c ≠ 45) (plus : c ≠ 43) :
    takeSign (c :: s) = (false, c :: s) := by
  unfold takeSign
  split
  · rename_i here
    exact (minus (List.cons.inj here).1).elim
  · rename_i here
    exact (plus (List.cons.inj here).1).elim
  · rfl

/-- A digit is neither a space nor a sign, so scanning starts with it. -/
theorem takeSign_digits {s t : CString} (digits : Digits s) (nonempty : s ≠ []) :
    takeSign ((s ++ t).dropWhile isSpace) = (false, s ++ t) := by
  obtain ⟨c, more, rfl⟩ := List.exists_cons_of_ne_nil nonempty
  have digit := digits c (List.mem_cons_self ..)
  rw [isDigit, decide_eq_true_eq, BitVec.le_def, BitVec.le_def] at digit
  have space : isSpace c ≠ true := by
    intro space
    rw [isSpace, decide_eq_true_eq, BitVec.le_def, BitVec.le_def] at space
    have : (48 : Byte).toNat = 48 := rfl
    have : (9 : Byte).toNat = 9 := rfl
    have : (13 : Byte).toNat = 13 := rfl
    rcases space with rfl | space
    · revert digit
      decide
    · omega
  rw [List.cons_append, List.dropWhile_cons_of_neg space]
  apply takeSign_other
  · rintro rfl
    revert digit
    decide
  · rintro rfl
    revert digit
    decide

/-- What is scanned of digits is their value. -/
theorem longValue_digits {s t : CString} (digits : Digits s) (nonempty : s ≠ [])
    (ends : ∀ c, t.head? = some c → isDigit c = false) :
    longValue (s ++ t) = digitsValue s := by
  rw [longValue, takeSign_digits digits nonempty]
  simp only [(takeWhile_digits digits ends).1]
  simp

end Zouipocar
