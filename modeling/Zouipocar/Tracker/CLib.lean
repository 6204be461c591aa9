import Zouipocar.Common.CString
import Zouipocar.Lib.Action
import Mathlib.Data.List.TakeWhile
import Mathlib.Algebra.Field.Rat
import Mathlib.Algebra.Order.Ring.Unbundled.Rat
import Mathlib.Data.Rat.Floor

/-!
# The C library the tracker uses

`strtok` keeps the rest of its string between calls, `strtol` and `strtod`
store `ERANGE` in `errno` and nothing ever takes it away. These two cells are
the state `CLib`. On the AVR a `long` has 32 bits and `double` is single
precision; the values of floating-point expressions are exact rationals here.
-/

namespace Zouipocar
set_option autoImplicit false
open Lib

inductive Errno
  | zero | erange
deriving DecidableEq, Repr

structure CLib where
  errno : Errno
  /-- Where `strtok(NULL, …)` goes on. -/
  saved : Option CString

/-- The state at power-on. -/
def CLib.start : CLib := ⟨.zero, none⟩

/-! ## `strtok` -/

/-- One token and what is left behind its delimiter. -/
def splitToken (delim : CString) (s : CString) : Option CString × Option CString :=
  let s := s.dropWhile delim.contains
  if s = [] then (none, none)
  else (some (s.takeWhile (!delim.contains ·)), (s.dropWhile (!delim.contains ·)).tail?)

def strtok {ε : Type} (s : Option CString) (delim : CString) : Action CLib ε (Option CString) := do
  let lib ← get
  match s.or lib.saved with
  | none => return none
  | some s =>
    let (token, saved) := splitToken delim s
    set { lib with saved }
    return token

theorem result_strtok {ε : Type} (s : Option CString) (delim : CString) (lib : CLib) :
    Action.result (strtok (ε := ε) s delim) lib = match s.or lib.saved with
      | none => (.ok none, lib)
      | some s => (.ok (splitToken delim s).1, { lib with saved := (splitToken delim s).2 }) := by
  cases here : s.or lib.saved <;> simp [strtok, Action.result_bind, here, -bind_pure_comp]

/-- All tokens of a string: the non-empty pieces between delimiters. -/
def tokens (delim s : CString) : List CString :=
  (s.splitOnP delim.contains).filter (· ≠ [])

theorem tokens_dropWhile (delim s : CString) :
    tokens delim (s.dropWhile delim.contains) = tokens delim s := by
  induction s with
  | nil => rfl
  | cons c rest ih =>
    by_cases isDelim : delim.contains c = true
    · rw [List.dropWhile_cons_of_pos isDelim, ih, tokens, tokens,
        List.splitOnP_cons_eq_if_modifyHead, if_pos isDelim, List.filter_cons_of_neg (by simp)]
    · rw [List.dropWhile_cons_of_neg isDelim]

section Word

variable {delim word : CString} (nonempty : word ≠ []) (plain : ∀ c ∈ word, delim.contains c = false)

include nonempty plain

theorem tokens_word : tokens delim word = [word] := by
  rw [tokens, List.splitOnP_eq_singleton plain]
  simp [nonempty]

theorem tokens_word_delim {d : Byte} (isDelim : delim.contains d = true) (rest : CString) :
    tokens delim (word ++ d :: rest) = word :: tokens delim rest := by
  rw [tokens, List.splitOnP_append_cons_of_forall_mem plain d isDelim,
    List.filter_cons_of_pos (by simpa using nonempty)]
  rfl

end Word

/-- What `strtok` splits off is the first token, and the others are left. -/
theorem splitToken_tokens (delim s : CString) :
    (splitToken delim s).1 = (tokens delim s).head? ∧
      ((splitToken delim s).2.map (tokens delim)).getD [] = (tokens delim s).tail := by
  rw [← tokens_dropWhile, splitToken]
  generalize left : s.dropWhile delim.contains = s'
  cases s' with
  | nil => exact ⟨rfl, rfl⟩
  | cons c rest =>
    have first : c ∉ delim := by
      simpa [left] using List.head?_dropWhile_not delim.contains s
    have whole := (List.takeWhile_append_dropWhile (p := (!delim.contains ·)) (l := c :: rest)).symm
    have nonempty : (c :: rest).takeWhile (!delim.contains ·) ≠ [] := by
      rw [List.takeWhile_cons_of_pos (by simpa using first)]
      exact List.cons_ne_nil _ _
    have plain : ∀ x ∈ (c :: rest).takeWhile (!delim.contains ·), delim.contains x = false := by
      intro x taken
      simpa using List.mem_takeWhile_imp taken
    have ends := List.head?_dropWhile_not (!delim.contains ·) (c :: rest)
    simp only [List.cons_ne_nil, if_false]
    generalize (c :: rest).takeWhile (!delim.contains ·) = word at whole nonempty plain ⊢
    generalize (c :: rest).dropWhile (!delim.contains ·) = behind at whole ends ⊢
    rw [whole]
    cases behind with
    | nil =>
      rw [List.append_nil, tokens_word nonempty plain]
      exact ⟨rfl, rfl⟩
    | cons d after =>
      rw [tokens_word_delim nonempty plain (by simpa using ends)]
      exact ⟨rfl, rfl⟩

/-! ## Numbers -/

/-- The value does not fit a `long`. -/
def LongRange (s : CString) : Prop := longValue s < -2 ^ 31 ∨ 2 ^ 31 ≤ longValue s

instance (s : CString) : Decidable (LongRange s) := inferInstanceAs (Decidable (_ ∨ _))

/-- `strtol(s, &end, 10)`: the nearest `long`. -/
def strtol {ε : Type} (s : CString) : Action CLib ε Int := do
  if LongRange s then modify ({ · with errno := .erange })
  return max (-2 ^ 31) (min (longValue s) (2 ^ 31 - 1))

/-- A `float` or `double`, with exact finite values. -/
inductive CFloat
  | finite (q : ℚ)
  | infinite (negative : Bool)
  | nan
deriving DecidableEq

/-- `m · 10^e`. -/
def scaled (m : Nat) (e : Int) : ℚ := if 0 ≤ e then m * 10 ^ e.toNat else mkRat m (10 ^ (-e).toNat)

/-- The exponent part of a number, `0` if there is none. -/
def exponentValue : CString → Int
  | c :: rest =>
    let (negative, rest) := takeSign rest
    let magnitude := digitsValue (rest.takeWhile isDigit)
    if c ≠ 101 ∧ c ≠ 69 then 0 else if negative then -magnitude else magnitude
  | [] => 0

/-- The digits before and after the decimal point, and what follows. -/
def takeMantissa (s : CString) : CString × CString × CString :=
  let whole := s.takeWhile isDigit
  match s.dropWhile isDigit with
  | 46 :: rest => (whole, rest.takeWhile isDigit, rest.dropWhile isDigit)
  | rest => (whole, [], rest)

def lowerCase (c : Byte) : Byte := if 65 ≤ c ∧ c ≤ 90 then c + 32 else c

/-- The number in front of a string, before it is fitted to the type. -/
def doubleValue (s : CString) : CFloat :=
  let (negative, rest) := takeSign (s.dropWhile isSpace)
  let word := (rest.take 3).map lowerCase
  if word = ascii "nan" then .nan
  else if word = ascii "inf" then .infinite negative
  else
    let (whole, fraction, rest) := takeMantissa rest
    -- without a digit there is no number, and the value is 0
    let q := if whole ++ fraction = [] then 0
      else scaled (digitsValue (whole ++ fraction)) (exponentValue rest - fraction.length)
    .finite (if negative then -q else q)

/-- The value rounds to infinity, or to zero without being zero. -/
def CFloat.Range : CFloat → Prop
  | .finite q => (2 ^ 25 - 1) * 2 ^ 103 ≤ |q| ∨ (q ≠ 0 ∧ |q| ≤ mkRat 1 (2 ^ 150))
  | _ => False

instance : DecidablePred CFloat.Range := fun
  | .finite _ => inferInstanceAs (Decidable (_ ∨ _))
  | .infinite _ | .nan => inferInstanceAs (Decidable False)

def DoubleRange (s : CString) : Prop := (doubleValue s).Range

instance (s : CString) : Decidable (DoubleRange s) := inferInstanceAs (Decidable (CFloat.Range _))

/-- The value a conversion out of range returns: an infinity or zero. -/
def CFloat.saturate : CFloat → CFloat
  | .finite q => if 1 ≤ |q| then .infinite (q < 0) else .finite 0
  | x => x

/-- `strtod(s, &end)`. -/
def strtod {ε : Type} (s : CString) : Action CLib ε CFloat := do
  if DoubleRange s then
    modify ({ · with errno := .erange })
    return (doubleValue s).saturate
  return doubleValue s

/-! ## Arithmetic -/

namespace CFloat

def ofInt (n : Int) : CFloat := .finite n

def neg : CFloat → CFloat
  | .finite q => .finite (-q)
  | .infinite negative => .infinite (!negative)
  | .nan => .nan

def add : CFloat → CFloat → CFloat
  | .finite a, .finite b => .finite (a + b)
  | .infinite s, .infinite t => if s = t then .infinite s else .nan
  | .infinite s, .finite _ => .infinite s
  | .finite _, .infinite t => .infinite t
  | _, _ => .nan

def sub (a b : CFloat) : CFloat := a.add b.neg

/-- Division by a positive constant. -/
def div (d : ℚ) : CFloat → CFloat
  | .finite q => .finite (q / d)
  | x => x

/-- The conversion to an integer truncates. Where the value does not fit the
type C leaves the result open; the callers keep its low bits. -/
def truncate : CFloat → Int
  | .finite q => q.num.tdiv q.den
  | _ => 0

theorem truncate_of_nonneg {q : ℚ} (nonneg : 0 ≤ q) : (finite q).truncate = ⌊q⌋ := by
  rw [truncate, Rat.floor_def', Int.tdiv_eq_ediv_of_nonneg (Rat.num_nonneg.mpr nonneg)]

end CFloat

end Zouipocar
