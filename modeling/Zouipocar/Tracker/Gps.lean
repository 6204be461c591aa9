import Zouipocar.Tracker.CLib
import Zouipocar.Tracker.ReturnCodes
import Zouipocar.Tracker.TimeUtils

/-!
# The RMC parser

`process_rmc` takes its sentence apart with `strtok` and tests `errno` after
each of five conversions. Over it stands `Rmc.fix`, the same parser over the
list of the sentence's tokens: it knows nothing of the library's state, and a
conversion out of range is marked in its result. With `errno` clear the two
agree (`Reads`).
-/

namespace Zouipocar
set_option autoImplicit false
open Lib

/-- The comma of NMEA sentences. -/
def comma : CString := ascii ","

/-- The next token; a missing one ends the parse. -/
def nextToken (src : Option CString) : Action CLib ATRetCode CString := do
  match ← strtok src comma with
  | none => throw .gpsFailParse
  | some token => return token

/-- `if (errno == ERANGE) return …;` -/
def checkErrno (failed : ATRetCode) : Action CLib ATRetCode Unit := do
  if (← get).errno = .erange then throw failed

/-- `if (strcmp(token, "V") == 0) return AT_GPS_FAIL_VALID;` -/
def checkValidity (token : CString) : Action CLib ATRetCode Unit :=
  if token = ascii "V" then throw .gpsFailValid else pure ()

def toLong (failed : ATRetCode) (token : CString) : Action CLib ATRetCode (BitVec 32) := do
  let value ← strtol token
  checkErrno failed
  return BitVec.ofInt 32 value

def toDouble (failed : ATRetCode) (token : CString) : Action CLib ATRetCode CFloat := do
  let value ← strtod token
  checkErrno failed
  return value

/-- `dddmm.mmmm` in degrees. An `int` has 16 bits. -/
def degrees (value : CFloat) : CFloat :=
  let deg : BitVec 16 := BitVec.ofInt 16 (value.div 100).truncate
  (CFloat.ofInt deg.toInt).add ((value.sub (.ofInt (deg * 100).toInt)).div 60)

/-- Knots in km/h: `speed *= 1.852` on a `uint8_t`. -/
def kmh (knots : CFloat) : BitVec 8 :=
  let speed : BitVec 8 := BitVec.ofInt 8 knots.truncate
  BitVec.ofInt 8 (CFloat.finite (speed.toNat * mkRat 1852 1000)).truncate

/-- The value turned to its side of the equator or of the meridian. -/
def directed (value : CFloat) (direction opposite : CString) : CFloat :=
  if direction = opposite then value.neg else value

/-- The latitude and the longitude, each with its direction. -/
def coordinate (failed : ATRetCode) (opposite : CString) : Action CLib ATRetCode CFloat := do
  let value ← toDouble failed (← nextToken none)
  let direction ← nextToken none
  return directed (degrees value) direction opposite

/-- `process_rmc` up to the assignments. -/
def rmcFix (src : Option CString) : Action CLib ATRetCode (FixOf CFloat) := do
  let _ ← nextToken src -- $GNRMC
  let time ← toLong .gpsFailTime (← nextToken none)
  checkValidity (← nextToken none)
  let latitude ← coordinate .gpsFailLatitude (ascii "S")
  let longitude ← coordinate .gpsFailLongitude (ascii "W")
  let knots ← toDouble .gpsFailSpeed (← nextToken none)
  let _ ← nextToken none -- course made good
  let date ← toLong .gpsFailDate (← nextToken none)
  return { timestamp := timeFromGps time date, latitude, longitude, speed := kmh knots }

/-- The return code, and `output`, which is written at the very end only. -/
def processRmc (src : CString) (output : FixOf CFloat) (lib : CLib) :
    ATRetCode × FixOf CFloat × CLib :=
  match Action.result (rmcFix (some src)) lib with
  | (.ok fix, lib) => (.ok, fix, lib)
  | (.error code, lib) => (code, output, lib)

/-! ## The parser over tokens -/

namespace Rmc

/-- Why a sentence is refused, and whether a conversion was out of range. -/
structure Refusal where
  code : ATRetCode
  range : Bool
deriving DecidableEq

abbrev Parser := StateT (List CString) (Except Refusal)

def token : Parser CString := fun
  | [] => throw ⟨.gpsFailParse, false⟩
  | t :: rest => return (t, rest)

def validity (t : CString) : Parser Unit :=
  if t = ascii "V" then throw ⟨.gpsFailValid, false⟩ else pure ()

def long (failed : ATRetCode) (t : CString) : Parser (BitVec 32) := do
  if LongRange t then throw ⟨failed, true⟩
  return BitVec.ofInt 32 (longValue t)

def double (failed : ATRetCode) (t : CString) : Parser CFloat := do
  if DoubleRange t then throw ⟨failed, true⟩
  return doubleValue t

theorem long_eq (failed : ATRetCode) (t : CString) (toks : List CString) :
    long failed t toks = if LongRange t then .error ⟨failed, true⟩
      else .ok (BitVec.ofInt 32 (longValue t), toks) := by
  unfold long
  split <;> rfl

theorem double_eq (failed : ATRetCode) (t : CString) (toks : List CString) :
    double failed t toks = if DoubleRange t then .error ⟨failed, true⟩
      else .ok (doubleValue t, toks) := by
  unfold double
  split <;> rfl

def coordinate (failed : ATRetCode) (opposite : CString) : Parser CFloat := do
  let value ← double failed (← token)
  let direction ← token
  return directed (degrees value) direction opposite

/-- What follows the validity. -/
def position (time : BitVec 32) : Parser (FixOf CFloat) := do
  let latitude ← coordinate .gpsFailLatitude (ascii "S")
  let longitude ← coordinate .gpsFailLongitude (ascii "W")
  let knots ← double .gpsFailSpeed (← token)
  let _ ← token
  let date ← long .gpsFailDate (← token)
  return { timestamp := timeFromGps time date, latitude, longitude, speed := kmh knots }

/-- The fix of a sentence, from its tokens. -/
def fix : Parser (FixOf CFloat) := do
  let _ ← token
  let time ← long .gpsFailTime (← token)
  validity (← token)
  position time

end Rmc

/-! ## The refinement -/

/-- The tokens `strtok(NULL, ",")` still returns. -/
def CLib.tokens (lib : CLib) : List CString := (lib.saved.map (Zouipocar.tokens comma)).getD []

/-- What an action does, as the outcome of the parser on the tokens left. -/
def Meets {α : Type} (x : Action CLib ATRetCode α) (lib : CLib) :
    Except Rmc.Refusal (α × List CString) → Prop
  | .ok (a, rest) => ∃ after, Action.result x lib = (.ok a, after) ∧ after.errno = .zero ∧
      after.tokens = rest
  | .error refusal => ∃ after, Action.result x lib = (.error refusal.code, after) ∧
      (after.errno = .erange ↔ refusal.range = true)

/-- With `errno` clear the action does what the parser does with the tokens
that are left; a conversion out of range leaves `ERANGE` behind. -/
def Reads {α : Type} (x : Action CLib ATRetCode α) (y : Rmc.Parser α) : Prop :=
  ∀ lib, lib.errno = .zero → Meets x lib (y lib.tokens)

namespace Rmc.Parser

variable {α β : Type} {y : Parser α} {g : α → Parser β} {toks rest : List CString} {a : α}
  {refusal : Refusal}

theorem bind_ok (h : y toks = .ok (a, rest)) : (y >>= g) toks = g a rest := by
  show (y toks >>= fun p => g p.1 p.2) = _
  rw [h]
  rfl

theorem bind_error (h : y toks = .error refusal) : (y >>= g) toks = .error refusal := by
  show (y toks >>= fun p => g p.1 p.2) = _
  rw [h]
  rfl

end Rmc.Parser

namespace Reads

variable {α β : Type}

theorem pure (a : α) : Reads (pure a) (pure a) :=
  fun lib clear => ⟨lib, rfl, clear, rfl⟩

theorem throw (code : ATRetCode) : Reads (α := α) (throw code) (throw ⟨code, false⟩) := by
  intro lib clear
  refine ⟨lib, rfl, ?_⟩
  simp [clear]

theorem bind {x : Action CLib ATRetCode α} {y : Rmc.Parser α} {f : α → Action CLib ATRetCode β}
    {g : α → Rmc.Parser β} (first : Reads x y) (rest : ∀ a, Reads (f a) (g a)) :
    Reads (x >>= f) (y >>= g) := by
  intro lib clear
  have here := first lib clear
  cases outcome : y lib.tokens with
  | ok p =>
    obtain ⟨a, left⟩ := p
    rw [outcome] at here
    obtain ⟨after, ran, clear', rfl⟩ := here
    have there := rest a after clear'
    rw [Rmc.Parser.bind_ok outcome]
    unfold Meets at there ⊢
    rw [Action.result_bind_ok ran]
    exact there
  | error refusal =>
    rw [outcome] at here
    obtain ⟨after, ran, range⟩ := here
    rw [Rmc.Parser.bind_error outcome]
    exact ⟨after, Action.result_bind_error ran, range⟩

theorem ite {p : Prop} [Decidable p] {x x' : Action CLib ATRetCode α} {y y' : Rmc.Parser α}
    (yes : Reads x y) (no : Reads x' y') : Reads (if p then x else x') (if p then y else y') := by
  split
  · exact yes
  · exact no

end Reads

/-- A conversion fails on a value out of range, and on any value once `errno` is set. -/
theorem result_toLong (failed : ATRetCode) (t : CString) (lib : CLib) :
    Action.result (toLong failed t) lib =
      if LongRange t ∨ lib.errno = .erange then (.error failed, { lib with errno := .erange })
      else (.ok (BitVec.ofInt 32 (longValue t)), lib) := by
  obtain ⟨errno, saved⟩ := lib
  by_cases range : LongRange t
  · simp [toLong, strtol, checkErrno, Action.result_bind, range]
  · have fits : max (-2147483648) (min (longValue t) 2147483647) = longValue t := by
      rw [LongRange] at range
      omega
    cases errno <;> simp [toLong, strtol, checkErrno, Action.result_bind, range, fits]

theorem result_toDouble (failed : ATRetCode) (t : CString) (lib : CLib) :
    Action.result (toDouble failed t) lib =
      if DoubleRange t ∨ lib.errno = .erange then (.error failed, { lib with errno := .erange })
      else (.ok (doubleValue t), lib) := by
  obtain ⟨errno, saved⟩ := lib
  by_cases range : DoubleRange t
  · simp [toDouble, strtod, checkErrno, Action.result_bind, range]
  · cases errno <;> simp [toDouble, strtod, checkErrno, Action.result_bind, range]

/-- `strtok` hands out the first token of its string and leaves the others. -/
theorem strtok_some {ε : Type} {src : Option CString} {s : CString} {lib : CLib}
    (here : src.or lib.saved = some s) :
    ∃ saved, Action.result (strtok (ε := ε) src comma) lib =
        (.ok (tokens comma s).head?, { lib with saved }) ∧
      ({ lib with saved } : CLib).tokens = (tokens comma s).tail := by
  obtain ⟨first, others⟩ := splitToken_tokens comma s
  exact ⟨_, by rw [result_strtok, here, ← first], others⟩

theorem strtok_none {ε : Type} (lib : CLib) :
    ∃ saved, Action.result (strtok (ε := ε) none comma) lib = (.ok lib.tokens.head?, { lib with saved }) ∧
      ({ lib with saved } : CLib).tokens = lib.tokens.tail := by
  obtain ⟨errno, saved⟩ := lib
  cases saved with
  | none => exact ⟨none, by rw [result_strtok]; rfl, rfl⟩
  | some s => exact strtok_some rfl

/-- The next token is the first of those left, whatever `errno` is. -/
theorem result_nextToken (lib : CLib) :
    ∃ saved, Action.result (nextToken none) lib =
        (match lib.tokens with | [] => .error .gpsFailParse | t :: _ => .ok t, { lib with saved }) ∧
      ({ lib with saved } : CLib).tokens = lib.tokens.tail := by
  obtain ⟨saved, ran, left⟩ := strtok_none (ε := ATRetCode) lib
  refine ⟨saved, ?_, left⟩
  rw [nextToken, Action.result_bind_ok ran]
  cases lib.tokens <;> rfl

namespace Reads

theorem nextToken : Reads (Zouipocar.nextToken none) Rmc.token := by
  intro lib clear
  obtain ⟨saved, ran, left⟩ := result_nextToken lib
  unfold Meets
  rw [ran]
  cases toks : lib.tokens with
  | nil => exact ⟨_, rfl, by simp [clear]⟩
  | cons t rest => exact ⟨_, rfl, clear, by rw [left, toks]; rfl⟩

theorem toLong (failed : ATRetCode) (t : CString) :
    Reads (Zouipocar.toLong failed t) (Rmc.long failed t) := by
  intro lib clear
  unfold Meets
  rw [result_toLong, Rmc.long_eq]
  by_cases range : LongRange t
  · simp [range]
  · simp [range, clear]

theorem toDouble (failed : ATRetCode) (t : CString) :
    Reads (Zouipocar.toDouble failed t) (Rmc.double failed t) := by
  intro lib clear
  unfold Meets
  rw [result_toDouble, Rmc.double_eq]
  by_cases range : DoubleRange t
  · simp [range]
  · simp [range, clear]

theorem checkValidity (t : CString) : Reads (Zouipocar.checkValidity t) (Rmc.validity t) :=
  .ite (.throw _) (.pure _)

theorem coordinate (failed : ATRetCode) (opposite : CString) :
    Reads (Zouipocar.coordinate failed opposite) (Rmc.coordinate failed opposite) :=
  nextToken.bind fun t => (toDouble failed t).bind fun _ => nextToken.bind fun _ => .pure _

/-- **From tokens left by an earlier call the parser reads what the tokens say.** -/
theorem rmcFix : Reads (Zouipocar.rmcFix none) Rmc.fix := by
  refine nextToken.bind fun _ => nextToken.bind fun time => (toLong _ time).bind fun _ =>
    nextToken.bind fun v => (checkValidity v).bind fun _ => ?_
  unfold Rmc.position
  exact (coordinate _ _).bind fun _ => (coordinate _ _).bind fun _ =>
    nextToken.bind fun knots => (toDouble _ knots).bind fun _ => nextToken.bind fun _ =>
    nextToken.bind fun date => (toLong _ date).bind fun _ => .pure _

end Reads

/-- The sentence replaces whatever `strtok` kept. -/
theorem rmcFix_some (src : CString) (lib : CLib) :
    Action.result (rmcFix (some src)) lib = Action.result (rmcFix none) { lib with saved := some src } := by
  have first : Action.result (nextToken (some src)) lib =
      Action.result (nextToken none) { lib with saved := some src } := by
    unfold nextToken
    rw [Action.result_bind, Action.result_bind, result_strtok, result_strtok]
    rfl
  unfold rmcFix
  rw [Action.result_bind, first, Action.result_bind]

/-- **With `errno` clear `process_rmc` is the parser over the tokens.** -/
theorem rmcFix_meets (src : CString) {lib : CLib} (clear : lib.errno = .zero) :
    Meets (rmcFix (some src)) lib (Rmc.fix (tokens comma src)) := by
  have reads := Reads.rmcFix { lib with saved := some src } clear
  unfold Meets at reads ⊢
  rw [rmcFix_some]
  exact reads

end Zouipocar
