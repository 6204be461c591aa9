import Zouipocar.Tracker.Gps

/-!
# Sentences one after another

The main loop hands `process_rmc` one sentence per turn. `errno` is tested
after each conversion but never set back to zero, so a value out of range in
one sentence outlives it: from then on every sentence that has a time is
refused as if its time were out of range.
-/

namespace Zouipocar
set_option autoImplicit false
open Lib

namespace Rmc

variable {α β : Type} {toks rest : List CString}

/-! ## What each part of the parser does -/

theorem bind_ok_iff {y : Parser α} {g : α → Parser β} {b : β} :
    (y >>= g) toks = .ok (b, rest) ↔ ∃ a left, y toks = .ok (a, left) ∧ g a left = .ok (b, rest) := by
  cases outcome : y toks with
  | ok p =>
    obtain ⟨a, left⟩ := p
    simp [Parser.bind_ok outcome]
  | error refusal => simp [Parser.bind_error outcome]

theorem bind_error_iff {y : Parser α} {g : α → Parser β} {refusal : Refusal} :
    (y >>= g) toks = .error refusal ↔
      y toks = .error refusal ∨ ∃ a left, y toks = .ok (a, left) ∧ g a left = .error refusal := by
  cases outcome : y toks with
  | ok p =>
    obtain ⟨a, left⟩ := p
    simp [Parser.bind_ok outcome]
  | error refusal => simp [Parser.bind_error outcome]

@[simp] theorem token_ok {t : CString} : token toks = .ok (t, rest) ↔ toks = t :: rest := by
  cases toks with
  | nil => exact ⟨fun h => (by cases h), fun h => (by cases h)⟩
  | cons a left =>
    show Except.ok (a, left) = _ ↔ _
    simp

@[simp] theorem token_error {refusal : Refusal} :
    token toks = .error refusal ↔ toks = [] ∧ ⟨.gpsFailParse, false⟩ = refusal := by
  cases toks with
  | nil =>
    show Except.error _ = _ ↔ _
    simp
  | cons a left => exact ⟨fun h => (by cases h), fun h => (by cases h.1)⟩

@[simp] theorem validity_ok {t : CString} {u : Unit} :
    validity t toks = .ok (u, rest) ↔ t ≠ ascii "V" ∧ toks = rest := by
  unfold validity
  split
  · rename_i void
    exact ⟨fun h => (by cases h), fun h => (h.1 void).elim⟩
  · rename_i valid
    show Except.ok ((), toks) = _ ↔ _
    simp [valid]

@[simp] theorem validity_error {t : CString} {refusal : Refusal} :
    validity t toks = .error refusal ↔ t = ascii "V" ∧ ⟨.gpsFailValid, false⟩ = refusal := by
  unfold validity
  split
  · rename_i void
    show Except.error _ = _ ↔ _
    simp [void]
  · rename_i valid
    exact ⟨fun h => (by cases h), fun h => (valid h.1).elim⟩

@[simp] theorem long_ok {failed : ATRetCode} {t : CString} {v : BitVec 32} :
    long failed t toks = .ok (v, rest) ↔
      ¬ LongRange t ∧ BitVec.ofInt 32 (longValue t) = v ∧ toks = rest := by
  by_cases range : LongRange t <;> simp [long_eq, range]

@[simp] theorem long_error {failed : ATRetCode} {t : CString} {refusal : Refusal} :
    long failed t toks = .error refusal ↔ LongRange t ∧ ⟨failed, true⟩ = refusal := by
  by_cases range : LongRange t <;> simp [long_eq, range]

@[simp] theorem double_ok {failed : ATRetCode} {t : CString} {v : CFloat} :
    double failed t toks = .ok (v, rest) ↔ ¬ DoubleRange t ∧ doubleValue t = v ∧ toks = rest := by
  by_cases range : DoubleRange t <;> simp [double_eq, range]

@[simp] theorem double_error {failed : ATRetCode} {t : CString} {refusal : Refusal} :
    double failed t toks = .error refusal ↔ DoubleRange t ∧ ⟨failed, true⟩ = refusal := by
  by_cases range : DoubleRange t <;> simp [double_eq, range]

@[simp] theorem not_pure_error {a : α} {refusal : Refusal} :
    (pure a : Parser α) toks ≠ .error refusal := by
  intro h
  cases h

@[simp] theorem pure_ok {a b : α} : (pure a : Parser α) toks = .ok (b, rest) ↔ a = b ∧ toks = rest := by
  show Except.ok (a, toks) = _ ↔ _
  simp

theorem coordinate_ok {failed : ATRetCode} {opposite : CString} {v : CFloat} :
    coordinate failed opposite toks = .ok (v, rest) ↔ ∃ t d, toks = t :: d :: rest ∧
      ¬ DoubleRange t ∧ directed (degrees (doubleValue t)) d opposite = v := by
  simp only [coordinate, bind_ok_iff, token_ok, double_ok, pure_ok]
  constructor
  · rintro ⟨t, _, rfl, _, _, ⟨inside, rfl, rfl⟩, d, _, rfl, rfl, rfl⟩
    exact ⟨t, d, rfl, inside, rfl⟩
  · rintro ⟨t, d, rfl, inside, rfl⟩
    exact ⟨t, _, rfl, _, _, ⟨inside, rfl, rfl⟩, d, _, rfl, rfl, rfl⟩

/-! ## Conversions out of range -/

/-- The parser ends at a conversion out of range. -/
def Overflows (y : Parser α) (toks : List CString) : Prop := ∃ code, y toks = .error ⟨code, true⟩

theorem overflows_bind {y : Parser α} {g : α → Parser β} :
    Overflows (y >>= g) toks ↔
      Overflows y toks ∨ ∃ a rest, y toks = .ok (a, rest) ∧ Overflows (g a) rest := by
  simp only [Overflows, bind_error_iff]
  constructor
  · rintro ⟨code, stored | ⟨a, left, ran, stored⟩⟩
    · exact .inl ⟨code, stored⟩
    · exact .inr ⟨a, left, ran, code, stored⟩
  · rintro (⟨code, stored⟩ | ⟨a, left, ran, code, stored⟩)
    · exact ⟨code, .inl stored⟩
    · exact ⟨code, .inr ⟨a, left, ran, stored⟩⟩

@[simp] theorem not_overflows_pure {a : α} : ¬ Overflows (pure a) toks := by simp [Overflows]

@[simp] theorem not_overflows_token : ¬ Overflows token toks := by simp [Overflows]

@[simp] theorem not_overflows_validity {t : CString} : ¬ Overflows (validity t) toks := by
  simp [Overflows]

@[simp] theorem overflows_long {failed : ATRetCode} {t : CString} :
    Overflows (long failed t) toks ↔ LongRange t := by simp [Overflows]

@[simp] theorem overflows_double {failed : ATRetCode} {t : CString} :
    Overflows (double failed t) toks ↔ DoubleRange t := by simp [Overflows]

/-- There is a token at a position, of some kind. -/
def At (toks : List CString) (k : Nat) (p : CString → Prop) : Prop := ∃ t, toks[k]? = some t ∧ p t

@[simp] theorem not_at_nil {k : Nat} {p : CString → Prop} : ¬ At [] k p := by simp [At]

@[simp] theorem at_zero {t : CString} {p : CString → Prop} : At (t :: toks) 0 p ↔ p t := by simp [At]

@[simp] theorem at_succ {t : CString} {k : Nat} {p : CString → Prop} :
    At (t :: toks) (k + 1) p ↔ At toks k p := by simp [At]

/-- A conversion that is reached is out of range. -/
def StoresRange (toks : List CString) : Prop :=
  At toks 1 LongRange ∨ At toks 2 (· ≠ ascii "V") ∧
    (At toks 3 DoubleRange ∨ At toks 5 DoubleRange ∨ At toks 7 DoubleRange ∨ At toks 9 LongRange)

/-! What makes the rest of the parser overflow, from the last token back to the first. -/

theorem overflows_coordinate_bind {failed : ATRetCode} {opposite : CString} {g : CFloat → Parser β}
    {Q : List CString → Prop} (onward : ∀ v rest, Overflows (g v) rest ↔ Q rest) (more : ¬ Q []) :
    Overflows (coordinate failed opposite >>= g) toks ↔ At toks 0 DoubleRange ∨ Q (toks.drop 2) := by
  have first : Overflows (coordinate failed opposite) toks ↔ At toks 0 DoubleRange := by
    cases toks <;> simp [coordinate, overflows_bind, -bind_pure_comp]
  simp only [overflows_bind, first, coordinate_ok, onward]
  rcases toks with _ | ⟨t, _ | ⟨d, rest⟩⟩
  · simp [more]
  · simp [more]
  · by_cases range : DoubleRange t <;> simp [range]

/-- The speed, the course and the date. -/
theorem overflows_motion (f : CFloat → BitVec 32 → FixOf CFloat) :
    Overflows (do
      let knots ← double .gpsFailSpeed (← token)
      let _ ← token
      let date ← long .gpsFailDate (← token)
      return f knots date) toks ↔ At toks 0 DoubleRange ∨ At toks 2 LongRange := by
  rcases toks with _ | ⟨knots, rest⟩
  · simp [overflows_bind, -bind_pure_comp]
  · by_cases range : DoubleRange knots
    · simp [overflows_bind, range, -bind_pure_comp]
    · rcases rest with _ | ⟨course, _ | ⟨date, rest⟩⟩ <;>
        simp [overflows_bind, range, -bind_pure_comp]

theorem overflows_position (time : BitVec 32) : Overflows (position time) toks ↔
    At toks 0 DoubleRange ∨ At toks 2 DoubleRange ∨ At toks 4 DoubleRange ∨ At toks 6 LongRange := by
  rw [position, overflows_coordinate_bind (fun _ _ => overflows_coordinate_bind
    (fun _ _ => overflows_motion _) (by simp)) (by simp)]
  simp [At]

/-- **The parser stops at a conversion out of range exactly when the tokens say so.** -/
theorem fix_overflows : Overflows fix toks ↔ StoresRange toks := by
  simp only [fix, overflows_bind, overflows_position, token_ok, long_ok, validity_ok,
    not_overflows_token, not_overflows_validity, overflows_long, false_or]
  rcases toks with _ | ⟨name, _ | ⟨time, rest⟩⟩
  · simp [StoresRange]
  · simp [StoresRange]
  · by_cases range : LongRange time
    · simp [StoresRange, range]
    · cases rest <;> simp [StoresRange, range]

/-- A time out of range is refused. -/
theorem fix_of_time {name time : CString} (range : LongRange time) :
    fix (name :: time :: rest) = .error ⟨.gpsFailTime, true⟩ := by
  simp [fix, bind_error_iff, range]

/-- A refusal for the time is a time out of range. -/
theorem fix_failTime {range : Bool} (refused : fix toks = .error ⟨.gpsFailTime, range⟩) :
    At toks 1 LongRange := by
  simp only [fix, position, coordinate, bind_error_iff] at refused
  obtain ⟨name, time, ⟨rest, rfl⟩, range, -⟩ : ∃ name time, (∃ rest, toks = name :: time :: rest) ∧
      LongRange time ∧ range = true := by simpa using refused
  exact ⟨time, rfl, range⟩

end Rmc

open Rmc

/-! ## The turns of the main loop -/

/-- What `memset(&fix, 0, sizeof(Fix))` leaves. -/
def zeroed : FixOf CFloat := ⟨0, .finite 0, .finite 0, 0⟩

/-- The code and the fix of each sentence, in a row. -/
def turns (lib : CLib) : List CString → List (ATRetCode × FixOf CFloat)
  | [] => []
  | src :: rest =>
    let (code, fix, lib) := processRmc src zeroed lib
    (code, fix) :: turns lib rest

/-- The code and the fix of a sentence that is the first since power-on. -/
def alone (src : CString) : ATRetCode × FixOf CFloat :=
  let (code, fix, _) := processRmc src zeroed .start
  (code, fix)

/-- A sentence whose result the same without a clear `errno`: it ends before its
time, or its time is out of range itself. -/
def Unaffected (toks : List CString) : Prop := toks.length < 2 ∨ At toks 1 LongRange

/-- What the tokens of a sentence say, as a code and a fix. -/
def outcome : Except Refusal (FixOf CFloat × List CString) → ATRetCode × FixOf CFloat
  | .ok (fix, _) => (.ok, fix)
  | .error refusal => (refusal.code, zeroed)

/-- With `errno` clear the result is what the tokens say. -/
theorem processRmc_clear (src : CString) {lib : CLib} (clear : lib.errno = .zero) :
    ∃ after, processRmc src zeroed lib = ((outcome (fix (tokens comma src))).1,
        (outcome (fix (tokens comma src))).2, after) ∧
      (after.errno = .erange ↔ StoresRange (tokens comma src)) := by
  have here := rmcFix_meets src clear
  rw [← fix_overflows, Overflows]
  unfold processRmc
  cases said : fix (tokens comma src) with
  | ok p =>
    rw [said] at here
    obtain ⟨after, ran, clear', -⟩ := here
    rw [ran]
    exact ⟨after, rfl, by simp [clear']⟩
  | error refusal =>
    rw [said] at here
    obtain ⟨after, ran, range⟩ := here
    rw [ran]
    obtain ⟨code, range⟩ := refusal
    exact ⟨after, rfl, by simpa using range⟩

theorem alone_eq (src : CString) : alone src = outcome (fix (tokens comma src)) := by
  have clear : CLib.start.errno = .zero := rfl
  obtain ⟨after, ran, -⟩ := processRmc_clear src clear
  rw [alone, ran]

/-- With `ERANGE` in `errno` every sentence that has a time is refused for it. -/
theorem processRmc_erange (src : CString) {lib : CLib} (set : lib.errno = .erange) :
    ∃ after, processRmc src zeroed lib =
        (if (tokens comma src).length < 2 then .gpsFailParse else .gpsFailTime, zeroed, after) ∧
      after.errno = .erange := by
  obtain ⟨saved, named, left⟩ := result_nextToken { lib with saved := some src }
  obtain ⟨saved', timed, -⟩ := result_nextToken { lib with saved }
  have whole : ({ lib with saved := some src } : CLib).tokens = tokens comma src := rfl
  rw [whole] at named left
  unfold processRmc
  rw [rmcFix_some, rmcFix]
  generalize tokens comma src = toks at named left ⊢
  rcases toks with _ | ⟨name, _ | ⟨time, rest⟩⟩
  · rw [Action.result_bind_error named]
    exact ⟨_, rfl, set⟩
  · rw [left] at timed
    rw [Action.result_bind_ok named, Action.result_bind_error timed]
    exact ⟨_, rfl, set⟩
  · rw [left] at timed
    rw [Action.result_bind_ok named, Action.result_bind_ok timed]
    have failed := result_toLong .gpsFailTime time { lib with saved := saved' }
    rw [if_pos (.inr set)] at failed
    rw [Action.result_bind_error failed]
    exact ⟨_, rfl, rfl⟩

/-- The sentences such a refusal does not change. -/
theorem alone_eq_iff (src : CString) :
    alone src = (if (tokens comma src).length < 2 then .gpsFailParse else .gpsFailTime, zeroed) ↔
      Unaffected (tokens comma src) := by
  rw [alone_eq]
  generalize tokens comma src = toks
  rcases toks with _ | ⟨name, _ | ⟨time, rest⟩⟩
  · simp [Unaffected, outcome, fix, Parser.bind_error]
  · simp [Unaffected]
    rfl
  · have long : ¬ (name :: time :: rest).length < 2 := by simp
    rw [if_neg long, Unaffected, or_iff_right long]
    constructor
    · intro same
      cases said : fix (name :: time :: rest) with
      | ok p => simp [said, outcome] at same
      | error refusal =>
        obtain ⟨code, range⟩ := refusal
        obtain ⟨rfl, -⟩ := Prod.mk.inj (said ▸ same)
        exact fix_failTime said
    · intro range
      rw [fix_of_time (at_zero.mp (at_succ.mp range))]
      rfl

/-- Once `errno` is set the results are those alone as long as no sentence is affected. -/
theorem turns_erange {lib : CLib} (set : lib.errno = .erange) (sentences : List CString) :
    turns lib sentences = sentences.map alone ↔
      ∀ src ∈ sentences, Unaffected (tokens comma src) := by
  induction sentences generalizing lib with
  | nil => simp [turns]
  | cons src rest ih =>
    obtain ⟨after, ran, set'⟩ := processRmc_erange src set
    rw [turns, ran, List.map_cons, List.cons.injEq, ih set', List.forall_mem_cons, ← alone_eq_iff src]
    exact and_congr_left' eq_comm

/-- Once `errno` is set no sentence is accepted any more. -/
theorem turns_silent {lib : CLib} (set : lib.errno = .erange) (sentences : List CString) :
    ∀ turn ∈ turns lib sentences, turn.1 ≠ .ok := by
  induction sentences generalizing lib with
  | nil => simp [turns]
  | cons src rest ih =>
    obtain ⟨after, ran, set'⟩ := processRmc_erange src set
    rw [turns, ran, List.forall_mem_cons]
    refine ⟨?_, ih set'⟩
    simp only
    split <;> simp

/-- **Every sentence gives what it gives alone exactly when no sentence behind
one with a conversion out of range is affected.** -/
theorem rmc_independent_iff (sentences : List CString) :
    turns .start sentences = sentences.map alone ↔
      sentences.Pairwise fun s t => StoresRange (tokens comma s) → Unaffected (tokens comma t) := by
  suffices clear : ∀ lib : CLib, lib.errno = .zero → (turns lib sentences = sentences.map alone ↔
      sentences.Pairwise fun s t => StoresRange (tokens comma s) → Unaffected (tokens comma t)) from
    clear .start rfl
  induction sentences with
  | nil => simp [turns]
  | cons src rest ih =>
    intro lib clear
    obtain ⟨after, ran, stored⟩ := processRmc_clear src clear
    rw [turns, ran, List.map_cons, List.cons.injEq, List.pairwise_cons, alone_eq]
    simp only [true_and]
    by_cases range : StoresRange (tokens comma src)
    · rw [turns_erange (stored.mpr range)]
      refine ⟨fun same => ⟨fun t inside _ => same t inside, ?_⟩, fun h t inside => h.1 t inside range⟩
      exact List.pairwise_of_forall_mem_list fun _ _ t inside _ => same t inside
    · have clear' : after.errno = .zero := by
        cases left : after.errno with
        | zero => rfl
        | erange => exact (range (stored.mp left)).elim
      rw [ih after clear']
      exact ⟨fun same => ⟨fun _ _ stores => (range stores).elim, same⟩, fun h => h.2⟩

/-- A time that does not fit a `long` silences the valid sentence behind it. -/
theorem not_rmc_independent :
    ¬ ∃ f : CString → ATRetCode × FixOf CFloat, ∀ sentences, turns .start sentences = sentences.map f := by
  rintro ⟨f, same⟩
  let late := ascii "$GNRMC,99999999999"
  let valid := ascii "$GNRMC,185612.00,A,4855.91,N,00203.29,E,12.5,90.0,010220,,,A"
  have first : (turns .start [valid]).map Prod.fst = [.ok] := by decide +kernel
  have second : (turns .start [late, valid]).map Prod.fst = [.gpsFailTime, .gpsFailTime] := by
    decide +kernel
  rw [same] at first second
  simp only [List.map_cons, List.map_nil, List.cons.injEq, and_true] at first second
  rw [first] at second
  exact ATRetCode.noConfusion second.2

end Zouipocar
