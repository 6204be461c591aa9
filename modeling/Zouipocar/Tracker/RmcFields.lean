import Zouipocar.Tracker.RmcSequence

/-!
# Fields and tokens

A sentence is a list of fields between commas, but `strtok` merges commas that
stand side by side and hands out the non-empty fields only. `process_rmc`
counts tokens where it means fields: with an empty field among the first ten,
every value from there on is taken from a later field.
-/

namespace Zouipocar
set_option autoImplicit false
open Lib

namespace Rmc

/-- A sentence as its list of fields; any of them may be empty. -/
structure Sentence where
  fields : List CString
  plain : ∀ field ∈ fields, ∀ c ∈ field, comma.contains c = false

/-- The characters of the sentence. -/
def Sentence.text (s : Sentence) : CString := comma.intercalate s.fields

/-- The fix in the positions of a list. -/
def positionFix (fields : List CString) : FixOf CFloat where
  timestamp := timeFromGps (BitVec.ofInt 32 (longValue (fields.getD 1 [])))
    (BitVec.ofInt 32 (longValue (fields.getD 9 [])))
  latitude := directed (degrees (doubleValue (fields.getD 3 []))) (fields.getD 4 []) (ascii "S")
  longitude := directed (degrees (doubleValue (fields.getD 5 []))) (fields.getD 6 []) (ascii "W")
  speed := kmh (doubleValue (fields.getD 7 []))

/-- Ten tokens whose numbers are in range, and a validity other than `V`. -/
def Acceptable (toks : List CString) : Prop :=
  10 ≤ toks.length ∧ ¬ LongRange (toks.getD 1 []) ∧ toks.getD 2 [] ≠ ascii "V" ∧
    ¬ DoubleRange (toks.getD 3 []) ∧ ¬ DoubleRange (toks.getD 5 []) ∧
    ¬ DoubleRange (toks.getD 7 []) ∧ ¬ LongRange (toks.getD 9 [])

instance : DecidablePred Acceptable := fun _ => inferInstanceAs (Decidable (_ ∧ _))

/-! ## What is accepted -/

theorem length_ten {toks : List CString} (ten : 10 ≤ toks.length) :
    ∃ name time status lat ns lon ew knots course date rest,
      toks = name :: time :: status :: lat :: ns :: lon :: ew :: knots :: course :: date :: rest := by
  match toks, ten with
  | name :: time :: status :: lat :: ns :: lon :: ew :: knots :: course :: date :: rest, _ =>
    exact ⟨name, time, status, lat, ns, lon, ew, knots, course, date, rest, rfl⟩

/-- **The parser takes ten tokens and reads the fix in their positions.** -/
theorem fix_ok {toks rest : List CString} {f : FixOf CFloat} :
    fix toks = .ok (f, rest) ↔ Acceptable toks ∧ f = positionFix toks ∧ rest = toks.drop 10 := by
  simp only [fix, position, bind_ok_iff, token_ok, long_ok, validity_ok, coordinate_ok, double_ok,
    pure_ok]
  constructor
  · rintro ⟨name, _, rfl, time, _, rfl, _, _, ⟨inTime, rfl, rfl⟩, status, _, rfl, _, _, ⟨valid, rfl⟩,
      _, _, ⟨lat, ns, rfl, inLat, rfl⟩, _, _, ⟨lon, ew, rfl, inLon, rfl⟩, knots, _, rfl, _, _,
      ⟨inKnots, rfl, rfl⟩, course, _, rfl, date, _, rfl, _, _, ⟨inDate, rfl, rfl⟩, rfl, rfl⟩
    exact ⟨⟨by simp, inTime, valid, inLat, inLon, inKnots, inDate⟩, rfl, rfl⟩
  · rintro ⟨⟨ten, inTime, valid, inLat, inLon, inKnots, inDate⟩, rfl, rfl⟩
    obtain ⟨name, time, status, lat, ns, lon, ew, knots, course, date, rest, rfl⟩ := length_ten ten
    exact ⟨name, _, rfl, time, _, rfl, _, _, ⟨inTime, rfl, rfl⟩, status, _, rfl, (), _, ⟨valid, rfl⟩,
      _, _, ⟨lat, ns, rfl, inLat, rfl⟩, _, _, ⟨lon, ew, rfl, inLon, rfl⟩, knots, _, rfl, _, _,
      ⟨inKnots, rfl, rfl⟩, course, _, rfl, date, _, rfl, _, _, ⟨inDate, rfl, rfl⟩, rfl, rfl⟩

/-- No refusal has the code of success. -/
theorem fix_error {toks : List CString} {refusal : Refusal} (refused : fix toks = .error refusal) :
    refusal.code ≠ .ok := by
  intro success
  obtain ⟨code, range⟩ := refusal
  obtain rfl : code = .ok := success
  simp [fix, position, coordinate, bind_error_iff, -bind_pure_comp] at refused

end Rmc

open Rmc

/-- The code does not depend on what `output` held. -/
theorem processRmc_code (src : CString) (output output' : FixOf CFloat) (lib : CLib) :
    (processRmc src output lib).1 = (processRmc src output' lib).1 := by
  unfold processRmc
  split <;> rfl

/-- `AT_OK` is returned with `errno` clear and acceptable tokens. -/
theorem processRmc_ok_iff (src : CString) (output : FixOf CFloat) (lib : CLib) :
    (processRmc src output lib).1 = .ok ↔ lib.errno = .zero ∧ Acceptable (tokens comma src) := by
  rw [processRmc_code src output zeroed]
  cases errno : lib.errno with
  | zero =>
    obtain ⟨after, ran, -⟩ := processRmc_clear src errno
    rw [ran]
    cases said : fix (tokens comma src) with
    | ok p => simp [outcome, (fix_ok.mp said).1]
    | error refusal =>
      have refused : ¬ Acceptable (tokens comma src) := by
        intro acceptable
        rw [fix_ok.mpr ⟨acceptable, rfl, rfl⟩] at said
        cases said
      simp [outcome, fix_error said, refused]
  | erange =>
    obtain ⟨after, ran, -⟩ := processRmc_erange src errno
    rw [ran]
    simp only [reduceCtorEq, false_and, iff_false]
    split <;> simp

/-- What is accepted is the fix in the positions of the tokens. -/
theorem processRmc_fix {src : CString} {output : FixOf CFloat} {lib : CLib}
    (accepted : (processRmc src output lib).1 = .ok) :
    (processRmc src output lib).2.1 = positionFix (tokens comma src) := by
  obtain ⟨clear, acceptable⟩ := (processRmc_ok_iff src output lib).mp accepted
  have here := rmcFix_meets src clear
  rw [fix_ok.mpr ⟨acceptable, rfl, rfl⟩] at here
  obtain ⟨after, ran, -⟩ := here
  rw [processRmc, ran]

/-- **A refused sentence leaves the output as it was.** -/
theorem processRmc_refused {src : CString} {output : FixOf CFloat} {lib : CLib}
    (refused : (processRmc src output lib).1 ≠ .ok) : (processRmc src output lib).2.1 = output := by
  unfold processRmc at refused ⊢
  split
  · rename_i ran
    rw [ran] at refused
    exact (refused rfl).elim
  · rfl

/-! ## Fields against tokens -/

/-- A delimiter in front adds no token. -/
theorem tokens_delim {delim : CString} {d : Byte} (isDelim : delim.contains d = true) (s : CString) :
    tokens delim (d :: s) = tokens delim s := by
  rw [← tokens_dropWhile, List.dropWhile_cons_of_pos isDelim, tokens_dropWhile]

/-- **The tokens of a sentence are its non-empty fields.** -/
theorem tokens_sentence (s : Sentence) : tokens comma s.text = s.fields.filter (· ≠ []) := by
  obtain ⟨fields, plain⟩ := s
  have separator : comma.contains (44 : Byte) = true := by decide
  show tokens comma (comma.intercalate fields) = fields.filter (· ≠ [])
  induction fields with
  | nil => rfl
  | cons field rest ih =>
    obtain ⟨here, others⟩ := List.forall_mem_cons.mp plain
    cases rest with
    | nil =>
      rw [List.intercalate_singleton]
      by_cases empty : field = []
      · rw [empty]
        rfl
      · rw [tokens_word empty here]
        simp [empty]
    | cons next more =>
      rw [List.intercalate_cons_cons, List.append_assoc]
      show tokens comma (field ++ 44 :: comma.intercalate (next :: more)) = _
      by_cases empty : field = []
      · rw [empty, List.nil_append, tokens_delim separator, ih others]
        simp
      · rw [tokens_word_delim empty here separator, ih others]
        exact (List.filter_cons_of_pos (by simpa using empty)).symm

/-- What an accepted sentence has to give: every token that is read comes from
the field at its own position, the validity is not `V`, and the fix is the one in
the positions of the fields. -/
structure FromOwnFields (s : Sentence) (fix : FixOf CFloat) : Prop where
  position : ∀ k < 10, (tokens comma s.text)[k]? = s.fields[k]?
  valid : s.fields.getD 2 [] ≠ ascii "V"
  fix : fix = positionFix s.fields

/-- Up to the first empty field tokens are fields. -/
theorem getElem?_filter_eq {fields : List CString} {n : Nat} (enough : n ≤ (fields.filter (· ≠ [])).length) :
    (∀ k < n, (fields.filter (· ≠ []))[k]? = fields[k]?) ↔ ∀ k < n, fields.getD k [] ≠ [] := by
  induction fields generalizing n with
  | nil =>
    obtain rfl : n = 0 := by simpa using enough
    simp
  | cons field rest ih =>
    cases n with
    | zero => simp
    | succ n =>
      by_cases empty : field = []
      · -- the first token is not empty, so it is from a later field
        rw [List.filter_cons_of_neg (by simpa using empty)] at enough ⊢
        constructor
        · intro same
          have first := same 0 (Nat.succ_pos n)
          rw [List.getElem?_cons_zero, List.getElem?_eq_some_iff] at first
          obtain ⟨less, taken⟩ := first
          have member := List.getElem_mem less
          rw [taken, List.mem_filter] at member
          simp [empty] at member
        · intro all
          exact (all 0 (Nat.succ_pos n) empty).elim
      · rw [List.filter_cons_of_pos (by simpa using empty)] at enough ⊢
        rw [List.length_cons, Nat.add_le_add_iff_right] at enough
        constructor
        · intro same k less
          cases k with
          | zero => exact empty
          | succ k =>
            refine (ih enough).mp (fun k less => ?_) k (Nat.lt_of_succ_lt_succ less)
            exact same (k + 1) (Nat.succ_lt_succ less)
        · intro all k less
          cases k with
          | zero => rfl
          | succ k =>
            refine (ih enough).mpr (fun k less => ?_) k (Nat.lt_of_succ_lt_succ less)
            exact all (k + 1) (Nat.succ_lt_succ less)

/-- The fix is in the first ten positions. -/
theorem positionFix_congr {a b : List CString} (same : ∀ k < 10, a[k]? = b[k]?) :
    positionFix a = positionFix b := by
  have equal : ∀ k < 10, a.getD k [] = b.getD k [] := by
    intro k less
    rw [List.getD_eq_getElem?_getD, List.getD_eq_getElem?_getD, same k less]
  unfold positionFix
  rw [equal 1 (by decide), equal 3 (by decide), equal 4 (by decide), equal 5 (by decide),
    equal 6 (by decide), equal 7 (by decide), equal 9 (by decide)]

/-- **An accepted sentence gives what its fields say exactly when its first ten
fields are not empty.** -/
theorem fromOwnFields_iff (s : Sentence) (output : FixOf CFloat) (lib : CLib) :
    ((processRmc s.text output lib).1 = .ok → FromOwnFields s (processRmc s.text output lib).2.1) ↔
      (∀ k < 10, s.fields.getD k [] ≠ []) ∨
        ¬ (lib.errno = .zero ∧ Acceptable (s.fields.filter (· ≠ []))) := by
  rw [processRmc_ok_iff, tokens_sentence, or_iff_not_imp_right, not_not]
  apply imp_congr_right
  rintro ⟨clear, acceptable⟩
  have accepted := (processRmc_ok_iff s.text output lib).mpr ⟨clear, by rwa [tokens_sentence]⟩
  have placed := getElem?_filter_eq acceptable.1
  constructor
  · rintro ⟨position, -, -⟩
    rw [tokens_sentence] at position
    exact placed.mp position
  · intro full
    have position := placed.mpr full
    refine ⟨?_, ?_, ?_⟩
    · rwa [tokens_sentence]
    · have valid := acceptable.2.2.1
      rwa [List.getD_eq_getElem?_getD, position 2 (by decide), ← List.getD_eq_getElem?_getD] at valid
    · rw [processRmc_fix accepted, tokens_sentence]
      exact positionFix_congr position

/-- A sentence of a car that stands still: the course is empty. -/
def standstill : Sentence where
  fields := [ascii "$GNRMC", ascii "185612.00", ascii "A", ascii "4855.91", ascii "N", ascii "00203.29",
    ascii "E", ascii "0.0", [], ascii "010220", [], [], ascii "A"]
  plain := by decide

/-- Its date is read from the last field. -/
theorem not_fromOwnFields : ¬ ∀ (s : Sentence) (output : FixOf CFloat) (lib : CLib),
    (processRmc s.text output lib).1 = .ok → FromOwnFields s (processRmc s.text output lib).2.1 := by
  intro always
  have accepted : (processRmc standstill.text zeroed .start).1 = .ok := by decide +kernel
  have date := (always standstill zeroed .start accepted).position 9 (by decide)
  revert date
  decide +kernel

end Zouipocar
