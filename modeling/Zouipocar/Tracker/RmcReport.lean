import Zouipocar.Tracker.GpsTime
import Zouipocar.Tracker.RmcFields
import Mathlib.Algebra.Order.Field.Basic
import Mathlib.Algebra.Order.Ring.Rat
import Mathlib.Tactic.FieldSimp
import Mathlib.Tactic.Linarith

/-!
# Reports and their sentences

A position and an instant, written as an RMC sentence with no empty field among
the first ten, come back from `process_rmc` as they are: the coordinates as
exact numbers, the instant as its Unix time.
-/

namespace Zouipocar
set_option autoImplicit false
open Lib Rmc

/-! ## Decimal numbers -/

/-- What may follow a whole number: nothing, or a point and digits. -/
abbrev Fraction := Option { s : CString // Digits s }

namespace Fraction

def digits : Fraction → CString
  | none => []
  | some s => s.val

def text : Fraction → CString
  | none => []
  | some s => 46 :: s.val

def value (f : Fraction) : ℚ := digitsValue f.digits / 10 ^ f.digits.length

theorem digits_digits (f : Fraction) : Digits f.digits := by
  cases f with
  | none =>
    intro c inside
    cases inside
  | some s => exact s.property

/-- It does not go on with a digit. -/
theorem text_head (f : Fraction) : ∀ c, f.text.head? = some c → isDigit c = false := by
  intro c first
  cases f with
  | none => cases first
  | some s =>
    obtain rfl := Option.some.inj first
    decide

theorem value_nonneg (f : Fraction) : 0 ≤ f.value := by
  unfold value
  positivity

theorem value_lt_one (f : Fraction) : f.value < 1 := by
  have small : digitsValue f.digits < 10 ^ f.digits.length := digitsValue_lt f.digits_digits
  rw [value, div_lt_one (by positivity)]
  exact_mod_cast small

/-- A fraction that is not zero is at least one of its last digit. -/
theorem le_value {f : Fraction} {n : Nat} (short : f.digits.length ≤ n) (nonzero : f.value ≠ 0) :
    1 / 10 ^ n ≤ f.value := by
  have something : digitsValue f.digits ≠ 0 := by
    intro zero
    exact nonzero (by rw [value, zero, Nat.cast_zero, zero_div])
  have one : (1 : ℚ) ≤ digitsValue f.digits := by
    exact_mod_cast Nat.one_le_iff_ne_zero.mpr something
  have power : (10 : ℚ) ^ f.digits.length ≤ 10 ^ n := pow_le_pow_right₀ (by norm_num) short
  rw [value, div_le_div_iff₀ (by positivity) (by positivity)]
  exact mul_le_mul one power (by positivity) (by linarith)

end Fraction

theorem takeMantissa_digits {whole : CString} (digits : Digits whole) (f : Fraction) :
    takeMantissa (whole ++ f.text) = (whole, f.digits, []) := by
  obtain ⟨taken, dropped⟩ := takeWhile_digits digits f.text_head
  unfold takeMantissa
  simp only [taken, dropped]
  cases f with
  | none => rfl
  | some s =>
    obtain ⟨all, none⟩ := takeWhile_digits (t := []) s.property (by simp)
    rw [List.append_nil] at all none
    show (whole, s.val.takeWhile isDigit, s.val.dropWhile isDigit) = (whole, s.val, [])
    rw [all, none]

theorem lowerCase_digit : ∀ c : Byte, isDigit c = true → lowerCase c ≠ 110 ∧ lowerCase c ≠ 105 := by
  decide +kernel

theorem scaled_neg (m len : Nat) : scaled m (0 - len) = m / 10 ^ len := by
  unfold scaled
  split
  · have zero : len = 0 := by omega
    simp [zero]
  · have exponent : (-(0 - (len : Int))).toNat = len := by omega
    rw [exponent, Rat.mkRat_eq_div]
    push_cast
    rfl

/-- **A number of digits with a fraction denotes their sum.** -/
theorem doubleValue_digits {whole : CString} (digits : Digits whole) (nonempty : whole ≠ [])
    (f : Fraction) : doubleValue (whole ++ f.text) = .finite (digitsValue whole + f.value) := by
  have named : ∀ word : CString, word.head? = some 110 ∨ word.head? = some 105 →
      ((whole ++ f.text).take 3).map lowerCase ≠ word := by
    obtain ⟨c, more, rfl⟩ := List.exists_cons_of_ne_nil nonempty
    have digit := digits c (List.mem_cons_self ..)
    rintro word letter rfl
    have first : lowerCase c = 110 ∨ lowerCase c = 105 := by simpa using letter
    obtain ⟨n, i⟩ := lowerCase_digit c digit
    exact first.elim n i
  have something : whole ++ f.digits ≠ [] := by simp [nonempty]
  unfold doubleValue
  rw [takeSign_digits digits nonempty]
  simp only [takeMantissa_digits digits]
  rw [if_neg (named _ (.inl rfl)), if_neg (named _ (.inr rfl)), if_neg something, exponentValue,
    scaled_neg, digitsValue_append, Fraction.value]
  congr 1
  push_cast
  field_simp

/-- `degrees` takes degrees and minutes apart. -/
theorem degrees_eq {d : Nat} {minutes : ℚ} (small : d ≤ 327) (nonneg : 0 ≤ minutes) (lt : minutes < 100) :
    degrees (.finite (100 * d + minutes)) = .finite (d + minutes / 60) := by
  have positive : (0 : ℚ) ≤ d := Nat.cast_nonneg d
  have whole : ⌊(100 * d + minutes) / 100⌋ = (d : Int) := by
    rw [Int.floor_eq_iff]
    constructor
    · push_cast
      linarith
    · push_cast
      linarith
  have quotient : (CFloat.finite (100 * d + minutes)).div 100 = .finite ((100 * d + minutes) / 100) := rfl
  have short : (BitVec.ofInt 16 (d : Int)).toInt = d := by
    rw [BitVec.toInt_ofInt, Int.bmod_eq_of_le (by omega) (by omega)]
  have hundred : ((100 : BitVec 16)).toInt = 100 := rfl
  have product : (BitVec.ofInt 16 (d : Int) * 100).toInt = d * 100 := by
    rw [BitVec.toInt_mul, short, hundred, Int.bmod_eq_of_le (by omega) (by omega)]
  unfold degrees
  rw [quotient, CFloat.truncate_of_nonneg (by linarith), whole]
  simp only [short, product, CFloat.ofInt, CFloat.sub, CFloat.neg, CFloat.add, CFloat.div]
  congr 1
  push_cast
  ring

/-! ## Reports -/

/-- A latitude or longitude without its direction: degrees and minutes. -/
structure Angle (limit : Nat) where
  degrees : Nat
  minutes : Nat
  fraction : Fraction
  degrees_le : degrees ≤ limit
  minutes_lt : minutes < 60

namespace Angle

variable {limit : Nat} (a : Angle limit)

/-- `ddmm.mmmm`, with a number of digits for the degrees. -/
def text (width : Nat) : CString := decimal width a.degrees ++ decimal 2 a.minutes ++ a.fraction.text

/-- The minutes with their fraction. -/
def allMinutes : ℚ := a.minutes + a.fraction.value

/-- The angle in degrees. -/
def value : ℚ := a.degrees + a.allMinutes / 60

end Angle

/-- The contents of an RMC sentence. -/
structure Report where
  name : CString
  instant : GpsInstant
  subseconds : Fraction
  status : CString
  latitude : Angle 90
  south : Bool
  longitude : Angle 180
  west : Bool
  speed : CString
  course : CString
  others : List CString
  nonempty : ∀ field ∈ [name, status, speed, course], field ≠ []
  plain : ∀ field ∈ [name, status, speed, course] ++ others, ∀ c ∈ field, comma.contains c = false
  valid : status ≠ ascii "V"
  speed_fits : ¬ DoubleRange speed

namespace Report

variable (r : Report)

/-- The fields the parser reads. -/
def ten : List CString :=
  [r.name, decimal 6 r.instant.time ++ r.subseconds.text, r.status, r.latitude.text 2,
    ascii (if r.south then "S" else "N"), r.longitude.text 3, ascii (if r.west then "W" else "E"),
    r.speed, r.course, decimal 6 r.instant.date]

/-- A number has no comma in it. -/
theorem plain_decimal {s : CString} (digits : Digits s) (f : Fraction) :
    ∀ c ∈ s ++ f.text, comma.contains c = false := by
  have digit : ∀ c : Byte, isDigit c = true → comma.contains c = false := by decide +kernel
  intro c inside
  rcases List.mem_append.mp inside with whole | after
  · exact digit c (digits c whole)
  · cases f with
    | none => cases after
    | some s =>
      rcases List.mem_cons.mp after with rfl | fraction
      · decide
      · exact digit c (s.property c fraction)

theorem plain_angle {limit : Nat} (a : Angle limit) (width : Nat) :
    ∀ c ∈ a.text width, comma.contains c = false :=
  plain_decimal ((decimal_digits width a.degrees).append (decimal_digits 2 a.minutes)) a.fraction

/-- The sentence of the report. -/
def sentence : Sentence where
  fields := r.ten ++ r.others
  plain := by
    intro field inside
    rcases List.mem_append.mp inside with mine | other
    · simp only [ten, List.mem_cons, List.not_mem_nil, or_false] at mine
      rcases mine with rfl | rfl | rfl | rfl | rfl | rfl | rfl | rfl | rfl | rfl
      · apply r.plain
        simp
      · exact plain_decimal (decimal_digits 6 _) _
      · apply r.plain
        simp
      · exact plain_angle _ _
      · cases r.south <;> decide
      · exact plain_angle _ _
      · cases r.west <;> decide
      · apply r.plain
        simp
      · apply r.plain
        simp
      · simpa [Fraction.text] using plain_decimal (decimal_digits 6 r.instant.date) none
    · exact r.plain _ (by simp [other])

end Report

/-! ## What is read of an angle -/

namespace Angle

variable {limit : Nat} (a : Angle limit)

theorem allMinutes_nonneg : 0 ≤ a.allMinutes :=
  add_nonneg (Nat.cast_nonneg _) a.fraction.value_nonneg

theorem allMinutes_lt : a.allMinutes < 100 := by
  have whole : (a.minutes : ℚ) < 60 := by exact_mod_cast a.minutes_lt
  have part := a.fraction.value_lt_one
  unfold allMinutes
  linarith

theorem doubleValue_text {width : Nat} (fits : a.degrees < 10 ^ width) :
    doubleValue (a.text width) = .finite (100 * a.degrees + a.allMinutes) := by
  have minutes : a.minutes < 10 ^ 2 := a.minutes_lt.trans (by decide)
  have some : decimal width a.degrees ++ decimal 2 a.minutes ≠ [] := by simp [decimal]
  rw [text, doubleValue_digits ((decimal_digits _ _).append (decimal_digits _ _)) some,
    digitsValue_append, digitsValue_decimal fits, digitsValue_decimal minutes, decimal_length, allMinutes]
  congr 1
  push_cast
  ring

/-- A text of an angle that is not too long denotes zero or a number the type holds. -/
theorem not_doubleRange {width : Nat} (fits : a.degrees < 10 ^ width) (turn : a.degrees ≤ 180)
    (short : a.fraction.digits.length ≤ 45) : ¬ DoubleRange (a.text width) := by
  have nonneg := a.allMinutes_nonneg
  have lt := a.allMinutes_lt
  have positive : (0 : ℚ) ≤ a.degrees := Nat.cast_nonneg _
  have bound : (a.degrees : ℚ) ≤ 180 := by exact_mod_cast turn
  rw [DoubleRange, a.doubleValue_text fits, CFloat.Range, abs_of_nonneg (by linarith)]
  rintro (large | ⟨nonzero, tiny⟩)
  · norm_num at large
    linarith
  · -- the least such number is one of the last digit, which is above 2^-150
    have least : 1 / 10 ^ 45 ≤ 100 * (a.degrees : ℚ) + a.allMinutes := by
      have part := a.fraction.value_nonneg
      by_cases whole : a.degrees = 0 ∧ a.minutes = 0
      · rw [allMinutes, whole.1, whole.2, Nat.cast_zero, mul_zero, zero_add, zero_add] at nonzero ⊢
        exact Fraction.le_value short nonzero
      · have one : (1 : ℚ) ≤ 100 * a.degrees + a.minutes := by
          exact_mod_cast (by omega : 1 ≤ 100 * a.degrees + a.minutes)
        rw [allMinutes]
        have : (1 : ℚ) / 10 ^ 45 ≤ 1 := by norm_num
        linarith
    rw [Rat.mkRat_eq_div] at tiny
    norm_num at tiny least
    linarith

end Angle

namespace Report

variable (r : Report)

/-- None of the fields that are read is empty. -/
theorem ten_nonempty : ∀ field ∈ r.ten, field ≠ [] := by
  have digits : ∀ width n (rest : CString), decimal (width + 1) n ++ rest ≠ [] := by
    intro width n rest
    simp [decimal]
  intro field inside
  simp only [ten, List.mem_cons, List.not_mem_nil, or_false] at inside
  rcases inside with rfl | rfl | rfl | rfl | rfl | rfl | rfl | rfl | rfl | rfl
  · apply r.nonempty
    simp
  · exact digits _ _ _
  · apply r.nonempty
    simp
  · rw [Angle.text, List.append_assoc]
    exact digits _ _ _
  · cases r.south <;> decide
  · rw [Angle.text, List.append_assoc]
    exact digits _ _ _
  · cases r.west <;> decide
  · apply r.nonempty
    simp
  · apply r.nonempty
    simp
  · simp [decimal]

/-- So they are the first tokens. -/
theorem tokens_text : tokens comma r.sentence.text = r.ten ++ r.others.filter (· ≠ []) := by
  rw [tokens_sentence, sentence, List.filter_append]
  congr 1
  rw [List.filter_eq_self]
  intro field inside
  simpa using r.ten_nonempty field inside

theorem time_lt : r.instant.time < 10 ^ 6 := by
  have hour := r.instant.val.hour_lt
  have minute := r.instant.val.minute_lt
  have second := r.instant.val.second_lt
  rw [GpsInstant.time]
  omega

theorem date_lt : r.instant.date < 10 ^ 6 := by
  have day := day_le_thirtyOne r.instant.val.date
  have month := r.instant.val.date.month_le
  rw [GpsInstant.date]
  omega

theorem longValue_time : longValue (decimal 6 r.instant.time ++ r.subseconds.text) = r.instant.time := by
  rw [longValue_digits (decimal_digits 6 _) (by simp [decimal]) r.subseconds.text_head,
    digitsValue_decimal r.time_lt]

theorem longValue_date : longValue (decimal 6 r.instant.date) = r.instant.date := by
  have scanned := longValue_digits (t := []) (decimal_digits 6 r.instant.date) (by simp [decimal]) (by simp)
  rwa [List.append_nil, digitsValue_decimal r.date_lt] at scanned

end Report

/-! ## The length of a sentence -/

/-- Every field takes its characters and one comma, the last one none. -/
theorem length_text {s : Sentence} (some : s.fields ≠ []) :
    s.text.length + 1 = (s.fields.map fun field => field.length + 1).sum := by
  obtain ⟨fields, plain⟩ := s
  show (comma.intercalate fields).length + 1 = (fields.map fun field => field.length + 1).sum
  have single : comma.length = 1 := rfl
  induction fields with
  | nil => exact (some rfl).elim
  | cons field rest ih =>
    cases rest with
    | nil => simp [List.intercalate_singleton]
    | cons next more =>
      have tail := ih (fun f inside => plain f (List.mem_cons_of_mem _ inside)) (List.cons_ne_nil _ _)
      rw [List.intercalate_cons_cons, List.length_append, List.length_append, single, List.map_cons,
        List.sum_cons, ← tail]
      omega

theorem Fraction.length_text (f : Fraction) :
    f.digits.length = 0 ∨ f.text.length = f.digits.length + 1 := by
  cases f with
  | none => exact .inl rfl
  | some s => exact .inr rfl

theorem Angle.length_text {limit : Nat} (a : Angle limit) (width : Nat) :
    (a.text width).length = width + 2 + a.fraction.text.length := by
  simp [Angle.text, Nat.add_assoc]

/-- A report that is written as an NMEA sentence. -/
abbrev NmeaReport := { r : Report // r.sentence.text.length ≤ nmeaSentenceMaxSize }

/-- A sentence of that size has no room for a fraction that underflows. -/
theorem NmeaReport.short (r : NmeaReport) : r.val.latitude.fraction.digits.length ≤ 45 ∧
    r.val.longitude.fraction.digits.length ≤ 45 := by
  obtain ⟨r, size⟩ := r
  have fields : r.sentence.fields = r.ten ++ r.others := rfl
  have whole := length_text (s := r.sentence) (by simp [fields, Report.ten])
  have filled : ∀ field ∈ [r.name, r.status, r.speed, r.course], 1 ≤ field.length :=
    fun field inside => List.length_pos_iff.mpr (r.nonempty field inside)
  simp only [List.mem_cons, List.not_mem_nil, or_false, forall_eq_or_imp, forall_eq] at filled
  obtain ⟨name, status, speed, course⟩ := filled
  have south : (ascii (if r.south then "S" else "N")).length = 1 := by cases r.south <;> rfl
  have west : (ascii (if r.west then "W" else "E")).length = 1 := by cases r.west <;> rfl
  simp only [fields, Report.ten, List.map_append, List.map_cons, List.map_nil, List.sum_append,
    List.sum_cons, List.sum_nil, List.length_append, decimal_length, Angle.length_text, south,
    west] at whole
  rw [nmeaSentenceMaxSize] at size
  have latitude := r.latitude.fraction.length_text
  have longitude := r.longitude.fraction.length_text
  simp only
  omega

/-- **A sentence of a report is accepted.** -/
theorem NmeaReport.acceptable (r : NmeaReport) : Acceptable (tokens comma r.val.sentence.text) := by
  obtain ⟨latitude, longitude⟩ := r.short
  obtain ⟨r, size⟩ := r
  have time := r.time_lt
  have date := r.date_lt
  rw [r.tokens_text]
  refine ⟨by simp [Report.ten], ?_, r.valid, ?_, ?_, r.speed_fits, ?_⟩
  · show ¬ LongRange (decimal 6 r.instant.time ++ r.subseconds.text)
    rw [LongRange, r.longValue_time]
    omega
  · have degrees := r.latitude.degrees_le
    exact r.latitude.not_doubleRange (by omega) (by omega) latitude
  · have degrees := r.longitude.degrees_le
    exact r.longitude.not_doubleRange (by omega) (by omega) longitude
  · show ¬ LongRange (decimal 6 r.instant.date)
    rw [LongRange, r.longValue_date]
    omega

/-- The angle turned to its side is read back. -/
theorem directed_angle {limit width : Nat} (a : Angle limit) (fits : a.degrees < 10 ^ width)
    (small : a.degrees ≤ 327) {there opposite : CString} (turned : Bool)
    (direction : there = opposite ↔ turned = true) :
    directed (degrees (doubleValue (a.text width))) there opposite =
      .finite (if turned then -a.value else a.value) := by
  rw [a.doubleValue_text fits, degrees_eq small a.allMinutes_nonneg a.allMinutes_lt, directed]
  cases turned with
  | true =>
    rw [if_pos (direction.mpr rfl), if_pos rfl]
    rfl
  | false =>
    rw [if_neg (fun same => by simpa using direction.mp same), if_neg (by simp)]
    rfl

/-- **Parsing undoes writing, and a refused sentence changes nothing.** -/
theorem processRmc_report :
    (∀ (r : NmeaReport) (output : FixOf CFloat) (saved : Option CString),
      (processRmc r.val.sentence.text output ⟨.zero, saved⟩).1 = .ok ∧
      (processRmc r.val.sentence.text output ⟨.zero, saved⟩).2.1.latitude =
        .finite (if r.val.south then -r.val.latitude.value else r.val.latitude.value) ∧
      (processRmc r.val.sentence.text output ⟨.zero, saved⟩).2.1.longitude =
        .finite (if r.val.west then -r.val.longitude.value else r.val.longitude.value) ∧
      (processRmc r.val.sentence.text output ⟨.zero, saved⟩).2.1.timestamp.toNat + unixEpoch.seconds =
        r.val.instant.val.seconds) ∧
    ∀ (src : CString) (output : FixOf CFloat) (lib : CLib), (processRmc src output lib).1 ≠ .ok →
      (processRmc src output lib).2.1 = output := by
  refine ⟨fun r output saved => ?_, fun src output lib => processRmc_refused⟩
  have accepted := (processRmc_ok_iff r.val.sentence.text output ⟨.zero, saved⟩).mpr ⟨rfl, r.acceptable⟩
  rw [processRmc_fix accepted, r.val.tokens_text]
  obtain ⟨r, size⟩ := r
  have latitude := r.latitude.degrees_le
  have longitude := r.longitude.degrees_le
  have south : ∀ turned, ascii (if turned then "S" else "N") = ascii "S" ↔ turned = true := by decide
  have west : ∀ turned, ascii (if turned then "W" else "E") = ascii "W" ↔ turned = true := by decide
  refine ⟨accepted, ?_, ?_, ?_⟩
  · exact directed_angle r.latitude (by omega) (by omega) r.south (south r.south)
  · exact directed_angle r.longitude (by omega) (by omega) r.west (west r.west)
  · show (timeFromGps (BitVec.ofInt 32 (longValue (decimal 6 r.instant.time ++ r.subseconds.text)))
      (BitVec.ofInt 32 (longValue (decimal 6 r.instant.date)))).toNat + _ = _
    rw [r.longValue_time, r.longValue_date, BitVec.ofInt_natCast, BitVec.ofInt_natCast]
    exact r.instant.timestamp_toNat

/-- The report of 48°55.91' N, 2°3.29' E on 1 February 2020 at 18:56:12. -/
theorem exists_report : ∃ r : NmeaReport, r.val.sentence.text =
      ascii "$GNRMC,185612.00,A,4855.91,N,00203.29,E,12.5,90.0,010220,,,A" ∧
    (if r.val.south then -r.val.latitude.value else r.val.latitude.value) = 48 + mkRat 5591 6000 ∧
    (if r.val.west then -r.val.longitude.value else r.val.longitude.value) = 2 + mkRat 329 6000 ∧
    r.val.instant.val.seconds = 1580583372 + unixEpoch.seconds := by
  refine ⟨⟨{
      name := ascii "$GNRMC"
      instant := ⟨⟨⟨2020, 2, 1, by decide, by decide, by decide, by decide⟩, 18, 56, 12, by decide,
        by decide, by decide⟩, by decide⟩
      subseconds := some ⟨ascii "00", by decide⟩
      status := ascii "A"
      latitude := ⟨48, 55, some ⟨ascii "91", by decide⟩, by decide, by decide⟩
      south := false
      longitude := ⟨2, 3, some ⟨ascii "29", by decide⟩, by decide, by decide⟩
      west := false
      speed := ascii "12.5"
      course := ascii "90.0"
      others := [[], [], ascii "A"]
      nonempty := by decide
      plain := by decide
      valid := by decide
      speed_fits := by decide +kernel }, by decide +kernel⟩, ?_, ?_, ?_, ?_⟩ <;> decide +kernel

/-- Its sentence gives its position and instant; cut off, it changes nothing. -/
theorem processRmc_report_winter :
    ∃ output : FixOf CFloat, (processRmc (ascii "$GNRMC,185612.00,A,4855.91,N,00203.29,E,12.5,90.0,010220,,,A") zeroed
        ⟨.zero, none⟩).2.1 = output ∧
      output.latitude = .finite (48 + mkRat 5591 6000) ∧ output.longitude = .finite (2 + mkRat 329 6000) ∧
      output.timestamp = 1580583372 ∧
      (processRmc (ascii "$GNRMC,185612.00,A,4855.91") output ⟨.zero, none⟩).2.1 = output := by
  obtain ⟨r, text, south, west, seconds⟩ := exists_report
  obtain ⟨-, latitude, longitude, instant⟩ := processRmc_report.1 r zeroed none
  rw [text] at latitude longitude instant
  refine ⟨_, rfl, latitude.trans (congrArg CFloat.finite south), longitude.trans (congrArg CFloat.finite west), ?_,
    processRmc_report.2 _ _ _ ?_⟩
  · apply BitVec.eq_of_toNat_eq
    have number : (1580583372 : BitVec 32).toNat = 1580583372 := by decide
    rw [number]
    exact Nat.add_right_cancel (instant.trans seconds)
  · decide +kernel

end Zouipocar
