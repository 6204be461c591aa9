import Zouipocar.Lib.Calendar
import Zouipocar.Tracker.TimeUtils

/-!
# GPS time against the calendar

For every instant of the years 2000 to 2099, written as the decimal numbers
`ddmmyy` and `hhmmss`, `time_from_gps` is the number of seconds since the start
of 1970. It fits 32 bits, so timestamps are apart by as much as their instants
and come in the same order.
-/

namespace Zouipocar
set_option autoImplicit false
open Lib

/-- An instant of the years a GPS date can mean. -/
abbrev GpsInstant := { t : Instant // 2000 ≤ t.date.year ∧ t.date.year < 2100 }

namespace GpsInstant

/-- `ddmmyy` -/
def date (t : GpsInstant) : Nat :=
  10000 * t.val.date.day + 100 * t.val.date.month + t.val.date.year % 100

/-- `hhmmss` -/
def time (t : GpsInstant) : Nat := 10000 * t.val.hour + 100 * t.val.minute + t.val.second

/-- The timestamp the tracker gives to an instant. -/
def timestamp (t : GpsInstant) : BitVec 32 := timeFromGps (BitVec.ofNat 32 t.time) (BitVec.ofNat 32 t.date)

end GpsInstant

/-- The start of Unix time. -/
def unixEpoch : Instant :=
  ⟨⟨1970, 1, 1, by decide, by decide, by decide, by decide⟩, 0, 0, 0, by decide, by decide, by decide⟩

theorem day_le_thirtyOne (d : Date) : d.day ≤ 31 := by
  have fits := d.day_le
  unfold daysInMonth at fits
  split at fits
  · split at fits <;> omega
  · split at fits <;> omega

theorem unixEpoch_seconds : unixEpoch.seconds = 62167305600 := by
  have years : Date.daysBeforeYear 1970 = 719528 := by
    have closed := Date.daysBeforeYear_eq 1970
    generalize Date.daysBeforeYear 1970 = days at closed ⊢
    omega
  unfold Instant.seconds Date.number unixEpoch
  simp only [years, Date.daysBeforeMonth]

/-- The two calendars count the days of the years alike. -/
theorem daysToYear_eq (n : Nat) :
    daysToYear n = (Date.daysBeforeYear (2000 + n) : Int) - 730485 := by
  have closed := Date.daysBeforeYear_eq (2000 + n)
  unfold daysToYear
  omega

theorem isLeapYear_eq (year : Nat) : isLeapYear year = isLeap year := by
  unfold isLeapYear isLeap
  congr 1
  rw [eq_iff_iff]
  omega

/-- And the days of a year before a month. -/
theorem daysToMonth_eq {year month : Nat} (positive : 1 ≤ month) (twelve : month ≤ 12) :
    daysToMonth (isLeapYear year) (month - 1) = Date.daysBeforeMonth year month := by
  rw [isLeapYear_eq]
  cases leap : isLeap year <;> interval_cases month <;>
    simp [daysToMonth, Date.daysBeforeMonth, daysInMonth, leap]

/-- The fields `mk_gmtime` is called with. -/
structure Tm.Holds (tm : Tm) (t : GpsInstant) : Prop where
  year : tm.tmYear.toInt = t.val.date.year - 2000 + 100
  mon : tm.tmMon.toInt = t.val.date.month - 1
  mday : tm.tmMday.toInt = t.val.date.day
  hour : tm.tmHour.toInt = t.val.hour
  min : tm.tmMin.toInt = t.val.minute
  sec : tm.tmSec.toInt = t.val.second

/-- A field that is small is not changed by its type. -/
theorem toInt_truncate {w : Nat} {x : BitVec 32} (small : 2 * x.toNat < 2 ^ w) :
    (x.truncate w).toInt = x.toNat := by
  have fits : x.toNat < 2 ^ w := by omega
  have same : (x.truncate w).toNat = x.toNat := by
    rw [BitVec.truncate_eq_setWidth, BitVec.toNat_setWidth, Nat.mod_eq_of_lt fits]
  rw [BitVec.toInt_eq_toNat_of_lt (by rw [same]; exact small), same]

theorem mkGmtime_holds {tm : Tm} {t : GpsInstant} (holds : tm.Holds t) :
    mkGmtime tm = BitVec.ofInt 32 (t.val.seconds - 86400 * 730486) := by
  obtain ⟨⟨date, hour, minute, second, hour_lt, minute_lt, second_lt⟩, century⟩ := t
  obtain ⟨year, mon, mday, hour', min, sec⟩ := holds
  simp only at year mon mday hour' min sec century
  have positive := date.month_pos
  obtain ⟨n, rest⟩ := Nat.exists_eq_add_of_le century.1
  have years : (12 * (tm.tmYear.toInt - 100) + tm.tmMon.toInt) / 12 = n := by
    have twelve := date.month_le
    omega
  have months : ((12 * (tm.tmYear.toInt - 100) + tm.tmMon.toInt) % 12).toNat = date.month - 1 := by
    have twelve := date.month_le
    omega
  have leap : isLeapYear (2000 + (n : Int)) = isLeapYear date.year := by
    rw [rest]
    rfl
  unfold mkGmtime Instant.seconds Date.number
  simp only [years, months, mday, hour', min, sec, leap, daysToYear_eq, ← rest,
    daysToMonth_eq positive date.month_le]
  congr 1
  omega

namespace GpsInstant

variable (t : GpsInstant)

/-- The instants lie between the start of 2000 and the end of 2099. -/
theorem seconds_bounds : 86400 * 730486 ≤ t.val.seconds ∧ t.val.seconds < 86400 * 767011 := by
  obtain ⟨⟨date, hour, minute, second, hour_lt, minute_lt, second_lt⟩, century⟩ := t
  have closed := Date.daysBeforeYear_eq date.year
  have inside := date.day_le_daysInYear
  have positive := date.day_pos
  have whole := Date.daysBeforeYear_mono century.2
  have last : Date.daysBeforeYear 2100 = 767010 := by
    have closed := Date.daysBeforeYear_eq 2100
    generalize Date.daysBeforeYear 2100 = days at closed ⊢
    omega
  rw [last] at whole
  simp only [Instant.seconds, Date.number] at century whole ⊢
  omega

theorem date_toNat : (BitVec.ofNat 32 t.date).toNat = t.date := by
  have day := day_le_thirtyOne t.val.date
  have month := t.val.date.month_le
  rw [BitVec.toNat_ofNat, date, Nat.mod_eq_of_lt (by omega)]

theorem time_toNat : (BitVec.ofNat 32 t.time).toNat = t.time := by
  have hour := t.val.hour_lt
  have minute := t.val.minute_lt
  have second := t.val.second_lt
  rw [BitVec.toNat_ofNat, time, Nat.mod_eq_of_lt (by omega)]

/-- The digit groups of date and time are the fields of the instant. -/
theorem holds (date time : BitVec 32) (isDate : date.toNat = t.date) (isTime : time.toNat = t.time) :
    Tm.Holds {
      tmYear := (date % 100 + 100).truncate 16
      tmMon := (date / 100 % 100 - 1).truncate 8
      tmMday := (date / 10000 % 100).truncate 8
      tmHour := (time / 10000).truncate 8
      tmMin := (time / 100 % 100).truncate 8
      tmSec := (time % 100).truncate 8 } t := by
  have day := day_le_thirtyOne t.val.date
  have century := t.property
  have positive := t.val.date.month_pos
  have month := t.val.date.month_le
  have hour := t.val.hour_lt
  have minute := t.val.minute_lt
  have second := t.val.second_lt
  rw [GpsInstant.date] at isDate
  rw [GpsInstant.time] at isTime
  have hundred : (100 : BitVec 32).toNat = 100 := rfl
  have myriad : (10000 : BitVec 32).toNat = 10000 := rfl
  have one : (1 : BitVec 32).toNat = 1 := rfl
  have yy : (date % 100 + 100).toNat = t.val.date.year % 100 + 100 := by
    simp only [BitVec.toNat_add, BitVec.toNat_umod, isDate, hundred]
    omega
  have mm : (date / 100 % 100 - 1).toNat = t.val.date.month - 1 := by
    simp only [BitVec.toNat_sub, BitVec.toNat_umod, BitVec.toNat_udiv, isDate, hundred, one]
    omega
  have dd : (date / 10000 % 100).toNat = t.val.date.day := by
    simp only [BitVec.toNat_umod, BitVec.toNat_udiv, isDate, hundred, myriad]
    omega
  have hh : (time / 10000).toNat = t.val.hour := by
    simp only [BitVec.toNat_udiv, isTime, myriad]
    omega
  have mi : (time / 100 % 100).toNat = t.val.minute := by
    simp only [BitVec.toNat_umod, BitVec.toNat_udiv, isTime, hundred]
    omega
  have ss : (time % 100).toNat = t.val.second := by
    simp only [BitVec.toNat_umod, isTime, hundred]
    omega
  constructor
  · rw [toInt_truncate (by rw [yy]; omega), yy]
    omega
  · rw [toInt_truncate (by rw [mm]; omega), mm]
    omega
  · rw [toInt_truncate (by rw [dd]; omega), dd]
  · rw [toInt_truncate (by rw [hh]; omega), hh]
  · rw [toInt_truncate (by rw [mi]; omega), mi]
  · rw [toInt_truncate (by rw [ss]; omega), ss]

/-- **The timestamp is the number of seconds since the start of 1970.** -/
theorem timestamp_toNat : t.timestamp.toNat + unixEpoch.seconds = t.val.seconds := by
  obtain ⟨low, high⟩ := t.seconds_bounds
  have fields := t.holds _ _ t.date_toNat t.time_toNat
  have offset : unixOffset.toNat = 946684800 := rfl
  rw [timestamp, timeFromGps]
  simp only [mkGmtime_holds fields]
  rw [unixEpoch_seconds, BitVec.toNat_add, BitVec.toNat_ofInt, offset]
  omega

end GpsInstant

/-- **Timestamps are apart by the seconds between their instants, without a wrap,
and have their order.** -/
theorem timestamp_monotone (a b : GpsInstant) :
    (∀ n, Instant.tick^[n] a.val = b.val →
      a.timestamp.toNat + n = b.timestamp.toNat ∧ (b.timestamp - a.timestamp).toNat = n) ∧
    ((∃ n, Instant.tick^[n] a.val = b.val) ∨ ∃ n, Instant.tick^[n] b.val = a.val) ∧
    (a.timestamp = b.timestamp → a = b) ∧
    (a.timestamp < b.timestamp ↔ a.val.Before b.val) := by
  have first := a.timestamp_toNat
  have second := b.timestamp_toNat
  have fits := b.timestamp.isLt
  refine ⟨fun n later => ?_, ?_, fun same => ?_, ?_⟩
  · rw [Instant.ticks_eq_iff] at later
    refine ⟨by omega, ?_⟩
    rw [BitVec.toNat_sub_of_le (by rw [BitVec.le_def]; omega)]
    omega
  · rcases Nat.le_total a.val.seconds b.val.seconds with le | le
    · exact .inl ⟨_, Instant.ticks_eq_iff.mpr (Nat.add_sub_of_le le).symm⟩
    · exact .inr ⟨_, Instant.ticks_eq_iff.mpr (Nat.add_sub_of_le le).symm⟩
  · apply Subtype.ext
    rw [← Instant.seconds_inj, ← first, ← second, same]
  · rw [← Instant.seconds_lt_iff, BitVec.lt_def]
    omega

end Zouipocar
