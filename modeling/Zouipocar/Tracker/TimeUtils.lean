import Zouipocar.Common.Fix

/-!
# GPS time

`time_from_gps` takes a date and a time as the decimal numbers `ddmmyy` and
`hhmmss` apart, fills a `struct tm` and leaves the calendar to `mk_gmtime`.
-/

namespace Zouipocar
set_option autoImplicit false

/-- `struct tm` of the AVR library: every field but the year has 8 bits. -/
structure Tm where
  tmYear : BitVec 16
  tmMon : BitVec 8
  tmMday : BitVec 8
  tmHour : BitVec 8
  tmMin : BitVec 8
  tmSec : BitVec 8

/-- Days from 2000-01-01 to the first day of the year `2000 + n`. -/
def daysToYear (n : Int) : Int := 365 * n + (n + 3) / 4 - (n + 99) / 100 + (n + 399) / 400

def isLeapYear (year : Int) : Bool := year % 4 = 0 ∧ (year % 100 ≠ 0 ∨ year % 400 = 0)

/-- Days from the first of January to the first of a month, January being `0`. -/
def daysToMonth (leap : Bool) (mon : Nat) : Nat :=
  [0, 31, 59, 90, 120, 151, 181, 212, 243, 273, 304, 334].getD mon 0 + if leap ∧ 2 ≤ mon then 1 else 0

/-- Seconds since 2000-01-01 00:00:00. A field may lie outside its usual range
and then counts on from there. -/
def mkGmtime (t : Tm) : BitVec 32 :=
  let months := 12 * (t.tmYear.toInt - 100) + t.tmMon.toInt
  let year := months / 12
  let days := daysToYear year + daysToMonth (isLeapYear (2000 + year)) (months % 12).toNat +
    (t.tmMday.toInt - 1)
  BitVec.ofInt 32 (86400 * days + 3600 * t.tmHour.toInt + 60 * t.tmMin.toInt + t.tmSec.toInt)

/-- `UNIX_OFFSET`: 2000-01-01 in Unix time. -/
def unixOffset : BitVec 32 := 946684800

def timeFromGps (time date : BitVec 32) : BitVec 32 :=
  let timeinfo : Tm := {
    tmYear := (date % 100 + 100).truncate 16
    tmMon := (date / 100 % 100 - 1).truncate 8
    tmMday := (date / 10000 % 100).truncate 8
    tmHour := (time / 10000).truncate 8
    tmMin := (time / 100 % 100).truncate 8
    tmSec := (time % 100).truncate 8 }
  mkGmtime timeinfo + unixOffset

/-- 18:56:12 on 1 February 2020. -/
example : timeFromGps 185612 010220 = 1580583372 := by decide

end Zouipocar
