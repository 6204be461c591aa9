import Mathlib.Logic.Function.Iterate
import Mathlib.Tactic.IntervalCases

/-!
# The Gregorian calendar

Dates and instants carry their validity. `tick` is the clock: it counts one
second on, with every carry of the calendar. `seconds` numbers the instants so
that a tick adds one and the order of the fields is the order of the numbers;
so an instant is reached from another by as many ticks as the numbers differ.
-/

namespace Lib

def isLeap (year : Nat) : Bool := year % 4 = 0 ∧ (year % 100 ≠ 0 ∨ year % 400 = 0)

def daysInMonth (year month : Nat) : Nat :=
  if month = 2 then (if isLeap year then 29 else 28)
  else if month = 4 ∨ month = 6 ∨ month = 9 ∨ month = 11 then 30
  else 31

def daysInYear (year : Nat) : Nat := if isLeap year then 366 else 365

/-- A day of the calendar. -/
structure Date where
  year : Nat
  month : Nat
  day : Nat
  month_pos : 1 ≤ month
  month_le : month ≤ 12
  day_pos : 1 ≤ day
  day_le : day ≤ daysInMonth year month
deriving DecidableEq

/-- A second of a day. -/
structure Instant where
  date : Date
  hour : Nat
  minute : Nat
  second : Nat
  hour_lt : hour < 24
  minute_lt : minute < 60
  second_lt : second < 60
deriving DecidableEq

theorem daysInMonth_pos (year month : Nat) : 1 ≤ daysInMonth year month := by
  unfold daysInMonth
  split
  · split <;> omega
  · split <;> omega

/-! ## Days -/

namespace Date

/-- The next day. -/
def next (d : Date) : Date :=
  if inside : d.day < daysInMonth d.year d.month then
    { d with day := d.day + 1, day_pos := by omega, day_le := inside }
  else if early : d.month < 12 then
    { year := d.year, month := d.month + 1, day := 1, month_pos := by omega, month_le := early
      day_pos := le_refl 1, day_le := daysInMonth_pos _ _ }
  else
    { year := d.year + 1, month := 1, day := 1, month_pos := le_refl 1, month_le := by omega
      day_pos := le_refl 1, day_le := daysInMonth_pos _ _ }

/-- The order of year, month and day. -/
def Before (a b : Date) : Prop :=
  a.year < b.year ∨ a.year = b.year ∧ (a.month < b.month ∨ a.month = b.month ∧ a.day < b.day)

def daysBeforeYear : Nat → Nat
  | 0 => 0
  | year + 1 => daysBeforeYear year + daysInYear year

/-- The days of a year before one of its months. -/
def daysBeforeMonth (year : Nat) : Nat → Nat
  | 0 => 0
  | 1 => 0
  | month + 2 => daysBeforeMonth year (month + 1) + daysInMonth year (month + 1)

/-- Days are numbered from the first of January of the year 0. -/
def number (d : Date) : Nat := daysBeforeYear d.year + daysBeforeMonth d.year d.month + d.day

theorem daysBeforeMonth_succ {year month : Nat} (positive : 1 ≤ month) :
    daysBeforeMonth year (month + 1) = daysBeforeMonth year month + daysInMonth year month := by
  obtain ⟨m, rfl⟩ := Nat.exists_eq_add_of_le' positive
  rfl

theorem daysBeforeMonth_end (year : Nat) : daysBeforeMonth year 13 = daysInYear year := by
  cases leap : isLeap year <;> simp [daysBeforeMonth, daysInMonth, daysInYear, leap]

/-- **The next day has the next number.** -/
theorem number_next (d : Date) : d.next.number = d.number + 1 := by
  have positive := d.day_pos
  have fits := d.day_le
  unfold next number
  split
  · simp only
    omega
  · split
    · simp only [daysBeforeMonth_succ d.month_pos]
      omega
    · rename_i last late
      have december : d.month = 12 := Nat.le_antisymm d.month_le (by omega)
      have whole := daysBeforeMonth_end d.year
      rw [show (13 : Nat) = 12 + 1 from rfl, daysBeforeMonth_succ (by omega)] at whole
      rw [december] at last fits ⊢
      show daysBeforeYear d.year + daysInYear d.year + 0 + 1 = _
      omega

theorem daysBeforeMonth_mono {year m m' : Nat} (positive : 1 ≤ m) (less : m < m') :
    daysBeforeMonth year m + daysInMonth year m ≤ daysBeforeMonth year m' := by
  induction m', less using Nat.le_induction with
  | base => exact Nat.le_of_eq (daysBeforeMonth_succ positive).symm
  | succ k above ih =>
    rw [daysBeforeMonth_succ (by omega)]
    omega

theorem daysBeforeYear_mono {y y' : Nat} (less : y < y') :
    daysBeforeYear y + daysInYear y ≤ daysBeforeYear y' := by
  induction y', less using Nat.le_induction with
  | base => exact le_refl _
  | succ k above ih =>
    rw [daysBeforeYear]
    omega

/-- A day lies inside its year. -/
theorem day_le_daysInYear (d : Date) : daysBeforeMonth d.year d.month + d.day ≤ daysInYear d.year := by
  have whole := @daysBeforeMonth_mono d.year _ _ d.month_pos (Nat.lt_succ_of_le d.month_le)
  rw [Nat.succ_eq_add_one, daysBeforeMonth_end] at whole
  have fits := d.day_le
  omega

theorem number_lt_of_before {a b : Date} (h : a.Before b) : a.number < b.number := by
  have positive := b.day_pos
  unfold number
  rcases h with year | ⟨year, month | ⟨month, day⟩⟩
  · have inside := a.day_le_daysInYear
    have apart := daysBeforeYear_mono year
    omega
  · have inside := a.day_le
    have apart := @daysBeforeMonth_mono a.year _ _ a.month_pos month
    rw [← year]
    omega
  · rw [← year, ← month]
    omega

theorem before_or_eq_or_before (a b : Date) : a.Before b ∨ a = b ∨ b.Before a := by
  unfold Before
  by_cases year : a.year = b.year
  · by_cases month : a.month = b.month
    · by_cases day : a.day = b.day
      · refine .inr (.inl ?_)
        cases a
        cases b
        simp_all
      · omega
    · omega
  · omega

theorem number_lt_iff {a b : Date} : a.number < b.number ↔ a.Before b := by
  constructor
  · intro less
    rcases before_or_eq_or_before a b with before | rfl | after
    · exact before
    · omega
    · have := number_lt_of_before after
      omega
  · exact number_lt_of_before

theorem number_inj {a b : Date} : a.number = b.number ↔ a = b := by
  constructor
  · intro same
    rcases before_or_eq_or_before a b with before | rfl | after
    · have := number_lt_of_before before
      omega
    · rfl
    · have := number_lt_of_before after
      omega
  · exact congrArg number

/-- The closed form of the number of days before a year. -/
theorem daysBeforeYear_eq (year : Nat) : daysBeforeYear year + (year + 99) / 100 =
    365 * year + (year + 3) / 4 + (year + 399) / 400 := by
  induction year with
  | zero => rfl
  | succ year ih =>
    rw [daysBeforeYear, daysInYear]
    by_cases leap : isLeap year = true
    · rw [if_pos leap]
      simp only [isLeap, decide_eq_true_eq] at leap
      omega
    · rw [if_neg leap]
      simp only [isLeap, decide_eq_true_eq] at leap
      by_cases fourth : year % 4 = 0
      · obtain ⟨century, ordinary⟩ : year % 100 = 0 ∧ ¬ year % 400 = 0 := by omega
        omega
      · have four : (year + 1 + 3) / 4 = (year + 3) / 4 := by omega
        have hundred : (year + 1 + 99) / 100 = (year + 99) / 100 := by omega
        have fourHundred : (year + 1 + 399) / 400 = (year + 399) / 400 := by omega
        omega

end Date

/-! ## Seconds -/

namespace Instant

/-- The next second. -/
def tick (t : Instant) : Instant :=
  if inMinute : t.second + 1 < 60 then { t with second := t.second + 1, second_lt := inMinute }
  else if inHour : t.minute + 1 < 60 then
    { t with minute := t.minute + 1, second := 0, minute_lt := inHour, second_lt := by omega }
  else if inDay : t.hour + 1 < 24 then
    { t with hour := t.hour + 1, minute := 0, second := 0, hour_lt := inDay, minute_lt := by omega
             second_lt := by omega }
  else ⟨t.date.next, 0, 0, 0, by omega, by omega, by omega⟩

/-- The order of year, month, day, hour, minute and second. -/
def Before (a b : Instant) : Prop :=
  a.date.Before b.date ∨ a.date = b.date ∧ (a.hour < b.hour ∨ a.hour = b.hour ∧
    (a.minute < b.minute ∨ a.minute = b.minute ∧ a.second < b.second))

/-- The number of an instant. -/
def seconds (t : Instant) : Nat := 86400 * t.date.number + 3600 * t.hour + 60 * t.minute + t.second

/-- **A tick adds one second.** -/
theorem seconds_tick (t : Instant) : t.tick.seconds = t.seconds + 1 := by
  have hour := t.hour_lt
  have minute := t.minute_lt
  have second := t.second_lt
  unfold tick seconds
  split
  · simp only
    omega
  · split
    · simp only
      omega
    · split
      · simp only
        omega
      · simp only [Date.number_next]
        omega

theorem seconds_ticks (n : Nat) (t : Instant) : (tick^[n] t).seconds = t.seconds + n := by
  induction n with
  | zero => rfl
  | succ n ih => rw [Function.iterate_succ_apply', seconds_tick, ih, Nat.add_assoc]

/-- The numbers have the order of the fields. -/
theorem seconds_lt_iff {a b : Instant} : a.seconds < b.seconds ↔ a.Before b := by
  obtain ⟨date, hour, minute, second, hour_lt, minute_lt, second_lt⟩ := a
  obtain ⟨date', hour', minute', second', hour_lt', minute_lt', second_lt'⟩ := b
  simp only [seconds, Before, ← Date.number_lt_iff, ← Date.number_inj]
  omega

theorem seconds_inj {a b : Instant} : a.seconds = b.seconds ↔ a = b := by
  constructor
  · intro same
    obtain ⟨date, hour, minute, second, hour_lt, minute_lt, second_lt⟩ := a
    obtain ⟨date', hour', minute', second', hour_lt', minute_lt', second_lt'⟩ := b
    simp only [seconds] at same
    obtain ⟨dates, rfl, rfl, rfl⟩ : date.number = date'.number ∧ hour = hour' ∧ minute = minute' ∧
        second = second' := by omega
    rw [Date.number_inj.mp dates]
  · exact congrArg seconds

/-- **An instant is as many ticks behind another as the numbers differ.** -/
theorem ticks_eq_iff {a b : Instant} {n : Nat} : tick^[n] a = b ↔ b.seconds = a.seconds + n := by
  rw [← seconds_inj, seconds_ticks]
  exact eq_comm

end Instant

end Lib
