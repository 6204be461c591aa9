import Zouipocar.Common.CString
import Zouipocar.Web.ParseFix

/-!
# The timeline page

The page asks for the fixes of a day and adds up the distance between them and
the time of travel. A gap of ten minutes and more is a stop and counts for one
second. Timestamps have 32 bits, so their sums are exact as long as they stay
below `2 ^ 53`; distances are doubles and stay abstract.
-/

namespace Zouipocar
set_option autoImplicit false

/-- What `update` leaves to the arithmetic of doubles. -/
structure Maths where
  add : Number → Number → Number
  /-- `distanceInKmBetweenEarthCoordinates` -/
  distanceInKm : Number → Number → Number → Number → Number
  /-- `distance / time * 3600` -/
  perHour : Number → Int → Number

/-- What the loop of `update` adds up. -/
structure Trip where
  distance : Number
  time : Int
  polypoints : List (Number × Number)

/-- What `update` puts on the page. -/
structure Panel where
  distance : Number
  duration : CString
  speed : Number
  line : List (Number × Number)

namespace Web

/-- The last second asked for by the `changeDate` handler. -/
def stopOf (start : Int) : Int := start + 86399

/-- `HH:MM:SS` -/
def clock (hour minute second : Nat) : CString :=
  decimal 2 hour ++ ascii ":" ++ decimal 2 minute ++ ascii ":" ++ decimal 2 second

/-- `toISOString` behind the `T`; it throws outside of the range of a `Date`. -/
def isoTime (ms : Int) : Option CString :=
  if ms.natAbs ≤ 8640000000000000 then
    let s := ms / 1000
    some (clock (s / 3600 % 24).toNat (s / 60 % 60).toNat (s % 60).toNat ++
      (46 :: decimal 3 (ms % 1000).toNat ++ ascii "Z"))
  else none

/-- `new Date(time * 1000).toISOString().split("T")[1].split(".")[0]` -/
def duration (time : Int) : Option CString :=
  (isoTime (time * 1000)).map fun text => text.takeWhile (· ≠ 46)

section

variable (maths : Maths)

/-- The body of the loop, after the fix in `previous`. -/
def visit (previous : Option (FixOf Number)) (fix : FixOf Number) (trip : Trip) : Trip :=
  let trip := match previous with
    | none => trip
    | some before =>
      let timeDiff : Int := fix.timestamp.toNat - before.timestamp.toNat
      { trip with
        distance := maths.add trip.distance
          (maths.distanceInKm before.latitude before.longitude fix.latitude fix.longitude)
        time := if timeDiff < 600 then trip.time + timeDiff else trip.time + 1 }
  { trip with polypoints := trip.polypoints ++ [(fix.latitude, fix.longitude)] }

/-- `for (k in fixes)` -/
def travel (previous : Option (FixOf Number)) : List (FixOf Number) → Trip → Trip
  | [], trip => trip
  | fix :: rest, trip => travel (some fix) rest (visit maths previous fix trip)

def trip (fixes : List (FixOf Number)) : Trip := travel maths none fixes ⟨0, 0, []⟩

/-- `update` once it has collected the fixes. -/
def showTrip (fixes : List (FixOf Number)) : Except Unit (Option Panel) :=
  if fixes.length = 0 then .ok none
  else
    let { distance, time, polypoints } := trip maths fixes
    let speed := maths.perHour distance time
    match duration time with
    | none => .error ()
    | some duration => .ok (some { distance, duration, speed, line := polypoints })

end

/-! ## The clock -/

theorem ne_dot_of_digit {c : Byte} (digit : isDigit c = true) : c ≠ 46 := by
  rintro rfl
  revert digit
  decide

/-- There is no dot in front of the milliseconds. -/
theorem clock_undotted (hour minute second : Nat) : ∀ c ∈ clock hour minute second, c ≠ 46 := by
  intro c inside
  simp only [clock, List.mem_append] at inside
  have colon : c ∈ ascii ":" → c ≠ 46 := by
    intro inside
    rw [show ascii ":" = [58] from rfl, List.mem_singleton] at inside
    rw [inside]
    decide
  rcases inside with (((digit | here) | digit) | here) | digit
  · exact ne_dot_of_digit (decimal_digits _ _ c digit)
  · exact colon here
  · exact ne_dot_of_digit (decimal_digits _ _ c digit)
  · exact colon here
  · exact ne_dot_of_digit (decimal_digits _ _ c digit)

theorem duration_eq {time : Int} (valid : (time * 1000).natAbs ≤ 8640000000000000) :
    duration time =
      some (clock (time / 3600 % 24).toNat (time / 60 % 60).toNat (time % 60).toNat) := by
  have seconds : time * 1000 / 1000 = time := Int.mul_ediv_cancel time (by decide)
  rw [duration, isoTime, if_pos valid, seconds, Option.map_some]
  rw [List.takeWhile_append_of_pos fun c inside => decide_eq_true (clock_undotted _ _ _ c inside)]
  simp

/-- Below a day the text denotes the time. -/
theorem duration_day (time : Int) (positive : 0 ≤ time) (day : time < 86400) :
    ∃ hour minute second : Nat, hour < 24 ∧ minute < 60 ∧ second < 60 ∧
      time = 3600 * hour + 60 * minute + second ∧
      duration time = some (clock hour minute second) := by
  refine ⟨_, _, _, ?_, ?_, ?_, ?_, duration_eq (by omega)⟩ <;> omega

/-! ## The loop -/

section

variable {maths : Maths} {before : FixOf Number} {rest : List (FixOf Number)} {trip : Trip}

/-- Timestamps in strictly ascending order. -/
def Ascending (fixes : List (FixOf Number)) : Prop :=
  fixes.Pairwise fun a b => a.timestamp < b.timestamp

instance (fixes : List (FixOf Number)) : Decidable (Ascending fixes) :=
  inferInstanceAs (Decidable (fixes.Pairwise _))

variable (maths trip) in
/-- A gap counts for one second at least and for no more than it is. -/
theorem visit_time {fix : FixOf Number} (later : before.timestamp < fix.timestamp) :
    trip.time + 1 ≤ (visit maths (some before) fix trip).time ∧
      (visit maths (some before) fix trip).time ≤
        trip.time + (fix.timestamp.toNat - before.timestamp.toNat) := by
  rw [BitVec.lt_def] at later
  unfold visit
  simp only
  split <;> omega

variable (maths trip) in
/-- **The loop adds at least one second for each gap and at most all of them.** -/
theorem travel_time (ascending : Ascending (before :: rest)) :
    trip.time + rest.length ≤ (travel maths (some before) rest trip).time ∧
      (travel maths (some before) rest trip).time ≤
        trip.time + ((rest.getLastD before).timestamp.toNat - before.timestamp.toNat) := by
  induction rest generalizing before trip with
  | nil => simp [travel]
  | cons fix rest ih =>
    obtain ⟨first, later⟩ := List.pairwise_cons.mp ascending
    obtain ⟨atLeast, atMost⟩ := visit_time maths trip (first fix (List.mem_cons_self ..))
    obtain ⟨least, most⟩ := ih (visit maths (some before) fix trip) later
    rw [travel, List.getLastD_cons, List.length_cons]
    constructor
    · push_cast
      omega
    · omega

end

/-! ## One day -/

/-- The fixes of the answer to the request of the `changeDate` handler. -/
def InDay (start : Int) (fixes : List (FixOf Number)) : Prop :=
  ∀ fix ∈ fixes, start ≤ fix.timestamp.toNat ∧ (fix.timestamp.toNat : Int) ≤ stopOf start

instance (start : Int) (fixes : List (FixOf Number)) : Decidable (InDay start fixes) :=
  inferInstanceAs (Decidable (∀ _ ∈ fixes, _))

/-- The time of a trip is one of its day and can be shown and divided by. -/
structure DayTrip (maths : Maths) (first : FixOf Number) (rest : List (FixOf Number)) : Prop where
  gaps : ((first :: rest).length : Int) - 1 ≤ (trip maths (first :: rest)).time
  span : (trip maths (first :: rest)).time ≤
    ((rest.getLastD first).timestamp.toNat : Int) - first.timestamp.toNat
  day : ((rest.getLastD first).timestamp.toNat : Int) - first.timestamp.toNat ≤ 86399
  /-- The text is that of the time itself and not of a remainder. -/
  clock : ∃ panel, showTrip maths (first :: rest) = .ok (some panel) ∧
    ∃ hour minute second : Nat, hour < 24 ∧ minute < 60 ∧ second < 60 ∧
      (trip maths (first :: rest)).time = 3600 * hour + 60 * minute + second ∧
      panel.duration = clock hour minute second
  divisor : (trip maths (first :: rest)).time ≠ 0

variable {maths : Maths} {start : Int} {first : FixOf Number} {rest : List (FixOf Number)}

/-- All but the divisor. -/
theorem trip_time (maths : Maths) (ascending : Ascending (first :: rest)) :
    (rest.length : Int) ≤ (trip maths (first :: rest)).time ∧
      (trip maths (first :: rest)).time ≤
        ((rest.getLastD first).timestamp.toNat : Int) - first.timestamp.toNat := by
  obtain ⟨least, most⟩ := travel_time maths (visit maths none first ⟨0, 0, []⟩) ascending
  rw [trip, travel]
  have zero : (visit maths none first ⟨0, 0, []⟩).time = 0 := rfl
  constructor <;> omega

theorem span_day (inside : InDay start (first :: rest)) :
    ((rest.getLastD first).timestamp.toNat : Int) - first.timestamp.toNat ≤ 86399 := by
  have early := (inside first (List.mem_cons_self ..)).1
  have late := (inside (rest.getLastD first) (List.getLastD_mem_cons ..)).2
  rw [stopOf] at late
  omega

theorem showTrip_eq {text : CString} (shown : duration (trip maths (first :: rest)).time = some text) :
    ∃ panel, showTrip maths (first :: rest) = .ok (some panel) ∧ panel.duration = text := by
  rw [showTrip, if_neg (by simp)]
  simp only [shown]
  exact ⟨_, rfl, rfl⟩

/-- **The travel time of a day is shown unwrapped, and divides the distance
exactly when there is more than one fix.** -/
theorem dayTrip_iff (maths : Maths) (start : Int) (first : FixOf Number) (rest : List (FixOf Number))
    (ascending : Ascending (first :: rest)) (inside : InDay start (first :: rest)) :
    DayTrip maths first rest ↔ 2 ≤ (first :: rest).length := by
  obtain ⟨least, most⟩ := trip_time maths ascending
  have day := span_day inside
  rw [List.length_cons]
  constructor
  · intro sound
    have divisor := sound.divisor
    cases rest with
    | nil => exact (divisor rfl).elim
    | cons => simp
  · intro several
    obtain ⟨hour, minute, second, hours, minutes, seconds, denotes, text⟩ :=
      duration_day (trip maths (first :: rest)).time (by omega) (by omega)
    obtain ⟨panel, shown, same⟩ := showTrip_eq text
    constructor
    · rw [List.length_cons]
      push_cast
      omega
    · exact most
    · exact day
    · exact ⟨panel, shown, hour, minute, second, hours, minutes, seconds, denotes, same⟩
    · omega

/-- A car that stood still for a minute. -/
theorem dayTrip_still : DayTrip ⟨fun a _ => a, fun _ _ _ _ => 0, fun _ _ => 0⟩
    ⟨1700000000, 0, 0, 6⟩ [⟨1700000060, 0, 0, 6⟩] :=
  (dayTrip_iff _ 1699999200 _ _ (by decide) (by decide)).mpr (by decide)

/-- A day with one fix passes the test for an empty one and gets `0 / 0` for a speed. -/
theorem not_dayTrip : ¬ ∀ maths start first rest, Ascending (first :: rest) →
    InDay start (first :: rest) → DayTrip maths first rest := by
  intro always
  have one := always ⟨fun a _ => a, fun _ _ _ _ => 0, fun _ _ => 0x7FF8000000000000⟩ 1699999200
    ⟨1700000000, 0, 0, 6⟩ [] (by decide) (by decide)
  exact one.divisor rfl

end Web

end Zouipocar
