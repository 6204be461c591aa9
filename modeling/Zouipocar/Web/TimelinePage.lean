import Zouipocar.Lib.Action
import Zouipocar.Lib.Transition
import Zouipocar.Web.Polling
import Zouipocar.Web.Timeline

/-!
# Answers on the timeline page

Each date that is chosen sends a request, and `update` runs for each answer when
it arrives, in any order. It writes one element of the page after the other and
an exception may end it between two of them, so the elements need not belong to
one trip: each shows the last answer that got as far. The map has one line at
most, and none behind an answer whose points it does not take.
-/

namespace Zouipocar
set_option autoImplicit false
open Lib

/-- A line of the map library. -/
structure Polyline where
  id : Nat
  points : List (Number × Number)
deriving DecidableEq

structure TimelinePage where
  distance : Option Number
  duration : Option CString
  speed : Option Number
  /-- The variable `line`. -/
  line : Option Polyline
  /-- The lines on the map. -/
  drawn : List Polyline
  /-- The lines made so far. -/
  made : Nat
  /-- The first seconds of the days asked for, without an answer yet. -/
  asked : List Int

/-- An exception ends a script where it is. -/
abbrev TimelineScript : Type → Type := Action TimelinePage Unit

inductive TimelineEvent
  | changeDate (start : Int)
  | ended (start : Int) (ended : Completion)

namespace TimelinePage

def load : TimelinePage := ⟨none, none, none, none, [], 0, []⟩

/-- `line.remove(map);` -/
def remove (line : Polyline) : TimelineScript Unit :=
  modify fun p => { p with drawn := p.drawn.filter fun l => l.id ≠ line.id }

/-- `L.polyline(polypoints)` throws on points it does not take. -/
def polyline (drawable : Bool) (points : List (Number × Number)) : TimelineScript Polyline := do
  if drawable = false then throw ()
  let line := ⟨(← get).made, points⟩
  modify fun p => { p with made := p.made + 1 }
  return line

/-- What stands on the page, when all of it does. -/
def panel (p : TimelinePage) : Option Panel := do
  let distance ← p.distance
  let duration ← p.duration
  let speed ← p.speed
  let line ← p.drawn.head?
  return { distance, duration, speed, line := line.points }

section Update

variable (maths : Maths)

/-- `update` -/
def update (ended : Completion) : TimelineScript Unit := do
  match Web.update ended.body with
  | none => throw ()
  | some fixes =>
    if fixes.length = 0 then return
    let trip := Web.trip maths fixes
    modify fun p => { p with distance := some trip.distance }
    match Web.duration trip.time with
    | none => throw ()
    | some text =>
      modify fun p => { p with duration := some text }
      modify fun p => { p with speed := some (maths.perHour trip.distance trip.time) }
      match (← get).line with
      | none => pure ()
      | some line => remove line
      let line ← polyline ended.drawable trip.polypoints
      modify fun p => { p with line := some line }
      modify fun p => { p with drawn := p.drawn ++ [line] }

/-- What a script leaves behind. -/
def leaves (script : TimelineScript Unit) (p : TimelinePage) : TimelinePage := (Action.result script p).2

def step (p : TimelinePage) : TimelineEvent → Option TimelinePage
  | .changeDate start => some { p with asked := p.asked ++ [start] }
  | .ended start ended =>
    if start ∈ p.asked then
      let p := { p with asked := p.asked.erase start }
      some (if ended.success then leaves (update maths ended) p else p)
    else none

def Step (p : TimelinePage) (e : TimelineEvent) (q : TimelinePage) : Prop := p.step maths e = some q

end Update

end TimelinePage

/-! ## How far an answer gets -/

namespace Completion

variable (maths : Maths)

/-- The trip of an answer with fixes. -/
def trip (ended : Completion) : Option Trip :=
  if ended.success then
    match Web.update ended.body with
    | some (fix :: rest) => some (Web.trip maths (fix :: rest))
    | _ => none
  else none

def distance (ended : Completion) : Option Number := (ended.trip maths).map (·.distance)

/-- The text of the duration, where there is one, and the speed. -/
def pace (ended : Completion) : Option (CString × Number) :=
  (ended.trip maths).bind fun trip =>
    (Web.duration trip.time).map fun text => (text, maths.perHour trip.distance trip.time)

/-- The points of the line, where it comes to drawing one. -/
def points (ended : Completion) : Option (List (List (Number × Number))) :=
  (ended.trip maths).bind fun trip =>
    (Web.duration trip.time).map fun _ => if ended.drawable then [trip.polypoints] else []

/-- What `showTrip` makes of an answer. -/
def panel (ended : Completion) : Option Panel :=
  if ended.success then
    match Web.update ended.body with
    | none => none
    | some fixes =>
      match Web.showTrip maths fixes with
      | .ok panel => panel
      | .error _ => none
  else none

/-- If it comes to showing a trip, nothing throws. -/
def Whole (ended : Completion) : Prop :=
  ∀ trip, ended.trip maths = some trip → ended.drawable = true ∧ Web.duration trip.time ≠ none

variable {maths : Maths} {ended : Completion}

/-- The answer of the server gives the trip of its fixes. -/
theorem trip_images (fix : Fix) (rest : List Fix) (drawable : Bool) :
    trip maths ⟨200, apiRangeContent (fix :: rest), drawable⟩ =
      some (Web.trip maths ((fix :: rest).map Fix.parsed)) := by
  rw [trip, if_pos ⟨by simp, by simp⟩, Web.update_images]
  rfl

theorem points_single (fix : Fix) : points maths ⟨200, apiRangeContent [fix], true⟩ =
    some [[(fix.parsed.latitude, fix.parsed.longitude)]] := by
  have time : Web.duration 0 = some (Web.clock 0 0 0) := Web.duration_eq (by decide)
  have still : (Web.trip maths [fix.parsed]).time = 0 := rfl
  rw [points, trip_images, Option.bind_some, List.map_cons, List.map_nil, still, time]
  rfl

theorem panel_eq : ended.panel maths = (ended.trip maths).bind fun trip =>
    (Web.duration trip.time).map fun text =>
      ⟨trip.distance, text, maths.perHour trip.distance trip.time, trip.polypoints⟩ := by
  unfold panel trip
  by_cases success : ended.success
  · rw [if_pos success, if_pos success]
    cases Web.update ended.body with
    | none => simp
    | some fixes =>
      cases fixes with
      | nil => simp [Web.showTrip]
      | cons fix rest =>
        cases text : Web.duration (Web.trip maths (fix :: rest)).time <;> simp [Web.showTrip, text]
  · rw [if_neg success, if_neg success]
    simp

/-- The elements of an answer that is shown as a whole are those of its panel. -/
theorem Whole.parts (whole : ended.Whole maths) :
    ended.distance maths = (ended.panel maths).map (·.distance) ∧
      ended.pace maths = (ended.panel maths).map (fun panel => (panel.duration, panel.speed)) ∧
      ended.points maths = (ended.panel maths).map fun panel => [panel.line] := by
  rw [panel_eq, distance, pace, points]
  cases gives : ended.trip maths with
  | none => simp
  | some trip =>
    obtain ⟨drawable, valid⟩ := whole trip gives
    obtain ⟨text, valid⟩ := Option.ne_none_iff_exists'.mp valid
    simp [drawable, valid]

end Completion

namespace TimelinePage

variable {maths : Maths} {p q : TimelinePage} {ended : Completion}

/-- Behind the texts: the old line is gone, and the new one drawn if it can be. -/
def redrawn (p : TimelinePage) (drawable : Bool) (points : List (Number × Number)) : TimelinePage :=
  let left := p.drawn.filter fun l => some l.id ≠ p.line.map (·.id)
  if drawable then
    { p with line := some ⟨p.made, points⟩, drawn := left ++ [⟨p.made, points⟩], made := p.made + 1 }
  else { p with drawn := left }

/-- Where `line` is the one line on the map, no other one stays. -/
theorem redrawn_eq (only : ∀ l ∈ p.drawn, p.line = some l) (drawable : Bool) (points : List (Number × Number)) :
    p.redrawn drawable points =
      if drawable then
        { p with line := some ⟨p.made, points⟩, drawn := [⟨p.made, points⟩], made := p.made + 1 }
      else { p with drawn := [] } := by
  have removed : (p.drawn.filter fun l => some l.id ≠ p.line.map (·.id)) = [] := by
    rw [List.filter_eq_nil_iff]
    intro l drawn
    simp [only l drawn]
  rw [redrawn, removed]
  simp

/-- What an answer does. -/
def answered (maths : Maths) (ended : Completion) (p : TimelinePage) : TimelinePage :=
  match ended.trip maths with
  | none => p
  | some trip =>
    match Web.duration trip.time with
    | none => { p with distance := some trip.distance }
    | some text => redrawn { p with
        distance := some trip.distance
        duration := some text
        speed := some (maths.perHour trip.distance trip.time) } ended.drawable trip.polypoints

theorem leaves_update (success : ended.success) : leaves (update maths ended) p = answered maths ended p := by
  rw [answered, Completion.trip, if_pos success, leaves, update]
  cases parsed : Web.update ended.body with
  | none => rfl
  | some fixes =>
    cases fixes with
    | nil => rfl
    | cons fix rest =>
      simp only [List.length_cons, Nat.succ_ne_zero, if_false]
      rw [Action.result_bind_ok (Action.result_modify _ _)]
      cases text : Web.duration (Web.trip maths (fix :: rest)).time with
      | none => rfl
      | some text =>
        rw [Action.result_bind_ok (Action.result_modify _ _)]
        cases p.line with
        | none => cases ended.drawable <;> simp [Action.result_bind, polyline, redrawn]
        | some line => cases ended.drawable <;> simp [Action.result_bind, polyline, remove, redrawn]

/-! ## What the page shows -/

/-- The answers of a run. -/
def answers (trace : List TimelineEvent) : List Completion :=
  trace.filterMap fun
    | .changeDate _ => none
    | .ended _ ended => some ended

/-- What the last answer with such a thing has. -/
def latest {α : Type} (f : Completion → Option α) (trace : List TimelineEvent) : Option α :=
  ((answers trace).filterMap f).getLast?

section Latest

variable {α β : Type} (f : Completion → Option α) (trace : List TimelineEvent)

@[simp] theorem latest_changeDate (start : Int) : latest f (trace ++ [.changeDate start]) = latest f trace := by
  simp [latest, answers]

@[simp] theorem latest_ended (start : Int) (ended : Completion) :
    latest f (trace ++ [.ended start ended]) = (f ended).or (latest f trace) := by
  cases given : f ended <;> simp [latest, answers, given]

theorem mem_of_latest {f : Completion → Option α} {trace : List TimelineEvent} {a : α}
    (last : latest f trace = some a) : ∃ ended, ended ∈ answers trace ∧ f ended = some a :=
  List.mem_filterMap.mp (List.mem_of_getLast? last)

/-- What the answers have in common, the last one has too. -/
theorem latest_map {f : Completion → Option α} {g : Completion → Option β} {h : α → β}
    {trace : List TimelineEvent} (same : ∀ ended ∈ answers trace, g ended = (f ended).map h) :
    latest g trace = (latest f trace).map h := by
  unfold latest
  rw [← List.getLast?_map, List.map_filterMap, List.filterMap_congr same]

end Latest

/-- **Each element shows the last answer that got as far as it.** -/
structure Shows (maths : Maths) (trace : List TimelineEvent) (p : TimelinePage) : Prop where
  distance : p.distance = latest (·.distance maths) trace
  duration : p.duration = (latest (·.pace maths) trace).map (·.1)
  speed : p.speed = (latest (·.pace maths) trace).map (·.2)
  points : p.drawn.map (·.points) = (latest (·.points maths) trace).getD []
  /-- The line on the map is the one the next answer removes. -/
  line : ∀ l ∈ p.drawn, p.line = some l

namespace Shows

variable {trace : List TimelineEvent} (h : Shows maths trace p)
include h

theorem changeDate (start : Int) (asked : List Int) :
    Shows maths (trace ++ [.changeDate start]) { p with asked } where
  distance := by simpa using h.distance
  duration := by simpa using h.duration
  speed := by simpa using h.speed
  points := by simpa using h.points
  line := h.line

/-- An answer without a trip is not shown. -/
theorem skips (start : Int) (asked : List Int) (none : ended.trip maths = none) :
    Shows maths (trace ++ [.ended start ended]) { p with asked } where
  distance := by simpa [Completion.distance, none] using h.distance
  duration := by simpa [Completion.pace, none] using h.duration
  speed := by simpa [Completion.pace, none] using h.speed
  points := by simpa [Completion.points, none] using h.points
  line := h.line

/-- The elements after an answer. -/
theorem answered (start : Int) (asked : List Int) :
    Shows maths (trace ++ [.ended start ended]) (answered maths ended { p with asked }) := by
  unfold TimelinePage.answered
  cases gives : ended.trip maths with
  | none => exact h.skips start _ gives
  | some trip =>
    simp only
    cases text : Web.duration trip.time with
    | none =>
      constructor
      · simp [Completion.distance, gives]
      · simpa [Completion.pace, gives, text] using h.duration
      · simpa [Completion.pace, gives, text] using h.speed
      · simpa [Completion.points, gives, text] using h.points
      · exact h.line
    | some text =>
      simp only
      rw [redrawn_eq]
      · cases drawable : ended.drawable <;> constructor <;>
          simp [Completion.distance, Completion.pace, Completion.points, gives, text, drawable]
      · exact h.line

theorem step {e : TimelineEvent} (next : Step maths p e q) : Shows maths (trace ++ [e]) q := by
  cases e with
  | changeDate start =>
    obtain rfl := Option.some.inj next
    exact h.changeDate start _
  | ended start ended =>
    rw [Step, TimelinePage.step] at next
    split at next
    · obtain rfl := Option.some.inj next
      split
      · rename_i success
        rw [leaves_update success]
        exact h.answered start _
      · rename_i failure
        exact h.skips start _ (if_neg failure)
    · cases next

theorem one_line : p.drawn.length ≤ 1 := by
  rw [← List.length_map (·.points), h.points]
  cases last : latest (·.points maths) trace with
  | none => simp
  | some points =>
    obtain ⟨ended, -, gives⟩ := mem_of_latest last
    obtain ⟨trip, -, gives⟩ := Option.bind_eq_some_iff.mp gives
    obtain ⟨text, -, rfl⟩ := Option.map_eq_some_iff.mp gives
    show (if ended.drawable then [trip.polypoints] else []).length ≤ 1
    split <;> simp

/-- Without an exception the elements are those of one trip. -/
theorem whole (whole : ∀ ended ∈ answers trace, ended.Whole maths) :
    p.panel = latest (·.panel maths) trace := by
  have distance := h.distance.trans (latest_map fun ended inside => (whole ended inside).parts.1)
  have pace := latest_map fun ended inside => (whole ended inside).parts.2.1
  have duration := h.duration
  have speed := h.speed
  have points := h.points.trans
    (congrArg (·.getD []) (latest_map fun ended inside => (whole ended inside).parts.2.2))
  rw [pace, Option.map_map] at duration speed
  unfold panel
  rw [distance, duration, speed]
  cases last : latest (·.panel maths) trace with
  | none => rfl
  | some panel =>
    rw [last] at points
    obtain ⟨l, drawn, same⟩ := List.map_eq_singleton_iff.mp points
    simp [drawn, same]

end Shows

/-- **On every run of the timeline page, each element shows the last answer that
got as far as it. There is at most one line, and as long as no answer ends in an
exception, the page shows the trip of the last one with fixes.** -/
theorem shows_latest {trace : List TimelineEvent} (run : Run (Step maths) load trace p) :
    Shows maths trace p ∧ p.drawn.length ≤ 1 ∧
      ((∀ ended ∈ answers trace, ended.Whole maths) → p.panel = latest (·.panel maths) trace) := by
  have base : Shows maths [] load := ⟨rfl, rfl, rfl, rfl, by simp [load]⟩
  have h := run.history (Shows maths) (fun _ _ _ _ _ h next => h.step next) base
  exact ⟨h, h.one_line, h.whole⟩

theorem answered_asked (ended : Completion) (p : TimelinePage) : (answered maths ended p).asked = p.asked := by
  unfold answered
  cases ended.trip maths with
  | none => rfl
  | some trip =>
    simp only
    cases Web.duration trip.time with
    | none => rfl
    | some text =>
      show (redrawn _ _ _).asked = _
      unfold redrawn
      split <;> rfl

theorem step_success {start : Int} (waits : start ∈ p.asked) (success : ended.success) :
    Step maths p (.ended start ended) (answered maths ended { p with asked := p.asked.erase start }) := by
  rw [Step, step, if_pos waits]
  simp only
  rw [if_pos success, leaves_update success]

/-- Two dates are chosen, and the later one is answered first. -/
theorem overtaken {early late : Completion} (first : early.success) (second : late.success) :
    ∃ p, Run (Step maths) load
      [.changeDate 0, .changeDate 86400, .ended 86400 late, .ended 0 early] p := by
  have asks : Step maths { load with asked := [0] } (.changeDate 86400) { load with asked := [0, 86400] } := rfl
  have answers := @step_success maths { load with asked := [0, 86400] } late 86400 (by decide) second
  have waits : 0 ∈ (answered maths late { load with asked := [0] }).asked := by
    rw [answered_asked]
    decide
  exact ⟨_, .cons rfl (.cons asks (.cons answers (.single (step_success waits first))))⟩

/-- The trip of the earlier date is left on the page. -/
theorem shows_latest_overtaken : ∃ p, Run (Step ⟨fun a _ => a, fun _ _ _ _ => 0, fun _ _ => 0⟩) load
      [.changeDate 0, .changeDate 86400, .ended 86400 ⟨200, apiRangeContent [⟨86410, 1, 1, 6⟩], true⟩,
        .ended 0 ⟨200, apiRangeContent [⟨10, 0, 0, 6⟩], true⟩] p ∧
    p.drawn.map (·.points) = [[(0, 0)]] := by
  obtain ⟨p, run⟩ := @overtaken ⟨fun a _ => a, fun _ _ _ _ => 0, fun _ _ => 0⟩
    ⟨200, apiRangeContent [⟨10, 0, 0, 6⟩], true⟩ ⟨200, apiRangeContent [⟨86410, 1, 1, 6⟩], true⟩
    (by decide) (by decide)
  refine ⟨p, run, ?_⟩
  have points := (shows_latest run).1.points
  have trace : ∀ a b c d : TimelineEvent, [a, b, c, d] = [a, b, c] ++ [d] := fun _ _ _ _ => rfl
  rw [trace, latest_ended, Completion.points_single] at points
  rw [points]
  decide

end TimelinePage

end Zouipocar
