import Mathlib.Algebra.Order.Ring.Rat
import Zouipocar.Lib.Action
import Zouipocar.Lib.Transition

/-!
# The live map

`ZouipocarMap` centres the view on the car until the map moves for another
reason, and again from a click of the track button on. The map library tells it
of every move, of its own ones as well; those are told apart by the flag
`userPanning`, lowered around `#center`. An exception of the library in between
leaves the flag lowered.

Of the library three things matter: which positions it takes, whether a call
fires `movestart`, and whether it throws later on.
-/

namespace Zouipocar
set_option autoImplicit false
open Lib

/-- The picture of the track button. -/
inductive LocationIcon
  | black
  | gray
deriving DecidableEq

/-- A `ZouipocarMap` with a car marker and a track button. -/
structure LiveMap (Pos : Type) where
  currentPos : Pos
  /-- Where `carMarker` is. -/
  carMarker : Pos
  tracking : Bool
  userPanning : Bool
  /-- What the view was last set to, unless it moved since. -/
  view : Option Pos
  zoom : ℚ
  /-- `trackButton.disabled` -/
  disabled : Bool
  /-- `trackButton.src` -/
  src : LocationIcon

/-- What a call of the map library does on a position it takes. -/
structure LibraryCall where
  movestart : Bool
  throws : Bool

/-- An exception ends a script where it is. -/
abbrev MapScript (Pos : Type) : Type → Type := Action (LiveMap Pos) Unit

inductive MapEvent (Pos : Type)
  | setCarPos (pos : Pos) (marker view : LibraryCall)
  | click (view : LibraryCall)
  /-- The user or a popup moves the map. -/
  | movestart (zoom : ℚ)

namespace LiveMap

variable {Pos : Type}

/-- `#defaultZoom` -/
def defaultZoom : ℚ := 16

/-- `new ZouipocarMap(pos, true, true)` -/
def new (pos : Pos) : LiveMap Pos where
  currentPos := pos
  carMarker := pos
  tracking := true
  userPanning := true
  view := some pos
  zoom := defaultZoom
  disabled := true
  src := .black

/-- The handler of `movestart`. -/
def onMovestart : MapScript Pos Unit := do
  if (← get).userPanning then
    modify fun p => { p with tracking := false, disabled := false, src := .gray }

section Library

-- the positions the library takes; on others it throws before anything else
variable (taken : Pos → Bool)

/-- `map.setView(pos, zoom, { animate: false })` -/
def setView (pos : Pos) (zoom : ℚ) (call : LibraryCall) : MapScript Pos Unit := do
  if taken pos = false then throw ()
  if call.movestart then onMovestart
  modify fun p => { p with view := some pos, zoom }
  if call.throws then throw ()

/-- `carMarker.setLatLng(pos)`; an open popup follows the marker and may move
the map to stay in view. -/
def setLatLng (pos : Pos) (call : LibraryCall) : MapScript Pos Unit := do
  if taken pos = false then throw ()
  modify fun p => { p with carMarker := pos }
  if call.movestart then
    onMovestart
    modify fun p => { p with view := none }
    if call.throws then throw ()

/-- `#center` -/
def center (call : LibraryCall) : MapScript Pos Unit := do
  let currentZoom := (← get).zoom
  if currentZoom < defaultZoom then setView taken (← get).currentPos defaultZoom call
  else setView taken (← get).currentPos currentZoom call

def setCarPos (pos : Pos) (marker view : LibraryCall) : MapScript Pos Unit := do
  modify fun p => { p with currentPos := pos }
  setLatLng taken (← get).currentPos marker
  if (← get).tracking then
    modify fun p => { p with userPanning := false }
    center taken view
    modify fun p => { p with userPanning := true }

/-- The handler of the track button. -/
def onClick (view : LibraryCall) : MapScript Pos Unit := do
  modify fun p => { p with tracking := true }
  modify fun p => { p with userPanning := false }
  center taken view
  modify fun p => { p with userPanning := true }
  modify fun p => { p with disabled := true }
  modify fun p => { p with src := .black }

/-- What a script leaves behind. -/
def leaves (script : MapScript Pos Unit) (p : LiveMap Pos) : LiveMap Pos := (Action.result script p).2

/-- One event; a disabled button is not clicked. -/
def step (p : LiveMap Pos) : MapEvent Pos → Option (LiveMap Pos)
  | .setCarPos pos marker view => some (leaves (setCarPos taken pos marker view) p)
  | .click view => if p.disabled then none else some (leaves (onClick taken view) p)
  | .movestart zoom => some { leaves onMovestart p with view := none, zoom }

def Step (p : LiveMap Pos) (e : MapEvent Pos) (q : LiveMap Pos) : Prop := p.step taken e = some q

end Library

/-! ## What the scripts do -/

/-- The map moved. -/
def moved (p : LiveMap Pos) : LiveMap Pos :=
  if p.userPanning then { p with tracking := false, disabled := false, src := .gray } else p

@[simp] theorem result_onMovestart (p : LiveMap Pos) : Action.result onMovestart p = (.ok (), p.moved) := by
  rw [onMovestart, Action.result_bind, Action.result_get]
  by_cases user : p.userPanning <;> simp [moved, user]

/-- The zoom `#center` asks for. -/
def closeUp (zoom : ℚ) : ℚ := if zoom < defaultZoom then defaultZoom else zoom

theorem le_closeUp (zoom : ℚ) : defaultZoom ≤ closeUp zoom := by
  unfold closeUp
  split
  · exact le_refl _
  · rename_i close
    exact not_lt.mp close

variable {taken : Pos → Bool} {p q : LiveMap Pos} {pos : Pos} {marker view : LibraryCall}

/-- `#center` does not hear of its own move. -/
theorem result_center (lowered : p.userPanning = false) (call : LibraryCall) :
    Action.result (center taken call) p =
      if taken p.currentPos = false then (.error (), p)
      else (if call.throws then .error () else .ok (),
        { p with view := some p.currentPos, zoom := closeUp p.zoom }) := by
  have asked : Action.result (center taken call) p =
      Action.result (setView taken p.currentPos (closeUp p.zoom) call) p := by
    rw [center, Action.result_bind, Action.result_get, closeUp]
    by_cases far : p.zoom < defaultZoom <;> simp [far, Action.result_bind]
  have deaf : p.moved = p := by
    rw [moved, lowered]
    rfl
  rw [asked, setView]
  by_cases refused : taken p.currentPos = false
  · simp [refused]
  · cases heard : call.movestart <;> cases fails : call.throws <;>
      simp [refused, deaf, Action.result_bind]

/-- `#center` throws. -/
def CenterThrows (taken : Pos → Bool) (pos : Pos) (call : LibraryCall) : Prop :=
  taken pos = false ∨ call.throws = true

instance (taken : Pos → Bool) (pos : Pos) (call : LibraryCall) : Decidable (CenterThrows taken pos call) :=
  inferInstanceAs (Decidable (_ ∨ _))

/-- After `#center`, with the flag still lowered. -/
def centered (taken : Pos → Bool) (p : LiveMap Pos) : LiveMap Pos :=
  if taken p.currentPos = false then { p with userPanning := false }
  else { p with userPanning := false, view := some p.currentPos, zoom := closeUp p.zoom }

/-- What comes after `#center` runs unless it throws. -/
theorem result_lowered (p : LiveMap Pos) (call : LibraryCall) (after : MapScript Pos Unit) :
    Action.result (do
      modify fun p => { p with userPanning := false }
      center taken call
      after) p =
      if CenterThrows taken p.currentPos call then (.error (), centered taken p)
      else Action.result after (centered taken p) := by
  rw [Action.result_bind_ok (Action.result_modify _ _), Action.result_bind, result_center rfl, centered]
  by_cases refused : taken p.currentPos = false
  · simp [refused, CenterThrows]
  · cases fails : call.throws <;> simp [refused, fails, CenterThrows]

/-- Where the marker is set, and the map has moved if it had to. -/
def marked (p : LiveMap Pos) (pos : Pos) (call : LibraryCall) : LiveMap Pos :=
  let p := { p with currentPos := pos, carMarker := pos }
  if call.movestart then { p.moved with view := none } else p

theorem result_setLatLng (p : LiveMap Pos) (call : LibraryCall) :
    Action.result (setLatLng taken pos call) { p with currentPos := pos } =
      if taken pos = false then (.error (), { p with currentPos := pos })
      else (if call.movestart = true ∧ call.throws = true then .error () else .ok (), p.marked pos call) := by
  rw [setLatLng]
  by_cases refused : taken pos = false
  · simp [refused]
  · cases heard : call.movestart <;> cases fails : call.throws <;>
      simp [refused, heard, marked, Action.result_bind]

/-- **What a new position does.** -/
theorem leaves_setCarPos : leaves (setCarPos taken pos marker view) p =
    if taken pos = false then { p with currentPos := pos }
    else if marker.movestart = true ∧ marker.throws = true ∨ (p.marked pos marker).tracking = false then
      p.marked pos marker
    else { centered taken (p.marked pos marker) with userPanning := !view.throws } := by
  have here : (p.marked pos marker).currentPos = pos := by
    unfold marked moved
    cases marker.movestart <;> cases p.userPanning <;> rfl
  rw [leaves, setCarPos, Action.result_bind_ok (Action.result_modify _ _),
    Action.result_bind_ok (Action.result_get _), Action.result_bind, result_setLatLng]
  by_cases refused : taken pos = false
  · simp [refused]
  · by_cases fails : marker.movestart = true ∧ marker.throws = true
    · simp [refused, fails]
    · rw [if_neg refused, if_neg fails, if_neg refused]
      simp only [fails, false_or]
      rw [Action.result_bind_ok (Action.result_get _)]
      cases following : (p.marked pos marker).tracking with
      | false => simp
      | true =>
        simp only [if_true, result_lowered, here]
        cases throws : view.throws <;> simp [CenterThrows, refused, throws, centered, here]

/-- **What a click does.** -/
theorem leaves_onClick : leaves (onClick taken view) p =
    let q := centered taken { p with tracking := true }
    if CenterThrows taken p.currentPos view then q
    else { q with userPanning := true, disabled := true, src := .black } := by
  rw [leaves, onClick, Action.result_bind_ok (Action.result_modify _ _), result_lowered]
  simp only
  split <;> simp [Action.result_bind]

theorem step_click : Step taken p (.click view) q ↔ p.disabled = false ∧ q = leaves (onClick taken view) p := by
  cases enabled : p.disabled <;> simp [Step, step, enabled, eq_comm]

/-! ## The button, the flag and the view -/

/-- The button and the flag, by themselves. -/
structure Buttoned (p : LiveMap Pos) : Prop where
  icon : p.src = .black ↔ p.disabled = true
  /-- A button that cannot be clicked is not needed. -/
  button : p.disabled = true → p.tracking = true
  /-- The flag stays lowered only where `#center` was to follow the car. -/
  lowered : p.userPanning = false → p.tracking = true

/-- What holds of a map that was made with a position the library takes. -/
structure Coherent (taken : Pos → Bool) (p : LiveMap Pos) : Prop extends Buttoned p where
  view : p.tracking = true → p.userPanning = true → p.view = some p.carMarker ∧ defaultZoom ≤ p.zoom
  /-- The marker is at the last position that the library took. -/
  marker : taken p.carMarker = true ∧ (taken p.currentPos = true → p.carMarker = p.currentPos)

/-- A move is not heard with the flag lowered, and ends the tracking otherwise. -/
theorem Buttoned.moved (h : Buttoned p) : Buttoned p.moved := by
  unfold LiveMap.moved
  cases user : p.userPanning with
  | true => exact ⟨by simp, by simp, by simp⟩
  | false => exact h

theorem Buttoned.marked (h : Buttoned p) : Buttoned (p.marked pos marker) := by
  have set : Buttoned { p with currentPos := pos, carMarker := pos } := ⟨h.icon, h.button, h.lowered⟩
  unfold LiveMap.marked
  cases marker.movestart with
  | true => exact ⟨set.moved.icon, set.moved.button, set.moved.lowered⟩
  | false => exact set

@[simp] theorem moved_marker (p : LiveMap Pos) : p.moved.carMarker = p.carMarker := by
  unfold moved
  split <;> rfl

@[simp] theorem moved_currentPos (p : LiveMap Pos) : p.moved.currentPos = p.currentPos := by
  unfold moved
  split <;> rfl

theorem marked_pos : (p.marked pos marker).currentPos = pos ∧ (p.marked pos marker).carMarker = pos := by
  unfold marked
  cases marker.movestart <;> simp

/-- A move that was heard ended the tracking. -/
theorem moved_deaf (heard : p.moved.tracking = true) (user : p.moved.userPanning = true) : False := by
  unfold moved at heard user
  split at heard
  · cases heard
  · rename_i lowered
    rw [if_neg lowered] at user
    exact lowered user

namespace Coherent

theorem new (here : taken pos = true) : Coherent taken (.new pos) where
  icon := by simp [LiveMap.new]
  button := by simp [LiveMap.new]
  lowered := by simp [LiveMap.new]
  view := fun _ _ => ⟨rfl, le_refl _⟩
  marker := ⟨here, fun _ => rfl⟩

variable (h : Coherent taken p)
include h

theorem moves (zoom : ℚ) : Coherent taken { p.moved with view := none, zoom } where
  icon := h.moved.icon
  button := h.moved.button
  lowered := h.moved.lowered
  view := fun heard user => (moved_deaf heard user).elim
  marker := by simpa using h.marker

/-- The library refuses the position. -/
theorem refuses (refused : taken pos = false) : Coherent taken { p with currentPos := pos } where
  icon := h.icon
  button := h.button
  lowered := h.lowered
  view := h.view
  marker := ⟨h.marker.1, fun here => by simp [refused] at here⟩

/-- The map does not follow the marker. -/
theorem marks (here : taken pos = true)
    (free : marker.movestart = true ∨ (p.marked pos marker).tracking = false) :
    Coherent taken (p.marked pos marker) where
  toButtoned := h.marked
  view := by
    intro heard user
    rcases free with free | free
    · simp only [marked, free, if_true] at heard user
      exact (moved_deaf heard user).elim
    · rw [free] at heard
      cases heard
  marker := by
    rw [marked_pos.1, marked_pos.2]
    exact ⟨here, fun _ => rfl⟩

end Coherent

/-- `#center` brings the view to the marker, or leaves the flag lowered. -/
theorem Buttoned.centers (h : Buttoned p) (following : p.tracking = true) (here : taken p.currentPos = true)
    (marker : p.carMarker = p.currentPos) (throws : Bool) :
    Coherent taken { centered taken p with userPanning := !throws } := by
  unfold centered
  rw [if_neg (by simp [here])]
  exact ⟨⟨h.icon, h.button, fun _ => following⟩, fun _ _ => ⟨congrArg some marker.symm, le_closeUp _⟩,
    by rw [marker]; exact here, fun _ => marker⟩

theorem centered_lowered (p : LiveMap Pos) : { centered taken p with userPanning := false } = centered taken p := by
  unfold centered
  split <;> rfl

theorem centered_currentPos (p : LiveMap Pos) : (centered taken p).currentPos = p.currentPos := by
  unfold centered
  split <;> rfl

theorem centered_tracking (p : LiveMap Pos) : (centered taken p).tracking = p.tracking := by
  unfold centered
  split <;> rfl

/-- **One event keeps the map coherent.** -/
theorem Coherent.step (h : Coherent taken p) {e : MapEvent Pos} (next : Step taken p e q) : Coherent taken q := by
  cases e with
  | setCarPos pos marker view =>
    obtain rfl := Option.some.inj next
    rw [leaves_setCarPos]
    by_cases refused : taken pos = false
    · rw [if_pos refused]
      exact h.refuses refused
    · rw [Bool.not_eq_false] at refused
      rw [if_neg (by simp [refused])]
      split
      · rename_i free
        exact h.marks refused (free.imp_left And.left)
      · rename_i following
        rw [not_or, Bool.not_eq_false] at following
        exact h.marked.centers following.2 (by rw [marked_pos.1, refused]) (by rw [marked_pos.1, marked_pos.2]) _
  | click view =>
    obtain ⟨-, rfl⟩ := step_click.mp next
    rw [leaves_onClick]
    have now : Buttoned { p with tracking := true } := ⟨h.icon, fun _ => rfl, fun _ => rfl⟩
    by_cases here : taken p.currentPos = true
    · have follows := now.centers rfl here (h.marker.2 here)
      simp only
      split
      · rw [← centered_lowered]
        exact follows true
      · have done := follows false
        exact ⟨⟨by simp, fun _ => centered_tracking _, fun lowered => by simp at lowered⟩, done.view, done.marker⟩
    · rw [Bool.not_eq_true] at here
      simp only [CenterThrows, here, true_or, if_true, centered]
      exact ⟨⟨h.icon, fun _ => rfl, fun _ => rfl⟩, fun _ user => by simp at user, h.marker⟩
  | movestart zoom =>
    obtain rfl := Option.some.inj next
    rw [leaves, result_onMovestart]
    exact h.moves zoom

/-- **Whatever the library does, a disabled button is black, its map is tracking,
and a map that tracks and hears of moves shows the car.** -/
theorem coherent_run {pos : Pos} (here : taken pos = true) {trace : List (MapEvent Pos)}
    (run : Run (Step taken) (.new pos) trace p) :
    (p.src = .black ↔ p.disabled = true) ∧ (p.disabled = true → p.tracking = true) ∧
      (p.userPanning = false → p.tracking = true) ∧
      (p.tracking = true → p.userPanning = true → p.view = some p.carMarker ∧ 16 ≤ p.zoom) := by
  have h := run.invariant (Coherent taken) (fun _ _ _ h taken => h.step taken) (.new here)
  exact ⟨h.icon, h.button, h.lowered, h.view⟩

theorem away_step :
    Step (fun _ => true) (.new (0 : ℕ)) (.movestart 3) ⟨0, 0, false, true, none, 3, false, .gray⟩ := rfl

/-- The user moves the map and clicks the button, and a tile of the view cannot be made. -/
theorem click_run : Run (Step fun _ => true) (.new (0 : ℕ)) [.movestart 3, .click ⟨true, true⟩]
    ⟨0, 0, true, false, some 0, 16, false, .gray⟩ := .cons away_step (.single rfl)

theorem coherent_run_click : ∃ p : LiveMap ℕ, p.disabled = false ∧ p.tracking = true ∧
    (p.src = .black ↔ p.disabled = true) :=
  ⟨_, rfl, rfl, (coherent_run rfl click_run).1⟩

/-! ## When the button is right -/

theorem moved_told (told : p.disabled = p.tracking) : p.moved.disabled = p.moved.tracking := by
  unfold moved
  split
  · rfl
  · exact told

theorem marked_told (told : p.disabled = p.tracking) :
    (p.marked pos marker).disabled = (p.marked pos marker).tracking := by
  unfold marked
  cases marker.movestart with
  | true => exact @moved_told _ { p with currentPos := pos, carMarker := pos } told
  | false => exact told

theorem centered_disabled (p : LiveMap Pos) : (centered taken p).disabled = p.disabled := by
  unfold centered
  split <;> rfl

/-- **Only a click that throws makes the button wrong.** -/
theorem told_step (told : p.disabled = p.tracking) {e : MapEvent Pos} (next : Step taken p e q) :
    q.disabled = q.tracking ↔ ∀ view, e = .click view → ¬ CenterThrows taken p.currentPos view := by
  cases e with
  | setCarPos pos marker view =>
    obtain rfl := Option.some.inj next
    refine iff_of_true ?_ fun view click => by cases click
    rw [leaves_setCarPos]
    split
    · exact told
    · split
      · exact marked_told told
      · show (centered taken _).disabled = (centered taken _).tracking
        rw [centered_disabled, centered_tracking]
        exact marked_told told
  | click view =>
    obtain ⟨enabled, rfl⟩ := step_click.mp next
    rw [leaves_onClick]
    simp only
    split
    · rename_i throws
      rw [centered_disabled, centered_tracking, enabled]
      exact iff_of_false Bool.false_ne_true fun never => never view rfl throws
    · rename_i returns
      refine iff_of_true ?_ fun other click => ?_
      · show true = (centered taken _).tracking
        rw [centered_tracking]
      · obtain rfl := MapEvent.click.inj click
        exact returns
  | movestart zoom =>
    obtain rfl := Option.some.inj next
    refine iff_of_true ?_ fun view click => by cases click
    rw [leaves, result_onMovestart]
    exact moved_told told

theorem step_unique (s : LiveMap Pos) (e : MapEvent Pos) (t u : LiveMap Pos) (first : Step taken s e t)
    (second : Step taken s e u) : t = u :=
  Option.some.inj (first.symm.trans second)

/-- **The button is right all through a run just when no click of it throws.** -/
theorem button_iff {trace : List (MapEvent Pos)} (run : Run (Step taken) (.new pos) trace p) :
    (∀ before after m, trace = before ++ after → Run (Step taken) (.new pos) before m →
      m.disabled = m.tracking) ↔
    ∀ before view after m, trace = before ++ .click view :: after → Run (Step taken) (.new pos) before m →
      ¬ CenterThrows taken m.currentPos view := by
  constructor
  · intro right before view after m whole reached
    subst whole
    obtain ⟨m', reached', rest⟩ := run.split
    obtain rfl := reached.unique step_unique reached'
    obtain ⟨t, next, -⟩ := rest.first
    have told := right before _ m rfl reached
    have still := right (before ++ [.click view]) after t (by simp) (reached.snoc next)
    exact (told_step told next).mp still view rfl
  · intro returns before
    induction before using List.reverseRecOn with
    | nil =>
      intro after m _ reached
      obtain rfl := reached.unique step_unique (.refl _)
      rfl
    | append_singleton before e ih =>
      intro after t whole reached
      obtain ⟨m, first, next⟩ := reached.last
      rw [List.append_assoc, List.singleton_append] at whole
      apply (told_step (ih _ m whole first) next).mpr
      rintro view rfl
      exact returns before view after m whole first

/-- The button is wrong after that click. -/
theorem button_iff_click : ¬ ∀ before after m,
    ([.movestart 3, .click ⟨true, true⟩] : List (MapEvent ℕ)) = before ++ after →
      Run (Step fun _ => true) (.new 0) before m → m.disabled = m.tracking := by
  rw [button_iff click_run]
  intro returns
  exact returns [.movestart 3] ⟨true, true⟩ [] _ rfl (.single away_step) (.inr rfl)

/-! ## Without exceptions -/

/-- No call throws. -/
def Smooth (taken : Pos → Bool) : MapEvent Pos → Prop
  | .setCarPos pos marker view => taken pos = true ∧ marker.throws = false ∧ view.throws = false
  | .click view => view.throws = false
  | .movestart _ => True

/-- Whether the map follows the car after one more event. -/
def follow (following : Bool) : MapEvent Pos → Bool
  | .setCarPos _ marker _ => following && !marker.movestart
  | .click _ => true
  | .movestart _ => false

/-- Nothing but the car moved the map since it was made or the button was last clicked. -/
def follows (trace : List (MapEvent Pos)) : Bool := trace.foldl follow true

/-- The last position, from the one the map was made with on. -/
def lastPos (pos : Pos) (trace : List (MapEvent Pos)) : Pos :=
  trace.foldl (fun pos e => match e with | .setCarPos pos _ _ => pos | _ => pos) pos

theorem follows_snoc (trace : List (MapEvent Pos)) (e : MapEvent Pos) :
    follows (trace ++ [e]) = follow (follows trace) e := by
  rw [follows, List.foldl_append]
  rfl

theorem lastPos_snoc (pos : Pos) (trace : List (MapEvent Pos)) (e : MapEvent Pos) :
    lastPos pos (trace ++ [e]) = match e with | .setCarPos pos _ _ => pos | _ => lastPos pos trace := by
  rw [lastPos, List.foldl_append]
  rfl

/-- What the events so far made of the map. -/
structure Followed (taken : Pos → Bool) (pos : Pos) (trace : List (MapEvent Pos)) (p : LiveMap Pos) : Prop
    extends Coherent taken p where
  user : p.userPanning = true
  tracking : p.tracking = follows trace
  disabled : p.disabled = follows trace
  currentPos : p.currentPos = lastPos pos trace
  here : taken p.currentPos = true

/-- A popup that moves the map ends the tracking. -/
theorem marked_user (pos : Pos) (marker : LibraryCall) (user : p.userPanning = true) :
    (p.marked pos marker).userPanning = true ∧
    (p.marked pos marker).tracking = (p.tracking && !marker.movestart) ∧
    (p.marked pos marker).disabled = (p.disabled && !marker.movestart) := by
  unfold marked moved
  cases marker.movestart <;> simp [user]

theorem smooth_setCarPos (user : p.userPanning = true) (here : taken pos = true) (quiet : marker.throws = false)
    (silent : view.throws = false) (q : LiveMap Pos) (left : q = leaves (setCarPos taken pos marker view) p) :
    q.userPanning = true ∧ q.tracking = (p.tracking && !marker.movestart) ∧
      q.disabled = (p.disabled && !marker.movestart) ∧ q.currentPos = pos := by
  obtain ⟨raised, tracking, disabled⟩ := marked_user pos marker user
  rw [leaves_setCarPos, if_neg (by simp [here]), quiet] at left
  simp only [Bool.false_eq_true, and_false, false_or] at left
  split at left
  · subst left
    exact ⟨raised, tracking, disabled, marked_pos.1⟩
  · subst left
    rw [centered_tracking, centered_disabled, centered_currentPos, silent]
    exact ⟨rfl, tracking, disabled, marked_pos.1⟩

theorem smooth_click (here : taken p.currentPos = true) (silent : view.throws = false) (q : LiveMap Pos)
    (left : q = leaves (onClick taken view) p) :
    q.userPanning = true ∧ q.tracking = true ∧ q.disabled = true ∧ q.currentPos = p.currentPos := by
  have returns : ¬ CenterThrows taken p.currentPos view := by simp [CenterThrows, here, silent]
  rw [leaves_onClick] at left
  simp only [if_neg returns] at left
  subst left
  rw [centered_tracking, centered_currentPos]
  exact ⟨rfl, rfl, rfl, rfl⟩

theorem Followed.step {start : Pos} {trace : List (MapEvent Pos)} (h : Followed taken start trace p)
    {e : MapEvent Pos} (next : Step taken p e q) (smooth : Smooth taken e) :
    Followed taken start (trace ++ [e]) q := by
  have coherent := h.toCoherent.step next
  cases e with
  | setCarPos pos marker view =>
    obtain ⟨here, quiet, silent⟩ := smooth
    obtain ⟨user, tracking, disabled, currentPos⟩ :=
      smooth_setCarPos h.user here quiet silent q (Option.some.inj next).symm
    refine ⟨coherent, user, ?_, ?_, ?_, by rw [currentPos, here]⟩
    · rw [tracking, h.tracking, follows_snoc, follow]
    · rw [disabled, h.disabled, follows_snoc, follow]
    · rw [currentPos, lastPos_snoc]
  | click view =>
    obtain ⟨user, tracking, disabled, currentPos⟩ := smooth_click h.here smooth q (step_click.mp next).2
    refine ⟨coherent, user, ?_, ?_, ?_, by rw [currentPos, h.here]⟩
    · rw [tracking, follows_snoc, follow]
    · rw [disabled, follows_snoc, follow]
    · rw [currentPos, lastPos_snoc, h.currentPos]
  | movestart zoom =>
    obtain rfl := Option.some.inj next
    rw [leaves, result_onMovestart, moved, if_pos h.user] at coherent ⊢
    exact ⟨coherent, h.user, by rw [follows_snoc]; rfl, by rw [follows_snoc]; rfl,
      by rw [lastPos_snoc]; exact h.currentPos, h.here⟩

/-- **While nothing throws, the map follows the car just when nothing else moved it
since it was made or the button was last clicked, and the button is the other way round.** -/
theorem follows_run {pos : Pos} (here : taken pos = true) {trace : List (MapEvent Pos)}
    (run : Run (fun p e q => Step taken p e q ∧ Smooth taken e) (.new pos) trace p) :
    p.tracking = follows trace ∧ p.disabled = follows trace ∧
      p.currentPos = lastPos pos trace ∧ p.carMarker = lastPos pos trace ∧
      (follows trace = true → p.view = some (lastPos pos trace) ∧ 16 ≤ p.zoom) := by
  have base : Followed taken pos [] (.new pos) := ⟨.new here, rfl, rfl, rfl, rfl, here⟩
  have h := run.history (Followed taken pos) (fun _ _ _ _ _ h taken => h.step taken.1 taken.2) base
  have marker : p.carMarker = lastPos pos trace := (h.marker.2 h.here).trans h.currentPos
  refine ⟨h.tracking, h.disabled, h.currentPos, marker, fun following => ?_⟩
  rw [← marker]
  exact h.view (h.tracking.trans following) h.user

/-- The user moves the map, the car moves on, and a click brings it back. -/
theorem follows_run_back : ∃ p : LiveMap ℕ, p.tracking = true ∧ p.view = some 7 := by
  refine ⟨⟨7, 7, true, true, some 7, 16, true, .black⟩, rfl, ?_⟩
  let step (p : LiveMap ℕ) (e : MapEvent ℕ) (q : LiveMap ℕ) := Step (fun _ => true) p e q ∧ Smooth (fun _ => true) e
  have moved : step (.new 0) (.movestart 3) ⟨0, 0, false, true, none, 3, false, .gray⟩ := ⟨away_step, trivial⟩
  have drove : step ⟨0, 0, false, true, none, 3, false, .gray⟩ (.setCarPos 7 ⟨false, false⟩ ⟨true, false⟩)
      ⟨7, 7, false, true, none, 3, false, .gray⟩ := ⟨rfl, rfl, rfl, rfl⟩
  have run : Run step (.new 0) [.movestart 3, .setCarPos 7 ⟨false, false⟩ ⟨true, false⟩, .click ⟨true, false⟩]
      ⟨7, 7, true, true, some 7, 16, true, .black⟩ := .cons moved (.cons drove (.single ⟨rfl, rfl⟩))
  exact ((follows_run rfl run).2.2.2.2 rfl).1

end LiveMap

end Zouipocar
