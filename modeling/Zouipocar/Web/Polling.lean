import Zouipocar.Lib.Action
import Zouipocar.Lib.Transition
import Zouipocar.Web.ParseFix

/-!
# Polling on the live map

The page asks for the last fix once at load and then polls: each finished
request arms a timer, each timer starts a request. Hiding the page clears the
timer whose handle is in `timeout`, showing it starts a request. Hiding cannot
take back a request in flight, so its completion arms a timer all the same, and
showing the page starts a second chain next to it.
-/

namespace Zouipocar
set_option autoImplicit false
open Lib

/-- What a request ended with: its status, `0` when the network failed, and its
body. Whether the map takes the position is up to the map library. -/
structure Completion where
  status : Nat
  body : ArrayBuffer
  drawable : Bool

/-- `x.status >= 200 && x.status < 300` -/
def Completion.success (ended : Completion) : Prop := 200 ≤ ended.status ∧ ended.status < 300

instance (ended : Completion) : Decidable ended.success := inferInstanceAs (Decidable (_ ∧ _))

structure Page where
  visible : Bool
  /-- The request made at load is in flight. -/
  initial : Bool
  /-- Polling requests in flight. -/
  polls : Nat
  /-- Polling requests made so far. -/
  sent : Nat
  /-- Handles of the pending `getLastFix` timers. -/
  timers : List Nat
  timeout : Option Nat
  /-- The last handle given to a timer. -/
  handle : Nat
  /-- `map` is defined. -/
  map : Bool
deriving DecidableEq

/-- Scripts of the page; an exception ends one where it is. -/
abbrev Script := Action Page Unit Unit

inductive PageEvent
  | visible
  | hidden
  | timer (handle : Nat)
  | initial (ended : Completion)
  | poll (ended : Completion)

namespace Page

/-- When the scripts have run for the first time. -/
def load (visible : Bool) : Page where
  visible
  initial := true
  polls := 0
  sent := 0
  timers := []
  timeout := none
  handle := 0
  map := false

/-- `ajax.get` with the handlers of a polling request. -/
def getLastFix : Script := modify fun p => { p with polls := p.polls + 1, sent := p.sent + 1 }

/-- `timeout = setTimeout(getLastFix, 1000);` -/
def armTimer : Script := modify fun p =>
  { p with timers := p.timers ++ [p.handle + 1], timeout := some (p.handle + 1), handle := p.handle + 1 }

/-- `clearTimeout(timeout);` -/
def clearTimer : Script := modify fun p =>
  { p with timers := p.timers.filter fun h => some h ≠ p.timeout }

/-- `map = new ZouipocarMap(pos, true, true);` -/
def makeMap (drawable : Bool) : Script := do
  if drawable = false then throw ()
  modify fun p => { p with map := true }

/-- `onSuccess` of the initial request. -/
def showFirst (ended : Completion) : Script := do
  if Web.parseFix ended.body = none then throw ()
  makeMap ended.drawable

/-- `onFix`: `map.setCarPos` throws without a map. -/
def onFix (ended : Completion) : Script := do
  if Web.parseFix ended.body = none then throw ()
  if (← get).map = false then throw ()
  if ended.drawable = false then throw ()

/-- The `readystatechange` handler of `ajax.send` for a finished request. -/
def onDone (ended : Completion) (onSuccess onError onEnd : Script) : Script := do
  if ended.success then onSuccess
  else if 400 ≤ ended.status then onError
  onEnd

/-- What a script leaves behind. -/
def after (script : Script) (p : Page) : Page := (Action.result script p).2

/-- A finished request: the handler, and the `error` event of a network failure. -/
def finish (ended : Completion) (onSuccess onError onEnd : Script) (p : Page) : Page :=
  let p := after (onDone ended onSuccess onError onEnd) p
  if ended.status = 0 then after onError p else p

/-- One event of the page, where it can happen. -/
def step (p : Page) : PageEvent → Option Page
  | .visible => if p.visible then none else some (after getLastFix { p with visible := true })
  | .hidden => if p.visible then some (after clearTimer { p with visible := false }) else none
  | .timer handle =>
    if handle ∈ p.timers then some (after getLastFix { p with timers := p.timers.erase handle }) else none
  | .initial ended =>
    if p.initial then
      some (finish ended (showFirst ended) (makeMap true) getLastFix { p with initial := false })
    else none
  | .poll ended =>
    if 0 < p.polls then some (finish ended (onFix ended) (pure ()) armTimer { p with polls := p.polls - 1 })
    else none

def Step (p : Page) (e : PageEvent) (q : Page) : Prop := p.step e = some q

instance (p : Page) (e : PageEvent) (q : Page) : Decidable (Step p e q) :=
  inferInstanceAs (Decidable (_ = _))

end Page

/-- It is called with something that cannot be shown, and throws. -/
def Completion.Throws (ended : Completion) : Prop :=
  ended.success ∧ (Web.parseFix ended.body = none ∨ ended.drawable = false)

instance (ended : Completion) : Decidable ended.Throws := inferInstanceAs (Decidable (_ ∧ _))

namespace Page

variable {p q : Page}

section Finish

variable {ended : Completion} {onSuccess onError onEnd : Script}

theorem result_showFirst (ended : Completion) (p : Page) : Action.result (showFirst ended) p =
    if Web.parseFix ended.body = none ∨ ended.drawable = false then (.error (), p)
    else (.ok (), { p with map := true }) := by
  by_cases short : Web.parseFix ended.body = none
  · simp [showFirst, short]
  · cases drawable : ended.drawable <;> simp [showFirst, makeMap, short, drawable]

theorem result_onFix (ended : Completion) (p : Page) : Action.result (onFix ended) p =
    if (Web.parseFix ended.body = none ∨ ended.drawable = false) ∨ p.map = false then (.error (), p)
    else (.ok (), p) := by
  by_cases short : Web.parseFix ended.body = none
  · simp [onFix, short]
  · cases drawable : ended.drawable <;> cases map : p.map <;>
      simp [onFix, Action.result_bind, short, drawable, map]

/-! Which handlers a finished request calls. -/

theorem finish_success (success : ended.success) :
    finish ended onSuccess onError onEnd p = after (do onSuccess; onEnd) p := by
  have answered : ended.status ≠ 0 := by
    rw [Completion.success] at success
    omega
  rw [finish, if_neg answered, onDone, if_pos success]

theorem finish_refused (refused : 400 ≤ ended.status) :
    finish ended onSuccess onError onEnd p = after (do onError; onEnd) p := by
  have other : ¬ ended.success := by
    rw [Completion.success]
    omega
  rw [finish, if_neg (by omega), onDone, if_neg other, if_pos refused]

theorem finish_other (other : ¬ ended.success) (accepted : ¬ 400 ≤ ended.status) :
    finish ended onSuccess onError onEnd p =
      if ended.status = 0 then after onError (after onEnd p) else after onEnd p := by
  have script : onDone ended onSuccess onError onEnd = onEnd := by
    rw [onDone, if_neg other, if_neg accepted]
  rw [finish, script]

/-- The initial request starts the polling unless it throws. -/
theorem finish_initial (ended : Completion) (p : Page) :
    ∃ map, finish ended (showFirst ended) (makeMap true) getLastFix p =
      if ended.Throws then { p with map }
      else { p with polls := p.polls + 1, sent := p.sent + 1, map } := by
  by_cases success : ended.success
  · by_cases unusable : Web.parseFix ended.body = none ∨ ended.drawable = false
    · refine ⟨p.map, ?_⟩
      rw [finish_success success, if_pos ⟨success, unusable⟩, after, Action.result_bind,
        result_showFirst, if_pos unusable]
    · refine ⟨true, ?_⟩
      rw [finish_success success, if_neg fun throws => unusable throws.2, after, Action.result_bind,
        result_showFirst, if_neg unusable]
      rfl
  · have returns : ¬ ended.Throws := fun throws => success throws.1
    by_cases refused : 400 ≤ ended.status
    · exact ⟨true, by rw [finish_refused refused, if_neg returns]; rfl⟩
    · rw [finish_other success refused]
      simp only [if_neg returns]
      split
      · exact ⟨true, rfl⟩
      · exact ⟨p.map, rfl⟩

/-- A polling request arms the timer unless it throws. -/
theorem finish_poll (ended : Completion) (p : Page) :
    finish ended (onFix ended) (pure ()) armTimer p =
      if ended.Throws ∨ ended.success ∧ p.map = false then p else after armTimer p := by
  by_cases success : ended.success
  · by_cases unusable : (Web.parseFix ended.body = none ∨ ended.drawable = false) ∨ p.map = false
    · rw [finish_success success, if_pos (unusable.imp (⟨success, ·⟩) (⟨success, ·⟩)), after,
        Action.result_bind, result_onFix, if_pos unusable]
    · have returns : ¬ (ended.Throws ∨ ended.success ∧ p.map = false) :=
        fun throws => unusable (throws.imp And.right And.right)
      rw [finish_success success, if_neg returns, after, Action.result_bind, result_onFix,
        if_neg unusable]
      rfl
  · rw [if_neg fun throws => success (throws.elim And.left And.left)]
    by_cases refused : 400 ≤ ended.status
    · rw [finish_refused refused]
      rfl
    · rw [finish_other success refused]
      split <;> rfl

end Finish

/-! ## One chain -/

/-- What is alive: polling requests in flight and pending timers. -/
def alive (p : Page) : Nat := p.polls + p.timers.length

/-- What the page cannot deal with: it is shown while a request is in flight, or
a request ends without an exception while it is hidden. -/
def Steady (p : Page) : PageEvent → Prop
  | .visible => p.initial = false ∧ p.polls = 0
  | .initial ended => p.visible = true ∨ ended.Throws
  | .poll ended => p.visible = true ∨ ended.Throws ∨ ended.success ∧ p.map = false
  | .hidden | .timer _ => True

/-- The steps of a page that stays out of that. -/
def SteadyStep (p : Page) (e : PageEvent) (q : Page) : Prop := Step p e q ∧ p.Steady e

/-- The invariant: one chain, none before the initial request has ended or while
the page is hidden, and the pending timer is the one `timeout` names. -/
structure OneChain (p : Page) : Prop where
  single : p.alive ≤ 1
  named : ∀ h ∈ p.timers, p.timeout = some h
  before : p.initial = true → p.polls = 0 ∧ p.timers = []
  hidden : p.visible = false → p.timers = []

theorem OneChain.load (visible : Bool) : OneChain (.load visible) :=
  ⟨by simp [alive, Page.load], by simp [Page.load], by simp [Page.load], by simp [Page.load]⟩

/-! What each event does, where it can happen. -/

theorem step_visible : Step p .visible q ↔
    p.visible = false ∧ q = { p with visible := true, polls := p.polls + 1, sent := p.sent + 1 } := by
  cases visible : p.visible <;> simp [Step, step, visible, eq_comm, after, getLastFix]

theorem step_hidden : Step p .hidden q ↔ p.visible = true ∧
    q = { p with visible := false, timers := p.timers.filter fun h => some h ≠ p.timeout } := by
  cases visible : p.visible <;> simp [Step, step, visible, eq_comm, after, clearTimer]

theorem step_timer {h : Nat} : Step p (.timer h) q ↔ h ∈ p.timers ∧
    q = { p with timers := p.timers.erase h, polls := p.polls + 1, sent := p.sent + 1 } := by
  by_cases pending : h ∈ p.timers <;> simp [Step, step, pending, eq_comm, after, getLastFix]

theorem step_initial {ended : Completion} (taken : Step p (.initial ended) q) :
    p.initial = true ∧ ∃ map, q = if ended.Throws then { p with initial := false, map }
      else { p with initial := false, polls := p.polls + 1, sent := p.sent + 1, map } := by
  unfold Step step at taken
  simp only at taken
  split at taken
  · rename_i initial
    obtain ⟨map, finished⟩ := finish_initial ended { p with initial := false }
    rw [finished] at taken
    exact ⟨initial, map, (Option.some.inj taken).symm⟩
  · cases taken

theorem step_poll {ended : Completion} (taken : Step p (.poll ended) q) :
    0 < p.polls ∧ q = if ended.Throws ∨ ended.success ∧ p.map = false then { p with polls := p.polls - 1 }
      else after armTimer { p with polls := p.polls - 1 } := by
  unfold Step step at taken
  simp only [finish_poll] at taken
  split at taken
  · rename_i flying
    exact ⟨flying, (Option.some.inj taken).symm⟩
  · cases taken

/-! What each event keeps. -/

namespace OneChain

/-- With no request in flight, showing the page starts the one chain. -/
theorem shown (h : OneChain p) (dark : p.visible = false) (ended : p.initial = false) (none : p.polls = 0) :
    OneChain { p with visible := true, polls := p.polls + 1, sent := p.sent + 1 } := by
  constructor
  · simp [alive, none, h.hidden dark]
  · exact h.named
  · intro initial
    rw [ended] at initial
    cases initial
  · intro dark
    cases dark

/-- The handle in `timeout` is the only one to clear. -/
theorem cleared (h : OneChain p) : (p.timers.filter fun h => some h ≠ p.timeout) = [] := by
  rw [List.filter_eq_nil_iff]
  intro handle pending
  simp [h.named handle pending]

theorem hides (h : OneChain p) :
    OneChain { p with visible := false, timers := p.timers.filter fun h => some h ≠ p.timeout } := by
  rw [h.cleared]
  have single := h.single
  constructor
  · rw [alive] at single ⊢
    show p.polls + 0 ≤ 1
    omega
  · intro handle pending
    cases pending
  · intro initial
    exact ⟨(h.before initial).1, rfl⟩
  · intro dark
    rfl

/-- A pending timer is the whole chain, and the page is visible. -/
theorem pending (h : OneChain p) {handle : Nat} (pending : handle ∈ p.timers) :
    p.polls = 0 ∧ p.timers = [handle] ∧ p.initial = false ∧ p.visible = true := by
  have single := h.single
  have positive := List.length_pos_of_mem pending
  rw [alive] at single
  obtain ⟨timer, only⟩ := List.length_eq_one_iff.mp (show p.timers.length = 1 by omega)
  rw [only, List.mem_singleton] at pending
  refine ⟨by omega, by rw [only, pending], ?_, ?_⟩
  · apply Bool.eq_false_iff.mpr
    intro initial
    rw [(h.before initial).2] at only
    cases only
  · apply Bool.of_not_eq_false
    intro dark
    rw [h.hidden dark] at only
    cases only

/-- A polling request in flight is the whole chain. -/
theorem flying (h : OneChain p) (flying : 0 < p.polls) :
    p.polls = 1 ∧ p.timers = [] ∧ p.initial = false := by
  have single := h.single
  rw [alive] at single
  refine ⟨by omega, List.eq_nil_of_length_eq_zero (by omega), ?_⟩
  apply Bool.eq_false_iff.mpr
  intro initial
  rw [(h.before initial).1] at flying
  cases flying

theorem fires (h : OneChain p) {handle : Nat} (due : handle ∈ p.timers) :
    OneChain { p with timers := p.timers.erase handle, polls := p.polls + 1, sent := p.sent + 1 } := by
  obtain ⟨none, only, ended, lit⟩ := h.pending due
  constructor <;> simp [alive, none, only, ended]

theorem loaded (h : OneChain p) (initial : p.initial = true) (map : Bool) :
    OneChain { p with initial := false, map } ∧
      (p.visible = true →
        OneChain { p with initial := false, polls := p.polls + 1, sent := p.sent + 1, map }) := by
  obtain ⟨none, quiet⟩ := h.before initial
  constructor
  · constructor <;> simp [alive, none, quiet]
  · intro lit
    constructor <;> simp [alive, none, quiet]

theorem polled (h : OneChain p) (inFlight : 0 < p.polls) :
    OneChain { p with polls := p.polls - 1 } ∧
      (p.visible = true → OneChain (after armTimer { p with polls := p.polls - 1 })) := by
  obtain ⟨one, quiet, ended⟩ := h.flying inFlight
  constructor
  · constructor <;> simp [alive, one, quiet]
  · intro lit
    constructor <;> simp [alive, after, armTimer, one, quiet, ended, lit]

/-- **One step in steady use keeps the one chain, and is quiet while the page is hidden.** -/
theorem step (h : OneChain p) {e : PageEvent} (taken : SteadyStep p e q) :
    OneChain q ∧ (q.visible = false → q.sent = p.sent) := by
  obtain ⟨taken, steady⟩ := taken
  cases e with
  | visible =>
    obtain ⟨dark, rfl⟩ := step_visible.mp taken
    obtain ⟨ended, none⟩ := steady
    refine ⟨h.shown dark ended none, ?_⟩
    intro dark
    cases dark
  | hidden =>
    obtain ⟨_, rfl⟩ := step_hidden.mp taken
    exact ⟨h.hides, fun _ => rfl⟩
  | timer handle =>
    obtain ⟨due, rfl⟩ := step_timer.mp taken
    obtain ⟨_, _, _, lit⟩ := h.pending due
    refine ⟨h.fires due, ?_⟩
    intro dark
    rw [lit] at dark
    cases dark
  | initial ended =>
    obtain ⟨initial, map, rfl⟩ := step_initial taken
    obtain ⟨throws, starts⟩ := h.loaded initial map
    split
    · exact ⟨throws, fun _ => rfl⟩
    · rename_i returns
      have lit : p.visible = true := steady.resolve_right returns
      refine ⟨starts lit, ?_⟩
      intro dark
      rw [lit] at dark
      cases dark
  | poll ended =>
    obtain ⟨inFlight, rfl⟩ := step_poll taken
    obtain ⟨throws, arms⟩ := h.polled inFlight
    split
    · exact ⟨throws, fun _ => rfl⟩
    · rename_i returns
      exact ⟨arms (steady.resolve_right returns), fun _ => rfl⟩

end OneChain

theorem OneChain.run {visible : Bool} {trace : List PageEvent}
    (run : Run SteadyStep (Page.load visible) trace p) : OneChain p :=
  run.invariant OneChain (fun _ _ _ h taken => (h.step taken).1) (.load visible)

/-- **In steady use there is one polling chain, and none starts a request while
the page is hidden.** -/
theorem polling_single (visible : Bool) (trace : List PageEvent) (p : Page)
    (run : Run SteadyStep (load visible) trace p) :
    p.polls + p.timers.length ≤ 1 ∧
      ∀ e q, SteadyStep p e q → q.visible = false → q.sent = p.sent :=
  ⟨(OneChain.run run).single, fun _ _ taken => ((OneChain.run run).step taken).2⟩

/-- A page that was loaded, got its first answer and was hidden and shown again. -/
theorem polling_single_shown : ∃ p : Page, p.sent = 2 ∧ p.polls + p.timers.length ≤ 1 :=
  ⟨⟨true, false, 1, 2, [], some 1, 1, true⟩, rfl, (polling_single true
    [.initial ⟨404, [], true⟩, .poll ⟨404, [], true⟩, .hidden, .visible] _
    (.cons (m := ⟨true, false, 1, 1, [], none, 0, true⟩) ⟨by decide, .inl rfl⟩
      (.cons (m := ⟨true, false, 0, 1, [1], some 1, 1, true⟩) ⟨by decide, .inl rfl⟩
        (.cons (m := ⟨false, false, 0, 1, [], some 1, 1, true⟩) ⟨by decide, trivial⟩
          (.single ⟨by decide, rfl, rfl⟩))))).1⟩

/-- Hidden and shown again while a polling request is in flight, the page has two. -/
theorem not_polling_single : ¬ ∀ visible trace p, Run Step (load visible) trace p →
    p.polls + p.timers.length ≤ 1 ∧ ∀ e q, Step p e q → q.visible = false → q.sent = p.sent := by
  intro always
  have run : Run Step (load true) [.initial ⟨404, [], true⟩, .hidden, .visible]
      ⟨true, false, 2, 2, [], none, 0, true⟩ :=
    .cons (m := ⟨true, false, 1, 1, [], none, 0, true⟩) (by decide)
      (.cons (m := ⟨false, false, 1, 1, [], none, 0, true⟩) (by decide) (.single (by decide)))
  have few := (always _ _ _ run).1
  revert few
  decide

/-- A second chain, or a polling request made while the page is hidden. -/
def Violates (p q : Page) : Prop := 1 < q.alive ∨ q.visible = false ∧ q.sent ≠ p.sent

/-- **Out of steady use it takes one more event at most to see it.** -/
theorem violates_of_unsteady {e : PageEvent} (taken : Step p e q) (unsteady : ¬ p.Steady e) :
    Violates p q ∨ ∃ e' r, Step q e' r ∧ Violates q r := by
  cases e with
  | visible =>
    obtain ⟨dark, rfl⟩ := step_visible.mp taken
    by_cases flying : p.polls = 0
    · -- the request of the load is still in flight and starts a chain of its own
      have initial : p.initial = true := by
        cases initial : p.initial with
        | true => rfl
        | false => exact (unsteady ⟨initial, flying⟩).elim
      obtain ⟨map, finished⟩ := finish_initial ⟨404, [], true⟩
        { p with visible := true, initial := false, polls := p.polls + 1, sent := p.sent + 1 }
      have returns : ¬ (⟨404, [], true⟩ : Completion).Throws := by decide
      rw [if_neg returns] at finished
      refine .inr ⟨.initial ⟨404, [], true⟩, _, (if_pos initial).trans (congrArg some finished), .inl ?_⟩
      show 1 < p.polls + 1 + 1 + p.timers.length
      omega
    · refine .inl (.inl ?_)
      show 1 < p.polls + 1 + p.timers.length
      omega
  | hidden => exact (unsteady trivial).elim
  | timer handle => exact (unsteady trivial).elim
  | initial ended =>
    obtain ⟨_, map, rfl⟩ := step_initial taken
    rw [Steady, not_or] at unsteady
    rw [if_neg unsteady.2]
    refine .inl (.inr ⟨Bool.eq_false_iff.mpr unsteady.1, ?_⟩)
    show p.sent + 1 ≠ p.sent
    omega
  | poll ended =>
    obtain ⟨_, rfl⟩ := step_poll taken
    rw [Steady, not_or] at unsteady
    rw [if_neg unsteady.2]
    -- the timer armed while the page is hidden fires
    refine .inr ⟨.timer (p.handle + 1), _, step_timer.mpr ⟨?_, rfl⟩, .inr ⟨?_, ?_⟩⟩
    · simp [after, armTimer]
    · simpa [after, armTimer] using unsteady.1
    · simp [after, armTimer]

end Page

end Zouipocar
