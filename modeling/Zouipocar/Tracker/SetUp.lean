import Zouipocar.Tracker.Program

/-!
# The order of the calls of `main`

The set-up is a word of one language: each stage is a command that is called
again until it returns the code it has to, and the stages follow each other in
one order; a connection that `enable_ntp` opened is closed before the loop. What
follows is the loop, which makes the calls it makes on the codes alone.
-/

namespace Zouipocar
set_option autoImplicit false
open Lib Computability

/-- A place, with the code its call returned. -/
abbrev Visit := Place × Int

/-- The control flow of `main`. -/
def Place.Step (p : Place) (v : Visit) (q : Place) : Prop := v.1 = p ∧ q = p.next v.2

/-- The places before the endless loop. -/
def settingUp : Set Place := {p | ∀ m, p ≠ .loop m}

/-- A call is repeated until it returns the expected code. -/
def tried (p : Place) (expected : ATRetCode) : Language Visit :=
  (letters {v | v.1 = p ∧ v.2 ≠ expected.value})∗ * letters {v | v = (p, expected.value)}

/-- The time server, whose connection has to be closed when it was opened. -/
def ntp : Language Visit :=
  letters {v | v = (.enableNtp, ATRetCode.ok.value)} * tried .closeNtp .ok +
    letters {v | v.1 = .enableNtp ∧ v.2 ≠ ATRetCode.ok.value}

/-- What `main` calls before its loop. -/
def setUp : Language Visit :=
  tried .disableEcho .ok * (tried .setIpMultiplexing .ok * (tried .setSmsTextMode .ok *
    (tried .udpUseDomain .ok * (tried .setApn .ok * (tried .checkNetworkStatus .netstateRegistered *
      (ntp * (letters {v | v.1 = .enableEpo} * tried .enableGps .ok)))))))

/-- One `LOOP_UNTIL_VALUE`. -/
theorem through_tried {p n : Place} {expected : ATRetCode} (here : p ∈ settingUp)
    (loops : p.next = Place.untilValue p n expected) :
    Through Place.Step p (tried p expected) n settingUp := by
  refine Through.retry here ⟨(p, expected.value), rfl⟩ ?_
  rintro ⟨_, code⟩ t ⟨rfl, rfl⟩
  rw [loops, Place.untilValue]
  by_cases fails : code ≠ expected.value
  · exact .inl ⟨⟨rfl, fails⟩, if_pos fails⟩
  · exact .inr ⟨by rw [not_not.mp fails]; rfl, if_neg fails⟩

theorem through_ntp : Through Place.Step .enableNtp ntp .enableEpo settingUp := by
  refine Through.detour (by simp [settingUp]) ⟨(.enableNtp, 1), rfl, by decide⟩ ?_
    (through_tried (by simp [settingUp]) rfl)
  rintro ⟨_, code⟩ t ⟨rfl, rfl⟩
  by_cases opened : code = ATRetCode.ok.value
  · exact .inl ⟨by rw [opened]; rfl, if_pos opened⟩
  · exact .inr ⟨⟨rfl, opened⟩, if_neg opened⟩

theorem through_enableEpo : Through Place.Step .enableEpo (letters {v | v.1 = .enableEpo}) .enableGps settingUp := by
  refine Through.once (by simp [settingUp]) ⟨(.enableEpo, 0), rfl⟩ ?_
  rintro ⟨_, code⟩ t ⟨rfl, rfl⟩
  exact ⟨rfl, rfl⟩

/-- **The set-up is one word of its language.** -/
theorem through_setUp : Through Place.Step .disableEcho setUp (.loop .start) settingUp := by
  have echo := through_tried (p := .disableEcho) (by simp [settingUp]) rfl
  have ip := through_tried (p := .setIpMultiplexing) (by simp [settingUp]) rfl
  have sms := through_tried (p := .setSmsTextMode) (by simp [settingUp]) rfl
  have domain := through_tried (p := .udpUseDomain) (by simp [settingUp]) rfl
  have apn := through_tried (p := .setApn) (by simp [settingUp]) rfl
  have network := through_tried (p := .checkNetworkStatus) (by simp [settingUp]) rfl
  have gps := through_tried (p := .enableGps) (by simp [settingUp]) rfl
  exact echo.trans (ip.trans (sms.trans (domain.trans (apn.trans (network.trans
    (through_ntp.trans (through_enableEpo.trans gps)))))))

/-! ## The loop -/

/-- The call made at a point of the loop. -/
def Point.output (code : Int) : Point → Output
  | .getIpStatus => .getIpStatus code
  | .udpDeact => .udpDeact code
  | .udpOpen => .udpOpen code
  | .getGpsData => .getGpsData code
  | .udpSend => .udpSend code

/-- The call of a visit, as the loop sees it. -/
def Visit.output : Visit → Option Output
  | (.loop m, code) => some (m.point.output code)
  | _ => none

/-- The calls among what the loop did. -/
def calls (trace : List Output) : List Output := trace.filter fun o => !o.isNote

theorem Main.notifications (m : Main) : (∀ o ∈ m.notifyLost.2, o.isNote) ∧
    (∀ o ∈ m.notifyTrying.2, o.isNote) ∧ ∀ o ∈ m.notifyConnected.2, o.isNote := by
  simp only [notifyLost, notifyTrying, notifyConnected]
  refine ⟨?_, ?_, ?_⟩ <;> split <;> simp [Output.isNote]

theorem Main.withStatus_isNote (m : Main) (ipStatus : Int) : ∀ o ∈ (m.withStatus ipStatus).2, o.isNote := by
  intro o inside
  unfold withStatus at inside
  dsimp only at inside
  split at inside
  · split at inside
    · rcases List.mem_append.mp inside with lost | trying
      · exact (notifications _).1 o lost
      · exact (notifications _).2.1 o trying
    · exact (notifications _).1 o inside
  · exact (notifications _).2.2 o inside

/-- A step of the loop makes one call. -/
theorem calls_step (m : Main) (code : Int) : calls (m.step code).2 = [m.point.output code] := by
  unfold Main.step
  cases m.point with
  | getIpStatus =>
    have none : calls (m.withStatus code).2 = [] := by
      apply List.filter_eq_nil_iff.mpr
      intro o inside
      rw [m.withStatus_isNote code o inside]
      decide
    show .getIpStatus code :: calls (m.withStatus code).2 = _
    rw [none]
    rfl
  | _ => rfl

theorem Main.run_snoc (codes : List Int) (code : Int) : Main.run (codes ++ [code]) =
    (((Main.run codes).1.step code).1, (Main.run codes).2 ++ ((Main.run codes).1.step code).2) := by
  rw [Main.run, List.foldl_append]
  rfl

/-- **From its head on `main` is the loop on the codes that were returned.** -/
theorem loop_run {trace : List Visit} {q : Place} (run : Run Place.Step (.loop .start) trace q) :
    q = .loop (Main.run (trace.map Prod.snd)).1 ∧
      trace.filterMap Visit.output = calls (Main.run (trace.map Prod.snd)).2 := by
  induction run with
  | refl => exact ⟨rfl, rfl⟩
  | @snoc m q trace v _ last ih =>
    obtain ⟨rfl, made⟩ := ih
    obtain ⟨place, code⟩ := v
    obtain ⟨rfl, rfl⟩ := last
    rw [List.map_append, List.map_singleton, Main.run_snoc]
    refine ⟨rfl, ?_⟩
    rw [List.filterMap_append, made, calls, calls, List.filter_append]
    congr 1
    exact (calls_step _ _).symm

/-! ## The whole program -/

section Program

variable {float : CFloat → BitVec 32} {uart : Nat → Wait} {p q : Program} {trace : List Turn}

/-- The places a run visits, with the codes. -/
def visits (trace : List Turn) : List Visit := trace.map fun e => (e.place, e.code)

theorem Program.Step.place_step {e : Turn} (taken : Program.Step float uart p e q) :
    Place.Step p.place (e.place, e.code) q.place := by
  obtain ⟨fuel, board, -, place, -, -, -, rfl⟩ := Program.step_cases taken
  exact ⟨place, rfl⟩

theorem visits_run (run : Run (Program.Step float uart) p trace q) :
    Run Place.Step p.place (visits trace) q.place :=
  run.map Program.place (fun e => (e.place, e.code)) fun _ _ _ => Program.Step.place_step

/-- **`main` sets the modem up in its order, and then makes the calls of its loop.** -/
theorem main_order (line : Serial) (fix : FixOf CFloat)
    (run : Run (Program.Step float uart) (.reset line fix) trace q) :
    (q.place ∈ settingUp ∧ ∃ more, visits trace ++ more ∈ setUp) ∨
      ∃ first ∈ setUp, ∃ rest, visits trace = first ++ rest ∧
        q.place = .loop (Main.run (rest.map Prod.snd)).1 ∧
        rest.filterMap Visit.output = calls (Main.run (rest.map Prod.snd)).2 := by
  rcases through_setUp _ _ (visits_run run) with before | ⟨first, word, rest, whole, onward⟩
  · exact .inl before
  · exact .inr ⟨first, word, rest, whole, loop_run onward⟩

/-- The drive gets through the set-up. -/
theorem main_order_driven : ∃ first ∈ setUp, ∃ rest, visits (driven.get driven_isSome).1 = first ++ rest ∧
    rest.filterMap Visit.output = calls (Main.run (rest.map Prod.snd)).2 := by
  have inLoop : (driven.get driven_isSome).2.place = .loop ⟨.getIpStatus, false, false, true⟩ := by decide +kernel
  rcases main_order _ _ driven_run with ⟨before, -⟩ | ⟨first, word, rest, whole, -, made⟩
  · exact absurd inLoop (before _)
  · exact ⟨first, word, rest, whole, made⟩

end Program

end Zouipocar
