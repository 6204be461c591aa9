import Zouipocar.Lib.Transition
import Zouipocar.Tracker.ReturnCodes

/-!
# The connection and send loop

After its set-up `main` polls the state of the connection, reopens it when it
is lost and sends one fix per turn. The loop is a function of the codes its
calls return: between two calls it only looks at the last code and at three
flags, which keep each notification from being given twice.
-/

namespace Zouipocar
set_option autoImplicit false
open Lib

/-- The call `main` makes next. -/
inductive Point
  | getIpStatus
  | udpDeact
  | udpOpen
  | getGpsData
  | udpSend
deriving DecidableEq

/-- The calls with the codes they return, and the notification points. -/
inductive Output
  | getIpStatus (code : Int)
  | udpDeact (code : Int)
  | udpOpen (code : Int)
  | getGpsData (code : Int)
  | udpSend (code : Int)
  | notConnected -- "Not connected to server"
  | trying -- "Trying to enter IP INITIAL state"
  | connected -- "Connected to server"
deriving DecidableEq

structure Main where
  point : Point
  connectionLostSmsSent : Bool
  tryingToConnectSmsSent : Bool
  connectedSmsSent : Bool

namespace Main

/-- At the head of the endless loop. -/
def start : Main where
  point := .getIpStatus
  connectionLostSmsSent := true
  tryingToConnectSmsSent := true
  connectedSmsSent := false

/-- `if (connection_lost_sms_sent == 0) …` -/
def notifyLost (m : Main) : Main × List Output :=
  if m.connectionLostSmsSent = false then
    ({ m with connectionLostSmsSent := true }, [.notConnected])
  else (m, [])

/-- `if (trying_to_connect_sms_sent == 0) …` -/
def notifyTrying (m : Main) : Main × List Output :=
  if m.tryingToConnectSmsSent = false then
    ({ m with tryingToConnectSmsSent := true }, [.trying])
  else (m, [])

/-- `if (connected_sms_sent == 0) …` -/
def notifyConnected (m : Main) : Main × List Output :=
  if m.connectedSmsSent = false then
    ({ m with connectedSmsSent := true, connectionLostSmsSent := false,
              tryingToConnectSmsSent := false }, [.connected])
  else (m, [])

/-- The test of the inner loop, and what follows up to the next call. -/
def withStatus (m : Main) (ipStatus : Int) : Main × List Output :=
  if ipStatus ≠ ATRetCode.ipstateConnectOk.value then
    let (m, lost) := { m with connectedSmsSent := false }.notifyLost
    if ipStatus ≠ ATRetCode.ipstateInitial.value then
      let (m, trying) := m.notifyTrying
      ({ m with point := .udpDeact }, lost ++ trying)
    else ({ m with point := .udpOpen }, lost)
  else
    let (m, connected) := m.notifyConnected
    ({ m with point := .getGpsData }, connected)

/-- The next call returns a code. -/
def step (m : Main) (code : Int) : Main × List Output :=
  match m.point with
  | .getIpStatus =>
    let (m, notes) := m.withStatus code
    (m, .getIpStatus code :: notes)
  | .udpDeact =>
    -- LOOP_UNTIL_VALUE(udp_deact(), AT_OK, WAIT_FAIL)
    ({ m with point := if code ≠ ATRetCode.ok.value then .udpDeact else .udpOpen }, [.udpDeact code])
  | .udpOpen => ({ m with point := .getIpStatus }, [.udpOpen code])
  | .getGpsData =>
    ({ m with point := if code = ATRetCode.ok.value then .udpSend else .getIpStatus }, [.getGpsData code])
  | .udpSend => ({ m with point := .getIpStatus }, [.udpSend code])

/-- The loop on a sequence of codes, with everything it did. -/
def run (codes : List Int) : Main × List Output :=
  codes.foldl (fun (m, trace) code =>
    let (m, out) := m.step code
    (m, trace ++ out)) (start, [])

end Main

/-- The latest status, and what was done since it was returned. -/
def LatestStatus (trace : List Output) (status : Int) (since : List Output) : Prop :=
  ∃ earlier, trace = earlier ++ .getIpStatus status :: since ∧ ∀ code, .getIpStatus code ∉ since

/-- What the state of the connection must be for a call. -/
def Allowed (before : List Output) : Output → Prop
  | .udpSend _ => ∃ since, LatestStatus before ATRetCode.ipstateConnectOk.value since
  | .udpOpen _ => ∃ status since, LatestStatus before status since ∧
      (status = ATRetCode.ipstateInitial.value ∨ .udpDeact ATRetCode.ok.value ∈ since)
  | _ => True

def Output.isNote : Output → Bool
  | .notConnected | .trying | .connected => true
  | _ => false

/-- The notification points reached. -/
def notes (trace : List Output) : List Output := trace.filter Output.isNote

/-- The notifications take turns. -/
structure Alternates (notes : List Output) : Prop where
  first : ∀ note rest, notes = note :: rest → note = .connected
  between : ∀ before middle after, notes = before ++ .connected :: middle ++ .connected :: after →
    .connected ∉ middle → middle = [.notConnected] ∨ middle = [.notConnected, .trying]

/-! ## The latest status -/

theorem LatestStatus.here (trace : List Output) (status : Int) :
    LatestStatus (trace ++ [.getIpStatus status]) status [] :=
  ⟨trace, rfl, by simp⟩

theorem LatestStatus.append {trace more since : List Output} {status : Int}
    (h : LatestStatus trace status since) (silent : ∀ code, .getIpStatus code ∉ more) :
    LatestStatus (trace ++ more) status (since ++ more) := by
  obtain ⟨earlier, rfl, none⟩ := h
  refine ⟨earlier, by simp, fun code inside => ?_⟩
  rcases List.mem_append.mp inside with before | after
  · exact none code before
  · exact silent code after

/-- Notifications are always allowed, and are no status. -/
theorem obeys_notes {trace out : List Output} (h : Obeys Allowed trace) (only : ∀ o ∈ out, o.isNote) :
    Obeys Allowed (trace ++ out) := by
  induction out generalizing trace with
  | nil => rwa [List.append_nil]
  | cons o rest ih =>
    obtain ⟨note, others⟩ := List.forall_mem_cons.mp only
    rw [List.append_cons]
    apply ih _ others
    apply h.snoc
    cases o <;> trivial

theorem not_mem_notes {out : List Output} (only : ∀ o ∈ out, o.isNote) (code : Int) :
    .getIpStatus code ∉ out := by
  intro inside
  cases only _ inside

/-! ## The notifications -/

/-- What was notified last; before the first connection it is as while trying. -/
inductive Phase
  | up | lost | trying

/-- The notifications so far, with the phase they lead to. -/
inductive Notified : List Output → Phase → Prop
  | start : Notified [] .trying
  | connected {notes : List Output} {phase : Phase} : Notified notes phase → phase ≠ .up →
      Notified (notes ++ [.connected]) .up
  | lost {notes : List Output} : Notified notes .up → Notified (notes ++ [.notConnected]) .lost
  | trying {notes : List Output} : Notified notes .lost → Notified (notes ++ [.trying]) .trying

/-- The flags of a phase. -/
def Main.Flags (m : Main) : Phase → Prop
  | .up => m.connectedSmsSent = true ∧ m.connectionLostSmsSent = false ∧ m.tryingToConnectSmsSent = false
  | .lost => m.connectedSmsSent = false ∧ m.connectionLostSmsSent = true ∧
      m.tryingToConnectSmsSent = false
  | .trying => m.connectedSmsSent = false ∧ m.connectionLostSmsSent = true ∧
      m.tryingToConnectSmsSent = true

/-- What follows the last connection. -/
def Phase.since : Phase → List Output
  | .up => []
  | .lost => [.notConnected]
  | .trying => [.notConnected, .trying]

theorem Notified.since {notes : List Output} {phase : Phase} (h : Notified notes phase) :
    ∀ before middle, notes = before ++ .connected :: middle → .connected ∉ middle →
      middle = phase.since := by
  induction h with
  | start =>
    intro before middle whole
    simp at whole
  | connected =>
    intro before middle whole apart
    rcases snoc_eq_append_cons whole with ⟨rfl, _⟩ | ⟨short, rfl, _⟩
    · rfl
    · simp at apart
  | lost _ ih | trying _ ih =>
    intro before middle whole apart
    rcases snoc_eq_append_cons whole with ⟨_, _, same⟩ | ⟨short, rfl, earlier⟩
    · cases same
    · rw [ih before short earlier fun inside => apart (List.mem_append_left _ inside)]
      rfl

/-- A connection follows another phase. -/
theorem Notified.before {notes : List Output} {phase : Phase} (h : Notified notes phase) :
    ∀ before after, notes = before ++ .connected :: after →
      ∃ earlier, Notified before earlier ∧ earlier ≠ .up := by
  induction h with
  | start =>
    intro before after whole
    simp at whole
  | connected previous other ih =>
    intro before after whole
    rcases snoc_eq_append_cons whole with ⟨_, rfl, _⟩ | ⟨short, _, earlier⟩
    · exact ⟨_, previous, other⟩
    · exact ih before short earlier
  | lost _ ih | trying _ ih =>
    intro before after whole
    rcases snoc_eq_append_cons whole with ⟨_, _, same⟩ | ⟨short, _, earlier⟩
    · cases same
    · exact ih before short earlier

theorem Notified.head {notes : List Output} {phase : Phase} (h : Notified notes phase) :
    notes.head?.getD .connected = .connected ∧ (phase ≠ .trying → notes ≠ []) := by
  induction h with
  | start => exact ⟨rfl, fun other => (other rfl).elim⟩
  | @connected notes _ _ _ ih =>
    refine ⟨?_, by simp⟩
    cases notes with
    | nil => rfl
    | cons => exact ih.1
  | @lost notes _ ih | @trying notes _ ih =>
    refine ⟨?_, by simp⟩
    cases notes with
    | nil => exact (ih.2 (by simp) rfl).elim
    | cons => exact ih.1

/-- Notifications in phases take turns. -/
theorem Notified.alternates {notes : List Output} {phase : Phase} (h : Notified notes phase) :
    Alternates notes := by
  constructor
  · rintro note rest rfl
    exact h.head.1
  · intro before middle after whole apart
    obtain ⟨earlier, reached, other⟩ := h.before (before ++ .connected :: middle) after whole
    rw [reached.since before middle rfl apart]
    cases earlier with
    | up => exact (other rfl).elim
    | lost => exact .inl rfl
    | trying => exact .inr rfl

namespace Main

variable {m : Main} {told : List Output} {phase : Phase}

/-! The three notifications, each told by its flag. -/

theorem notifyLost_spec (h : Notified told phase) (flags : m.Flags phase) :
    ∃ next, Notified (told ++ ({ m with connectedSmsSent := false }.notifyLost).2) next ∧
      ({ m with connectedSmsSent := false }.notifyLost).1.Flags next ∧ next ≠ .up ∧
      ∀ o ∈ ({ m with connectedSmsSent := false }.notifyLost).2, o.isNote := by
  cases phase with
  | up =>
    obtain ⟨_, lost, trying⟩ := flags
    exact ⟨.lost, by simpa [notifyLost, lost] using h.lost, by simp [notifyLost, Flags, lost, trying],
      by simp, by simp [notifyLost, lost, Output.isNote]⟩
  | lost =>
    obtain ⟨_, lost, trying⟩ := flags
    exact ⟨.lost, by simpa [notifyLost, lost] using h, by simp [notifyLost, Flags, lost, trying],
      by simp, by simp [notifyLost, lost]⟩
  | trying =>
    obtain ⟨_, lost, trying⟩ := flags
    exact ⟨.trying, by simpa [notifyLost, lost] using h, by simp [notifyLost, Flags, lost, trying],
      by simp, by simp [notifyLost, lost]⟩

theorem notifyTrying_spec (h : Notified told phase) (flags : m.Flags phase) (other : phase ≠ .up) :
    Notified (told ++ m.notifyTrying.2) .trying ∧ m.notifyTrying.1.Flags .trying ∧
      ∀ o ∈ m.notifyTrying.2, o.isNote := by
  cases phase with
  | up => exact (other rfl).elim
  | lost =>
    obtain ⟨connected, lost, trying⟩ := flags
    exact ⟨by simpa [notifyTrying, trying] using h.trying,
      by simp [notifyTrying, Flags, connected, lost, trying],
      by simp [notifyTrying, trying, Output.isNote]⟩
  | trying =>
    obtain ⟨connected, lost, trying⟩ := flags
    exact ⟨by simpa [notifyTrying, trying] using h,
      by simp [notifyTrying, Flags, connected, lost, trying], by simp [notifyTrying, trying]⟩

theorem notifyConnected_spec (h : Notified told phase) (flags : m.Flags phase) :
    Notified (told ++ m.notifyConnected.2) .up ∧ m.notifyConnected.1.Flags .up ∧
      ∀ o ∈ m.notifyConnected.2, o.isNote := by
  cases phase with
  | up =>
    obtain ⟨connected, lost, trying⟩ := flags
    exact ⟨by simpa [notifyConnected, connected] using h,
      by simp [notifyConnected, Flags, connected, lost, trying], by simp [notifyConnected, connected]⟩
  | lost | trying =>
    obtain ⟨connected, _, _⟩ := flags
    exact ⟨by simpa [notifyConnected, connected] using h.connected (by simp),
      by simp [notifyConnected, Flags, connected], by simp [notifyConnected, connected, Output.isNote]⟩

theorem flags_point {point : Point} : ({ m with point } : Main).Flags phase ↔ m.Flags phase := by
  cases phase <;> exact Iff.rfl

/-- Where the loop goes on with a status. -/
def pointAfter (ipStatus : Int) : Point :=
  if ipStatus ≠ ATRetCode.ipstateConnectOk.value then
    if ipStatus ≠ ATRetCode.ipstateInitial.value then .udpDeact else .udpOpen
  else .getGpsData

theorem withStatus_spec (h : Notified told phase) (flags : m.Flags phase) (ipStatus : Int) :
    (m.withStatus ipStatus).1.point = pointAfter ipStatus ∧
      (∀ o ∈ (m.withStatus ipStatus).2, o.isNote) ∧
      ∃ next, Notified (told ++ (m.withStatus ipStatus).2) next ∧
        (m.withStatus ipStatus).1.Flags next := by
  unfold withStatus pointAfter
  by_cases connected : ipStatus ≠ ATRetCode.ipstateConnectOk.value
  · obtain ⟨next, notified, set, other, only⟩ := notifyLost_spec h flags
    by_cases initial : ipStatus ≠ ATRetCode.ipstateInitial.value
    · obtain ⟨notified', set', only'⟩ := notifyTrying_spec notified set other
      simp only [if_pos connected, if_pos initial]
      refine ⟨trivial, fun o inside => ?_, .trying, ?_, flags_point.mpr set'⟩
      · rcases List.mem_append.mp inside with lost | trying
        · exact only o lost
        · exact only' o trying
      · rwa [← List.append_assoc]
    · simp only [if_pos connected, if_neg initial]
      exact ⟨trivial, only, next, notified, flags_point.mpr set⟩
  · obtain ⟨notified, set, only⟩ := notifyConnected_spec h flags
    simp only [if_neg connected]
    exact ⟨trivial, only, .up, notified, flags_point.mpr set⟩

end Main

/-! ## The invariant -/

/-- What is known of the connection at a call. -/
def Ready (trace : List Output) : Point → Prop
  | .getIpStatus => True
  | .udpDeact => ∃ status since, LatestStatus trace status since
  | .udpOpen => ∃ status since, LatestStatus trace status since ∧
      (status = ATRetCode.ipstateInitial.value ∨ .udpDeact ATRetCode.ok.value ∈ since)
  | .getGpsData | .udpSend => ∃ since, LatestStatus trace ATRetCode.ipstateConnectOk.value since

structure Main.Inv (trace : List Output) (m : Main) : Prop where
  obeys : Obeys Allowed trace
  notified : ∃ phase, Notified (notes trace) phase ∧ m.Flags phase
  ready : Ready trace m.point

namespace Main.Inv

variable {trace : List Output} {m : Main}

theorem start : Main.Inv [] .start :=
  ⟨obeys_nil _, ⟨.trying, .start, by simp [Main.Flags, Main.start]⟩, trivial⟩

/-- A call other than `get_ip_status`, after which the loop goes on elsewhere. -/
theorem call (h : Main.Inv trace m) {o : Output} {point : Point} (allowed : Allowed trace o)
    (noted : o.isNote = false) (ready : Ready (trace ++ [o]) point) :
    Main.Inv (trace ++ [o]) { m with point } := by
  obtain ⟨phase, notified, flags⟩ := h.notified
  refine ⟨h.obeys.snoc allowed, ⟨phase, ?_, Main.flags_point.mpr flags⟩, ready⟩
  simpa [notes, noted] using notified

theorem getIpStatus (h : Main.Inv trace m) (code : Int) :
    Main.Inv (trace ++ .getIpStatus code :: (m.withStatus code).2) (m.withStatus code).1 := by
  obtain ⟨phase, notified, flags⟩ := h.notified
  obtain ⟨point, only, next, notified', flags'⟩ := Main.withStatus_spec notified flags code
  have latest := (LatestStatus.here trace code).append (not_mem_notes only)
  rw [List.append_cons]
  refine ⟨obeys_notes (h.obeys.snoc trivial) only, ⟨next, ?_, flags'⟩, ?_⟩
  · have kept : (m.withStatus code).2.filter Output.isNote = (m.withStatus code).2 :=
      List.filter_eq_self.mpr only
    simpa [notes, kept, Output.isNote] using notified'
  · rw [point, Main.pointAfter]
    split
    · split
      · exact ⟨code, _, latest⟩
      · rename_i initial
        exact ⟨code, _, latest, .inl (not_not.mp initial)⟩
    · rename_i connected
      rw [not_not.mp connected] at latest ⊢
      exact ⟨_, latest⟩

/-- A status stays the latest over another call. -/
theorem latest {status : Int} {since : List Output} (h : LatestStatus trace status since) {o : Output}
    (other : ∀ code, o ≠ .getIpStatus code) : LatestStatus (trace ++ [o]) status (since ++ [o]) :=
  h.append fun code inside => other code (List.mem_singleton.mp inside).symm

/-- **One call keeps the invariant.** -/
theorem step (h : Main.Inv trace m) (code : Int) :
    Main.Inv (trace ++ (m.step code).2) (m.step code).1 := by
  have ready := h.ready
  unfold Main.step
  cases here : m.point with
  | getIpStatus => exact h.getIpStatus code
  | udpDeact =>
    rw [here] at ready
    obtain ⟨status, since, reached⟩ := ready
    have still := latest reached (o := .udpDeact code) (by simp)
    apply h.call (o := .udpDeact code) trivial rfl
    by_cases failed : code ≠ ATRetCode.ok.value
    · rw [if_pos failed]
      exact ⟨status, _, still⟩
    · rw [if_neg failed]
      rw [not_not.mp failed] at still ⊢
      exact ⟨status, _, still, .inr (by simp)⟩
  | udpOpen =>
    rw [here] at ready
    exact h.call ready rfl trivial
  | getGpsData =>
    rw [here] at ready
    obtain ⟨since, reached⟩ := ready
    apply h.call (o := .getGpsData code) trivial rfl
    split
    · exact ⟨_, latest reached (by simp)⟩
    · trivial
  | udpSend =>
    rw [here] at ready
    exact h.call ready rfl trivial

theorem run (codes : List Int) : Main.Inv (Main.run codes).2 (Main.run codes).1 := by
  unfold Main.run
  refine List.foldlRecOn (motive := fun p : Main × List Output => Main.Inv p.2 p.1) codes _ start ?_
  rintro ⟨m, trace⟩ h code _
  exact h.step code

end Main.Inv

/-- **The loop sends and opens in the right states only, and its notifications
take turns.** -/
theorem main_loop_safe (codes : List Int) :
    Obeys Allowed (Main.run codes).2 ∧ Alternates (notes (Main.run codes).2) := by
  have h := Main.Inv.run codes
  obtain ⟨phase, notified, _⟩ := h.notified
  exact ⟨h.obeys, notified.alternates⟩

/-- A lost connection that only comes back after the modem was reset. -/
example : (Main.run [25, 4, 24, -1, 0, 2, 25, 0, 0]).2 =
    [.getIpStatus 25, .connected, .getGpsData 4, .getIpStatus 24, .notConnected, .trying, .udpDeact (-1),
      .udpDeact 0, .udpOpen 2, .getIpStatus 25, .connected, .getGpsData 0, .udpSend 0] := by decide

end Zouipocar
