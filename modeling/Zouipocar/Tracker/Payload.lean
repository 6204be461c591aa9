import Zouipocar.Tracker.SetUp

/-!
# What the tracker sends

Every byte that `main` writes belongs to one of its calls, and the payload of a
datagram is the memory of a fix that was parsed one call before: from the
sentence that stands in the modem's own reply to that call. A fix of an earlier
turn, a cleared one and one of a refused sentence are never sent.
-/

namespace Zouipocar
set_option autoImplicit false
open Lib Action Rmc

/-- The fix of the sentence in a reply, which was cut out of it and accepted. -/
def Reported (reply : CString) (fix : FixOf CFloat) : Prop :=
  ∃ c : Copy, gpsGetNmeaSentence ATRetCode.ok.value reply = (.ok, some c) ∧ c.Inside nmeaSentenceMaxSize ∧
    Acceptable (tokens comma (c.slice reply)) ∧ fix = positionFix (tokens comma (c.slice reply))

/-! ## One call -/

section Calls

variable {uart : Nat → Wait} {fuel : Nat} {s t : Serial}

/-- What a call of a cutter returns is made of the response its command leaves. -/
theorem result_cut {f : Cutter} {cmdstr : CString} {code : ATRetCode} {out : Option CString}
    (ran : result (cut uart f cmdstr fuel) s = (.ok (code, out), t)) :
    result (cmd uart cmdstr f.stopWords fuel) s = (.ok (), t) ∧ ∃ copy, f.run t.port.res.retCode t.port.res.text = (code, copy) ∧
      (∀ c, copy = some c → c.Inside f.size) ∧ out = copy.map (·.slice t.port.res.text) := by
  unfold cut at ran
  rw [result_bind] at ran
  cases asked : result (cmd uart cmdstr f.stopWords fuel) s with
  | mk outcome u =>
    rw [asked] at ran
    cases outcome with
    | error => cases ran
    | ok =>
      dsimp only at ran
      rw [result_bind_ok (result_get u)] at ran
      cases found : f.run u.port.res.retCode u.port.res.text with
      | mk code' copy =>
        rw [found] at ran
        cases copy with
        | none =>
          cases ran
          exact ⟨rfl, none, found, nofun, rfl⟩
        | some c =>
          dsimp only at ran
          by_cases inside : c.Inside f.size
          · rw [if_pos inside] at ran
            cases ran
            refine ⟨rfl, some c, found, ?_, rfl⟩
            rintro _ ⟨⟩
            exact inside
          · rw [if_neg inside] at ran
            cases ran

/-- A sentence is returned for a reply that was accepted. -/
theorem gpsGetNmeaSentence_ok {retCode : Int} {data : CString} {copy : Option Copy}
    (ran : gpsGetNmeaSentence retCode data = (.ok, copy)) : retCode = ATRetCode.ok.value ∧ copy ≠ none := by
  unfold gpsGetNmeaSentence at ran
  split at ran
  · cases ran
  · rename_i accepted
    refine ⟨not_not.mp accepted, ?_⟩
    dsimp only at ran
    split at ran
    · cases ran
    · cases ran
      simp

theorem gpsGetRmc_eq (uart : Nat → Wait) (fuel : Nat) :
    gpsGetRmc uart fuel = cut uart .nmeaSentence (ascii "AT+QGNSSRD=\"NMEA/RMC\"\r") fuel := rfl

/-- **A fix is returned for a reply that reports it.** -/
theorem result_getGpsData {b b' : Board}
    (ran : result (getGpsData uart fuel) b = (.ok .ok, b')) : Reported b'.line.port.res.text b'.fix := by
  unfold getGpsData getNmeaData at ran
  rw [result_bind, onLine, result_zoom] at ran
  cases got : result (gpsGetRmc uart fuel) b.line with
  | mk outcome line =>
    rw [got] at ran
    cases outcome with
    | error => cases ran
    | ok answer =>
      obtain ⟨code, nmea⟩ := answer
      rw [gpsGetRmc_eq] at got
      obtain ⟨-, copy, cutOut, inside, rfl⟩ := result_cut got
      dsimp only at ran
      by_cases failed : code ≠ .ok
      · rw [if_pos failed] at ran
        cases ran
        exact (failed rfl).elim
      · obtain rfl := not_not.mp failed
        rw [if_neg failed] at ran
        obtain ⟨accepted, some⟩ := gpsGetNmeaSentence_ok cutOut
        obtain ⟨c, rfl⟩ := Option.ne_none_iff_exists'.mp some
        rw [Cutter.run, accepted] at cutOut
        rw [result_bind_ok (result_get _)] at ran
        dsimp only [Option.map_some, Option.getD_some] at ran
        cases parsed : processRmc (c.slice line.port.res.text) b.fix b.lib with
        | mk code after =>
          rw [parsed] at ran
          cases ran
          have ok : (processRmc (c.slice line.port.res.text) b.fix b.lib).1 = .ok := by rw [parsed]
          have fix := processRmc_fix ok
          rw [parsed] at fix
          obtain ⟨-, acceptable⟩ := (processRmc_ok_iff _ _ _).mp ok
          exact ⟨c, cutOut, inside c rfl, acceptable, fix⟩

theorem emits_getGpsData (uart : Nat → Wait) (fuel : Nat) :
    Emits (fun b : Board => b.line.tx) (getGpsData uart fuel) fun _ => Sends uart AtCommand.gpsGetRmc.text := by
  have got : Emits Serial.tx (gpsGetRmc uart fuel) fun _ => Sends uart AtCommand.gpsGetRmc.text :=
    emits_cut uart .nmeaSentence (by decide) fuel
  apply (got.zoom fun _ _ => rfl).then_quiet
  rintro ⟨code, nmea⟩
  dsimp only
  split
  · exact emits_pure _ rfl
  · intro b a b' ran
    rw [result_bind_ok (result_get b)] at ran
    cases parsed : processRmc (nmea.getD []) b.fix b.lib with
    | mk code after =>
      rw [parsed] at ran
      cases ran
      exact ⟨[], rfl, (List.append_nil _).symm⟩

variable {float : CFloat → BitVec 32} {p : Place} {b b' : Board} {code : Int}

theorem Place.command_of_parses (parses : p.parses = true) (fix : FixOf CFloat) :
    p.command float fix = .gpsGetRmc := by
  cases p with
  | loop m =>
    have here : m.point = .getGpsData := of_decide_eq_true parses
    rw [command, here, Point.command]
  | _ => cases parses

/-- **A call of `main` writes what its command writes.** -/
theorem call_emits (ran : result (p.call float uart fuel) b = (.ok code, b')) :
    ∃ w ∈ (p.command float b.fix).language uart code, b'.line.tx = b.line.tx ++ w := by
  unfold Place.call at ran
  cases parses : p.parses with
  | true =>
    rw [if_pos parses] at ran
    have quiet : ∀ code : ATRetCode, Quiet (fun b : Board => b.line.tx)
        (pure code.value : Action Board Unit Int) := fun _ => emits_pure _ rfl
    have line := AtCommand.emits_plain (c := .gpsGetRmc) rfl ((emits_getGpsData uart fuel).then_quiet quiet)
    rw [Place.command_of_parses parses]
    exact line b code b' ran
  | false =>
    have line : Emits (fun b : Board => b.line.tx) (onLine ((p.command float b.fix).run uart fuel))
        ((p.command float b.fix).language uart) :=
      (AtCommand.emits_run uart fuel (p.command float b.fix)).zoom fun _ _ => rfl
    rw [if_neg (by rw [parses]; decide), result_bind_ok (result_get b)] at ran
    exact line b code b' ran

end Calls

/-! ## Whole runs -/

/-- The call of `udp_send`. -/
def Place.sends : Place → Bool
  | loop m => m.point = .udpSend
  | _ => false

/-- The latest turn found the connection open. -/
def Online (trace : List Turn) : Prop :=
  ∃ earlier status, trace = earlier ++ [status] ∧ status.command = .getIpStatus ∧
    status.code = ATRetCode.ipstateConnectOk.value

/-- The latest turn but one found the connection open, and the latest reported the fix. -/
def JustReported (trace : List Turn) (fix : FixOf CFloat) : Prop :=
  ∃ earlier report, trace = earlier ++ [report] ∧ Online earlier ∧ report.command = .gpsGetRmc ∧
    report.code = ATRetCode.ok.value ∧ Reported report.reply fix

/-- What is sent was reported just before. -/
def Carries (float : CFloat → BitVec 32) (before : List Turn) (e : Turn) : Prop :=
  e.place.sends = true → ∃ fix, JustReported before fix ∧ e.command = .udpSend (datagram float fix)

/-- What is known where the loop parses and where it sends. -/
def Point.Prepared (trace : List Turn) (fix : FixOf CFloat) : Point → Prop
  | .getGpsData => Online trace
  | .udpSend => JustReported trace fix
  | _ => True

def Place.Prepared (trace : List Turn) (fix : FixOf CFloat) : Place → Prop
  | loop m => m.point.Prepared trace fix
  | _ => True

theorem Main.step_getIpStatus {m : Main} (here : m.point = .getIpStatus) (code : Int) :
    (m.step code).1.point = pointAfter code := by
  rw [step, here]
  show (m.withStatus code).1.point = _
  unfold withStatus pointAfter
  dsimp only
  split
  · split <;> rfl
  · rfl

/-- `main` parses behind an open connection only. -/
theorem Main.step_parses {m : Main} {code : Int} (next : (m.step code).1.point = .getGpsData) :
    m.point = .getIpStatus ∧ code = ATRetCode.ipstateConnectOk.value := by
  cases here : m.point with
  | getIpStatus =>
    rw [step_getIpStatus here, pointAfter] at next
    refine ⟨rfl, ?_⟩
    by_contra lost
    rw [if_pos lost] at next
    split at next <;> cases next
  | udpDeact | getGpsData =>
    rw [step, here] at next
    dsimp only at next
    split at next <;> cases next
  | udpOpen | udpSend =>
    rw [step, here] at next
    cases next

/-- It sends behind a successful parse only. -/
theorem Main.step_sends {m : Main} {code : Int} (next : (m.step code).1.point = .udpSend) :
    m.point = .getGpsData ∧ code = ATRetCode.ok.value := by
  cases here : m.point with
  | getIpStatus =>
    rw [step_getIpStatus here, pointAfter] at next
    split at next
    · split at next <;> cases next
    · cases next
  | udpDeact =>
    rw [step, here] at next
    dsimp only at next
    split at next <;> cases next
  | getGpsData =>
    rw [step, here] at next
    refine ⟨rfl, ?_⟩
    by_contra failed
    dsimp only at next
    rw [if_neg failed] at next
    cases next
  | udpOpen | udpSend =>
    rw [step, here] at next
    cases next

structure Faithful (float : CFloat → BitVec 32) (uart : Nat → Wait) (line : Serial) (trace : List Turn)
    (p : Program) : Prop where
  written : p.board.line.tx = line.tx ++ (trace.map (·.wrote)).flatten
  words : ∀ e ∈ trace, e.wrote ∈ e.command.language uart e.code
  carries : Obeys (Carries float) trace
  prepared : p.place.Prepared trace p.board.fix

namespace Faithful

variable {float : CFloat → BitVec 32} {uart : Nat → Wait} {line : Serial} {trace : List Turn} {p q : Program}
  {e : Turn}

theorem start (line : Serial) (fix : FixOf CFloat) : Faithful float uart line [] (.reset line fix) :=
  ⟨(List.append_nil _).symm, nofun, obeys_nil _, trivial⟩

theorem sends (h : Faithful float uart line trace p) (place : e.place = p.place)
    (command : e.command = p.place.command float p.board.fix) : Carries float trace e := by
  intro sends
  rw [place] at sends
  have prepared := h.prepared
  cases here : p.place with
  | loop m =>
    rw [here] at sends command prepared
    have point : m.point = .udpSend := of_decide_eq_true sends
    rw [Place.command, point, Point.command] at command
    rw [Place.Prepared, point] at prepared
    exact ⟨p.board.fix, prepared, command⟩
  | _ =>
    rw [here] at sends
    cases sends

/-- A call of `get_gps_data` that succeeds has the modem report the fix. -/
theorem reported {m : Main} (point : m.point = .getGpsData) {fuel : Nat} {b board : Board}
    (ran : result ((Place.loop m).call float uart fuel) b = (.ok ATRetCode.ok.value, board)) :
    Reported board.line.port.res.text board.fix := by
  rw [Place.call, Place.parses, if_pos (decide_eq_true point), result_bind] at ran
  cases got : result (getGpsData uart fuel) b with
  | mk outcome after =>
    rw [got] at ran
    cases outcome with
    | error => cases ran
    | ok code =>
      obtain ⟨same, rfl⟩ := Prod.mk.inj ran
      obtain rfl := (AtCommand.value_ok code).mp (Except.ok.inj same)
      exact result_getGpsData got

/-- What the next call needs is there. -/
theorem prepares (h : Faithful float uart line trace p) {fuel : Nat} {board : Board}
    (ran : result (p.place.call float uart fuel) p.board = (.ok e.code, board))
    (reply : e.reply = board.line.port.res.text) (command : e.command = p.place.command float p.board.fix) :
    (p.place.next e.code).Prepared (trace ++ [e]) (Program.after board p.place e.code).board.fix := by
  have prepared := h.prepared
  cases here : p.place with
  | loop m =>
    rw [here] at ran command prepared
    show (m.step e.code).1.point.Prepared _ _
    cases next : (m.step e.code).1.point with
    | getGpsData =>
      obtain ⟨point, connected⟩ := Main.step_parses next
      rw [Place.command, point, Point.command] at command
      exact ⟨trace, e, rfl, command, connected⟩
    | udpSend =>
      obtain ⟨point, ok⟩ := Main.step_sends next
      rw [Place.command, point, Point.command] at command
      rw [Place.Prepared, point] at prepared
      have kept : (Program.after board (.loop m) e.code).board = board := by
        rw [Program.after, Place.atHead, point, ok]
        rfl
      rw [ok] at ran
      refine ⟨trace, e, rfl, prepared, command, ok, ?_⟩
      rw [kept, reply]
      exact reported point ran
    | getIpStatus | udpDeact | udpOpen => trivial
  | enableGps =>
    show (Place.untilValue .enableGps (.loop .start) .ok e.code).Prepared _ _
    rw [Place.untilValue]
    split <;> trivial
  | enableNtp =>
    show (if e.code = ATRetCode.ok.value then Place.closeNtp else .enableEpo).Prepared _ _
    split <;> trivial
  | enableEpo => trivial
  | _ =>
    rw [Place.next, Place.untilValue]
    split <;> trivial

/-- **A call keeps everything faithful.** -/
theorem step (h : Faithful float uart line trace p) (taken : Program.Step float uart p e q) :
    Faithful float uart line (trace ++ [e]) q := by
  obtain ⟨fuel, board, ran, place, command, reply, wrote, rfl⟩ := Program.step_cases taken
  obtain ⟨w, word, grown⟩ := call_emits ran
  have wrote' : e.wrote = w := by rw [wrote, grown, List.drop_left]
  have tx : (Program.after board p.place e.code).board.line.tx = board.line.tx := by
    unfold Program.after
    dsimp only
    split <;> rfl
  constructor
  · rw [tx, grown, h.written, List.map_append, List.flatten_append, List.append_assoc, ← wrote']
    simp
  · intro e' inside
    rcases List.mem_append.mp inside with before | here
    · exact h.words e' before
    · rw [List.mem_singleton.mp here, command, wrote']
      exact word
  · apply h.carries.snoc
    exact h.sends place command
  · exact h.prepares ran reply command

theorem run {fix : FixOf CFloat} (run : Run (Program.Step float uart) (.reset line fix) trace q) :
    Faithful float uart line trace q :=
  Run.history (Faithful float uart line) (fun _ _ _ _ _ h taken => h.step taken) run (.start line fix)

end Faithful

section Program

variable {float : CFloat → BitVec 32} {uart : Nat → Wait} {trace : List Turn} {q : Program}

/-- **Every byte belongs to the command of its call, and what `udp_send` sends is
the fix that the modem just reported on an open connection.** -/
theorem main_writes (line : Serial) (fix : FixOf CFloat)
    (run : Run (Program.Step float uart) (.reset line fix) trace q) :
    q.board.line.tx = line.tx ++ (trace.map (·.wrote)).flatten ∧
      (∀ e ∈ trace, e.wrote ∈ e.command.language uart e.code) ∧ Obeys (Carries float) trace := by
  have h := Faithful.run run
  exact ⟨h.written, h.words, h.carries⟩

/-- The drive ends with a datagram. -/
theorem main_writes_driven : (driven.get driven_isSome).1.map (·.code) = [0, 0, 0, 0, 0, 28, 1, 0, 0, 25, 0, 0] ∧
    Obeys (Carries fun _ => 0) (driven.get driven_isSome).1 :=
  ⟨by decide +kernel,
    (main_writes _ _ driven_run).2.2⟩

end Program

end Zouipocar
