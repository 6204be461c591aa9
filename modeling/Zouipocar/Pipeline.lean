import Zouipocar.Server.Provenance
import Zouipocar.Server.Udp
import Zouipocar.Tracker.Payload

/-!
# From the modem to the answers

The tracker, the network and the server as one system. What the modem sends is a
parameter; it gives its datagrams to the network, which may lose one, deliver it
any number of times and in any order, and anybody else may send to the port as
well. The server starts on an empty file, takes datagrams as its listener does,
answers requests, and may stop and start again.
-/

namespace Zouipocar
set_option autoImplicit false
open Lib

/-- What the modem sends in a call, behind the calls before it. -/
abbrev Modem := List Turn → Turn → List Datagram

/-- The modem sends nothing but the data of calls of `udp_send`. It takes no byte of
another command for data, as it would behind a prompt that the tracker missed. -/
def Attentive (modem : Modem) : Prop :=
  ∀ before e, ∀ d ∈ modem before e, ∃ call ∈ before ++ [e], ∃ data, call.command = .udpSend data ∧ d = data.val

structure World where
  tracker : Program
  /-- The calls so far. -/
  turns : List Turn
  /-- The datagrams that may still be delivered, or delivered again. -/
  air : List Datagram
  server : System

inductive WorldEvent
  | call (e : Turn)
  | foreign (d : Datagram) -- from another sender
  | server (e : SystemEvent)

namespace World

def start (line : Serial) (fix : FixOf CFloat) : World := ⟨.reset line fix, [], [], .stopped .empty⟩

variable (modem : Modem) (float : CFloat → BitVec 32) (uart : Nat → Wait)

inductive Step : World → WorldEvent → World → Prop
  | call {w : World} {e : Turn} {p : Program} : Program.Step float uart w.tracker e p →
      Step w (.call e) { w with tracker := p, turns := w.turns ++ [e], air := w.air ++ modem w.turns e }
  | foreign {w : World} (d : Datagram) : Step w (.foreign d) { w with air := w.air ++ [d] }
  | server {w : World} {e : SystemEvent} {s : System} : System.Step w.server e s →
      (∀ fix, e = .event (.deliver fix) → ∃ d ∈ w.air, Udp.passed d = some fix) →
      Step w (.server e) { w with server := s }

end World

/-- The calls of the tracker in a history. -/
def turnsOf (trace : List WorldEvent) : List Turn := trace.filterMap fun | .call e => some e | _ => none

/-- The modem reported the fix in a reply to the tracker. -/
def ReportedIn (float : CFloat → BitVec 32) (trace : List WorldEvent) (fix : Fix) : Prop :=
  ∃ report position, .call report ∈ trace ∧ report.command = .gpsGetRmc ∧
    report.code = ATRetCode.ok.value ∧ Reported report.reply position ∧ fix = image float position

/-- Somebody else sent the fix. -/
def ForeignIn (trace : List WorldEvent) (fix : Fix) : Prop :=
  ∃ d, .foreign d ∈ trace ∧ Udp.passed d = some fix

def Origin (float : CFloat → BitVec 32) (trace : List WorldEvent) (fix : Fix) : Prop :=
  ReportedIn float trace fix ∨ ForeignIn trace fix

section Origin

variable {float : CFloat → BitVec 32} {trace : List WorldEvent} {fix : Fix}

theorem ReportedIn.later (more : List WorldEvent) (h : ReportedIn float trace fix) :
    ReportedIn float (trace ++ more) fix := by
  obtain ⟨report, position, called, rest⟩ := h
  exact ⟨report, position, List.mem_append_left _ called, rest⟩

theorem Origin.later (more : List WorldEvent) (h : Origin float trace fix) : Origin float (trace ++ more) fix := by
  rcases h with reported | ⟨d, sent, arrives⟩
  · exact .inl (reported.later more)
  · exact .inr ⟨d, List.mem_append_left _ sent, arrives⟩

theorem mem_turnsOf {e : Turn} : e ∈ turnsOf trace ↔ .call e ∈ trace := by
  simp only [turnsOf, List.mem_filterMap]
  constructor
  · rintro ⟨v, inside, same⟩
    cases v with
    | call e' =>
      obtain rfl := Option.some.inj same
      exact inside
    | foreign | server => cases same
  · exact fun inside => ⟨_, inside, rfl⟩

/-- The datagram of a fix arrives as that fix. -/
theorem passed_bytes (fix : Fix) : Udp.passed fix.bytes = some fix := by
  rw [Udp.passed, if_pos (Nat.le_of_eq fix.bytes_length.symm),
    List.take_of_length_le (Nat.le_of_eq fix.bytes_length), Fix.ofBytes_bytes]

end Origin

theorem Place.sends_of_command {p : Place} {float : CFloat → BitVec 32} {fix : FixOf CFloat}
    {data : { bytes : List Byte // bytes.length < 256 }} (command : p.command float fix = .udpSend data) :
    p.sends = true := by
  cases p with
  | loop m =>
    rw [Place.command] at command
    rw [Place.sends]
    cases point : m.point with
    | udpSend => rfl
    | _ =>
      rw [point] at command
      cases command
  | _ => cases command

namespace World

variable {modem : Modem} {float : CFloat → BitVec 32} {uart : Nat → Wait} {line : Serial}
  {fix : FixOf CFloat} {trace : List WorldEvent} {w v : World}

/-- What is known after a history. -/
structure Traced (float : CFloat → BitVec 32) (uart : Nat → Wait) (line : Serial) (trace : List WorldEvent)
    (w : World) : Prop where
  tracker : Faithful float uart line (turnsOf trace) w.tracker
  turns : w.turns = turnsOf trace
  data : ∀ e ∈ turnsOf trace, ∀ data, e.command = .udpSend data →
    ∃ fix, data.val = Fix.bytes fix ∧ ReportedIn float trace fix
  air : ∀ d ∈ w.air, ∀ fix, Udp.passed d = some fix → Origin float trace fix
  server : Provenance (Origin float trace) w.server
  answers : ∀ e x, .server e ∈ trace → e.answer? = some x → Known (Origin float trace) x

theorem Traced.start (line : Serial) (fix : FixOf CFloat) : Traced float uart line [] (start line fix) :=
  ⟨.start line fix, rfl, nofun, nofun, .empty, nofun⟩

/-- What a call of `udp_send` is given was reported in the call before. -/
theorem Traced.given (h : Traced float uart line trace w) {e : Turn} {p : Program}
    (taken : Program.Step float uart w.tracker e p) {data : { bytes : List Byte // bytes.length < 256 }}
    (command : e.command = .udpSend data) : ∃ fix, data.val = Fix.bytes fix ∧ ReportedIn float trace fix := by
  obtain ⟨_, _, _, place, made, -⟩ := Program.step_cases taken
  have sends : e.place.sends = true := by
    rw [place]
    exact Place.sends_of_command (made.symm.trans command)
  obtain ⟨position, ⟨earlier, report, whole, -, asked, ok, reported⟩, sent⟩ := h.tracker.sends place made sends
  have called : .call report ∈ trace := mem_turnsOf.mp (by rw [whole]; simp)
  rw [command] at sent
  obtain rfl := AtCommand.udpSend.inj sent
  exact ⟨image float position, rfl, report, position, called, asked, ok, reported, rfl⟩

/-- The calls, behind one more event. -/
theorem turnsOf_snoc (trace : List WorldEvent) (e : WorldEvent) :
    turnsOf (trace ++ [e]) = turnsOf trace ++ turnsOf [e] := List.filterMap_append

/-- What is in the air behind a call: the modem sends the data of a call that was made. -/
theorem Traced.sends (attentive : Attentive modem) (h : Traced float uart line trace w) {e : Turn} {p : Program}
    (taken : Program.Step float uart w.tracker e p) {d : Datagram} (sent : d ∈ modem w.turns e) :
    ∃ fix, d = Fix.bytes fix ∧ ReportedIn float trace fix := by
  obtain ⟨call, made, data, command, rfl⟩ := attentive _ _ d sent
  rw [h.turns] at made
  rcases List.mem_append.mp made with earlier | now
  · exact h.data call earlier data command
  · obtain rfl := List.mem_singleton.mp now
    exact h.given taken command

/-- **A step of the world invents no fix.** -/
theorem Traced.step (attentive : Attentive modem) (h : Traced float uart line trace w) {e : WorldEvent}
    (taken : Step modem float uart w e v) : Traced float uart line (trace ++ [e]) v := by
  have wider : ∀ fix, Origin float trace fix → Origin float (trace ++ [e]) fix := fun _ origin => origin.later [e]
  have answered : ∀ e' x, .server e' ∈ trace → e'.answer? = some x → Known (Origin float (trace ++ [e])) x :=
    fun e' x inside found => (h.answers e' x inside found).mono wider
  have given : ∀ e' ∈ turnsOf trace, ∀ data, e'.command = .udpSend data →
      ∃ fix, data.val = Fix.bytes fix ∧ ReportedIn float (trace ++ [e]) fix := by
    intro e' inside data command
    obtain ⟨fix, same, reported⟩ := h.data e' inside data command
    exact ⟨fix, same, reported.later [e]⟩
  cases taken with
  | @call e p taken =>
    refine ⟨?_, ?_, ?_, ?_, h.server.mono wider, ?_⟩
    · rw [turnsOf_snoc]
      exact h.tracker.step taken
    · rw [turnsOf_snoc, ← h.turns]
      rfl
    · intro e' inside data command
      rw [turnsOf_snoc] at inside
      rcases List.mem_append.mp inside with before | now
      · exact given e' before data command
      · obtain rfl : e' = e := List.mem_singleton.mp now
        obtain ⟨fix, same, reported⟩ := h.given taken command
        exact ⟨fix, same, reported.later _⟩
    · intro d inside fix arrives
      rcases List.mem_append.mp inside with before | now
      · exact wider fix (h.air d before fix arrives)
      · obtain ⟨sent, rfl, reported⟩ := h.sends attentive taken now
        rw [passed_bytes] at arrives
        obtain rfl := Option.some.inj arrives
        exact wider _ (.inl reported)
    · intro e' x inside
      rcases List.mem_append.mp inside with before | now
      · exact answered e' x before
      · cases List.mem_singleton.mp now
  | foreign d =>
    have same : turnsOf (trace ++ [.foreign d]) = turnsOf trace := by
      rw [turnsOf_snoc]
      exact List.append_nil _
    refine ⟨same ▸ h.tracker, same ▸ h.turns, same ▸ given, ?_, h.server.mono wider, ?_⟩
    · intro d' inside fix arrives
      rcases List.mem_append.mp inside with before | now
      · exact wider fix (h.air d' before fix arrives)
      · obtain rfl := List.mem_singleton.mp now
        exact .inr ⟨d', by simp, arrives⟩
    · intro e' x inside
      rcases List.mem_append.mp inside with before | now
      · exact answered e' x before
      · cases List.mem_singleton.mp now
  | @server e s taken arrived =>
    have same : turnsOf (trace ++ [.server e]) = turnsOf trace := by
      rw [turnsOf_snoc]
      exact List.append_nil _
    refine ⟨same ▸ h.tracker, same ▸ h.turns, same ▸ given,
      fun d inside fix arrives => wider fix (h.air d inside fix arrives), ?_, ?_⟩
    · apply Provenance.mono wider
      apply h.server.step taken
      intro fix same
      obtain ⟨d, inside, arrives⟩ := arrived fix same
      exact h.air d inside fix arrives
    · intro e' x inside found
      rcases List.mem_append.mp inside with before | now
      · exact answered e' x before found
      · obtain rfl := WorldEvent.server.inj (List.mem_singleton.mp now)
        exact (h.server.answer taken x found).mono wider

theorem Traced.run (attentive : Attentive modem)
    (run : Run (Step modem float uart) (World.start line fix) trace w) : Traced float uart line trace w :=
  Run.history (Traced float uart line) (fun _ _ _ _ _ h taken => h.step attentive taken) run (.start line fix)

/-- **With an attentive modem every stored row, every answer and every result of a
query comes from a sentence that the modem reported, or from another sender.** -/
theorem world_origin (attentive : Attentive modem) (run : Run (Step modem float uart) (start line fix) trace w) :
    FromKind (Origin float trace) w.server.file ∧
      (∀ e x, .server e ∈ trace → e.answer? = some x → Known (Origin float trace) x) ∧
      ∀ p, w.server = .running p → ∀ memory first last found,
        (p.db.getFixRange memory first last).1 = .ok found → ∀ x ∈ found, Known (Origin float trace) x := by
  have h := Traced.run attentive run
  refine ⟨h.server.file, h.answers, fun p running => ?_⟩
  have file : FromKind (Origin float trace) p.db.table := by
    have same := h.server.file
    rw [running] at same
    exact same
  exact file.queries.2.2.2

/-- A modem that sends the data which arrived as a whole behind its command. -/
def promptModem : Modem := fun _ e =>
  match e.command with
  | .udpSend data => if e.wrote = e.command.text ++ data.val then [data.val] else []
  | _ => []

theorem promptModem_attentive : Attentive promptModem := by
  intro before e d sent
  unfold promptModem at sent
  split at sent
  · rename_i data command
    split at sent
    · exact ⟨e, by simp, data, command, List.mem_singleton.mp sent⟩
    · cases sent
  · cases sent

/-- Calls of the tracker, while nothing else happens. -/
theorem calls_run {p q : Program} {turns : List Turn} (run : Run (Program.Step float uart) p turns q)
    (air : List Datagram) (server : System) :
    Run (Step promptModem float uart) ⟨p, [], air, server⟩ (turns.map .call)
      ⟨q, turns, air ++ turns.flatMap (promptModem []), server⟩ := by
  induction run with
  | refl => simpa using Run.refl _
  | @snoc m q turns e _ last ih =>
    have step : Step promptModem float uart ⟨m, turns, air ++ turns.flatMap (promptModem []), server⟩ (.call e)
        ⟨q, turns ++ [e], air ++ turns.flatMap (promptModem []) ++ promptModem turns e, server⟩ := .call last
    rw [List.map_append, List.flatMap_append, ← List.append_assoc, List.flatMap_singleton]
    exact ih.snoc step

/-- What the server does with datagrams in the air, while nothing else happens. -/
theorem server_run {p : Program} {turns : List Turn} {air : List Datagram} {s t : System}
    {events : List SystemEvent} (run : Run System.Step s events t)
    (arrived : ∀ fix, .event (.deliver fix) ∈ events → ∃ d ∈ air, Udp.passed d = some fix) :
    Run (Step modem float uart) ⟨p, turns, air, s⟩ (events.map .server) ⟨p, turns, air, t⟩ := by
  induction run with
  | refl => exact .refl _
  | @snoc m t events e _ last ih =>
    rw [List.map_append]
    apply (ih fun fix inside => arrived fix (List.mem_append_left _ inside)).snoc
    apply Step.server (w := ⟨p, turns, air, m⟩) last
    rintro fix rfl
    exact arrived fix (by simp)

/-- The fix of the drive. -/
def driving : Fix := image (fun _ => 0) (Rmc.positionFix (tokens comma
  (ascii "$GNRMC,100302.000,A,4717.114,N,00831.54,E,12.5,0,170324,,,A")))

theorem driving_given : driving.bytes ∈ (driven.get driven_isSome).1.flatMap (promptModem []) := by decide +kernel

/-- The drive, with a server that gets its datagram. -/
theorem world_origin_driving : ∃ trace, ∃ w : World, FromKind (Origin (fun _ => 0) trace) w.server.file ∧
    ∃ r ∈ w.server.file, r.fix.timestamp = driving.timestamp := by
  have calls := calls_run driven_run [] (.stopped .empty)
  have handled := Process.Run.lift (Process.accepted_run (.start .empty) driving rfl rfl)
  have arrived : ∀ fix, .event (.deliver fix) ∈ SystemEvent.start ::
      [.deliver driving, .updateFix driving, .insertFix driving, .assign driving].map .event →
      ∃ d ∈ (driven.get driven_isSome).1.flatMap (promptModem []), Udp.passed d = some fix := by
    intro fix inside
    obtain rfl : fix = driving := by simpa using inside
    exact ⟨driving.bytes, driving_given, passed_bytes driving⟩
  have run := calls.trans (server_run (.cons .start handled) arrived)
  refine ⟨_, _, (world_origin promptModem_attentive run).1, ?_⟩
  exact exists_row_insert _ driving (by decide +kernel) fun r inside => (OrderedTable.not_mem_empty inside).elim

end World

end Zouipocar
