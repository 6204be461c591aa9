import Zouipocar.Lib.TwoRuns
import Zouipocar.Tracker.Heard
import Zouipocar.Tracker.ReturnCodes
import Zouipocar.Tracker.Transmit

/-!
# The prompt of the modem

`udp_send` and `send_sms` discard a line into the one global response before
they read the two bytes of the prompt, and unlike `get_response` they do not
reset the response first. So the room left in it by earlier commands decides
where the line is taken to end.
-/

namespace Zouipocar
set_option autoImplicit false
open Lib

/-- `uart_read_string` into the response as it is. -/
def readLine : Driver UartCode := do
  let s ← get
  let (code, port) := uartReadString 10 maxPacketSize s.port
  set { s with port }
  return code

def readByte : Driver Byte := do
  let s ← get
  let (b, port) := uartReadByte s.port
  set { s with port }
  return b

section Commands

variable (uart : Nat → Wait)

/-- What `udp_send` and `send_sms` share: the command, the prompt, and what is
sent once the prompt was recognised. -/
def prompted (command : CString) (fail : ATRetCode) (send : Driver ATRetCode) (fuel : Nat) :
    Driver ATRetCode := do
  uartFlush
  let _ ← uartWriteString uart command fuel
  match ← readLine with
  | .timeout => return .error
  | .ok => do
    let first ← readByte
    let second ← readByte
    if first = 69 ∧ second = 82 then return .error
    else if first ≠ 62 ∨ second ≠ 32 then return fail
    else do
      uartFlush
      send

/-- What `udp_send` makes of the stop word found. -/
def udpSendCode (retCode : Int) : ATRetCode :=
  if retCode = 0 then .ok
  else if retCode = 1 then .error
  else if retCode = 2 then .udpSendFail
  else .error

def udpSend (data : List Byte) (dataSize : BitVec 8) (fuel : Nat) : Driver ATRetCode :=
  prompted uart (ascii "AT+QISEND=" ++ ascii (toString dataSize.toNat) ++ ascii "\r") .udpSendFail
    (do
      cmdRawData uart data dataSize [ascii "OK", ascii "ERROR", ascii "FAIL"] fuel
      return udpSendCode (← get).port.res.retCode)
    fuel

/-- What `send_sms` makes of it. -/
def sendSmsCode (retCode : Int) : ATRetCode := if retCode = 0 then .ok else .smsSendFail

/-- Only the first character of `termination` is set; `stack` is the string that
happens to lie behind it. -/
def sendSms (phoneNumber text stack : CString) (fuel : Nat) : Driver ATRetCode :=
  prompted uart (ascii "AT+CMGS=\"" ++ phoneNumber ++ ascii "\"\r") .smsSendFail
    (do
      let _ ← uartWriteString uart text fuel
      cmd uart (26 :: stack) [ascii "OK", ascii "ERROR"] fuel
      return sendSmsCode (← get).port.res.retCode)
    fuel

end Commands

/-! ## The line before the prompt -/

/-- The room that is left in the buffer. -/
def Response.room (r : Response) : Nat := maxPacketSize - r.dataLength

/-- What reading a line with some room left takes from the stream. -/
def discard : Nat → List Byte → UartCode × List Byte
  | 0, stream => (.ok, stream)
  | _ + 1, [] => (.timeout, [])
  | room + 1, b :: rest =>
    if b = 0 then (.timeout, rest) else if b = 10 then (.ok, rest) else discard room rest

section Line

variable {p q : Port} {delimiter b : Byte} {rest : List Byte}

/-- **A line ends where `discard` says, and of the response only the room matters.** -/
theorem uartReadArray_discard (p : Port) :
    ((uartReadArray 10 maxPacketSize p).1, (uartReadArray 10 maxPacketSize p).2.rx) =
      discard p.res.room p.rx := by
  generalize stream : p.rx = rx
  induction rx generalizing p with
  | nil =>
    rw [uartReadArray_nil stream]
    cases left : p.res.room with
    | zero =>
      rw [Response.room] at left
      rw [if_neg (by omega), stream]
      rfl
    | succ room =>
      rw [Response.room] at left
      rw [if_pos (by omega), stream]
      rfl
  | cons b rest ih =>
    rw [uartReadArray_cons stream]
    cases left : p.res.room with
    | zero =>
      rw [Response.room] at left
      rw [if_neg (by omega), stream]
      rfl
    | succ room =>
      rw [Response.room] at left
      have inside : p.res.dataLength < maxPacketSize := by omega
      obtain ⟨length, last⟩ := Port.push_last b rest inside
      have less : (p.push b rest).res.room = room := by
        rw [Response.room, length]
        omega
      rw [if_pos inside, discard, last]
      by_cases zero : b = 0
      · rw [if_pos zero, if_pos zero]
      · rw [if_neg zero, if_neg zero]
        by_cases newline : b = 10
        · rw [if_pos newline, if_pos newline]
          rfl
        · rw [if_neg newline, if_neg newline, ← less]
          exact ih (p.push b rest) rfl

theorem uartReadString_discard (p : Port) :
    ((uartReadString 10 maxPacketSize p).1, (uartReadString 10 maxPacketSize p).2.rx) =
      discard p.res.room p.rx := by
  rw [← uartReadArray_discard, uartReadString]
  split
  · rename_i read
    rw [read]
  · rename_i read
    rw [read]
    rfl

end Line

/-! ## Two left-over responses -/

/-- The same line, with ports that may differ in what `ports` leaves open. -/
structure Alike (ports : Port → Port → Prop) (s t : Serial) : Prop where
  rx : s.port.rx = t.port.rx
  later : s.later = t.later
  tx : s.tx = t.tx
  attempts : s.attempts = t.attempts
  ports : ports s.port t.port

/-- Ports with any responses. -/
def AnyRes (_ _ : Port) : Prop := True

def SameRes (p q : Port) : Prop := p.res = q.res

/-- Ports that read the same line. -/
def SameLine (p q : Port) : Prop := discard p.res.room p.rx = discard q.res.room q.rx

/-- Lines on which a call discards the same. -/
def SameStart (s t : Serial) : Prop := Alike SameLine s.flushed t.flushed

namespace Alike
open Action

variable {ports : Port → Port → Prop} {s t : Serial}

theorem any (h : Alike ports s t) : Alike AnyRes s t := ⟨h.rx, h.later, h.tx, h.attempts, trivial⟩

/-- What is compared when the fuel is spent. -/
abbrev Agrees {α : Type} (before after : Port → Port → Prop) (x : Driver α) : Prop :=
  Agree (Alike before) (Alike after) (Alike AnyRes) x

theorem uartWriteByte (uart : Nat → Wait) (b : Byte) : Agrees ports ports (uartWriteByte uart b) := by
  intro s t h
  refine ⟨?_, h.rx, h.later, ?_, ?_, h.ports⟩
  · show Except.ok (if uart s.attempts = Wait.sent then _ else _) = _
    rw [h.attempts]
    rfl
  · show (if uart s.attempts = Wait.blocked then s.tx else s.tx ++ [b]) = _
    rw [h.attempts, h.tx]
    rfl
  · exact congrArg Nat.succ h.attempts

theorem writeLoop (uart : Nat → Wait) (data : List Byte) (size : BitVec 16) (fuel : Nat) (i : BitVec 8) :
    Agrees ports ports (writeLoop uart data size fuel i) := by
  induction fuel generalizing i with
  | zero => exact agree_throw () fun _ _ h => h.any
  | succ fuel ih =>
    unfold Zouipocar.writeLoop
    split
    · apply (uartWriteByte uart _).bind
      intro code
      cases code with
      | timeout => exact agree_pure _
      | ok => exact ih (i + 1)
    · exact agree_pure _

theorem uartWriteString (uart : Nat → Wait) (string : CString) (fuel : Nat) :
    Agrees ports ports (uartWriteString uart string fuel) :=
  writeLoop uart string (strlen string) fuel 0

theorem uartFlush : Agrees ports AnyRes uartFlush := by
  apply agree_modify
  intro s t h
  exact ⟨congrArg (List.headD · []) h.later, congrArg List.tail h.later, h.tx, h.attempts, trivial⟩

/-- Waiting for a reply makes the responses the same. -/
theorem waitResponse (stopWords : List CString) (fuel : Nat) :
    Agrees ports SameRes (waitResponse stopWords fuel) := by
  intro s t h
  have core := getResponse_core h.rx stopWords fuel
  rw [Zouipocar.waitResponse, result_bind_ok (result_get s), result_bind_ok (result_get t)]
  generalize getResponse stopWords fuel s.port = left at core ⊢
  generalize getResponse stopWords fuel t.port = right at core ⊢
  cases core with
  | none => exact ⟨rfl, h.any⟩
  | some same => exact ⟨rfl, same.rx, h.later, h.tx, h.attempts, same.res⟩

theorem cmdRawData (uart : Nat → Wait) (data : List Byte) (dataSize : BitVec 8) (stopWords : List CString)
    (fuel : Nat) : Agrees ports SameRes (cmdRawData uart data dataSize stopWords fuel) := by
  apply uartFlush.bind
  intro _
  apply (writeLoop uart data _ fuel 0).bind
  intro _
  exact waitResponse stopWords fuel

theorem readByte : Agrees AnyRes AnyRes readByte := by
  intro s t h
  have same : (uartReadByte s.port).1 = (uartReadByte t.port).1 ∧
      (uartReadByte s.port).2.rx = (uartReadByte t.port).2.rx := by
    rw [uartReadByte_eq, uartReadByte_eq, h.rx]
    exact ⟨rfl, rfl⟩
  exact ⟨congrArg Except.ok same.1, same.2, h.later, h.tx, h.attempts, trivial⟩

/-- The one place where the responses are looked at. -/
theorem readLine : Agrees SameLine AnyRes readLine := by
  intro s t h
  have same := h.ports
  rw [SameLine, ← uartReadString_discard, ← uartReadString_discard] at same
  obtain ⟨code, rest⟩ := Prod.mk.inj same
  exact ⟨congrArg Except.ok code, rest, h.later, h.tx, h.attempts, trivial⟩

/-- Runs that discard the same line see the same prompt. -/
theorem prompted (uart : Nat → Wait) (command : CString) (fail : ATRetCode) {send : Driver ATRetCode}
    (sends : Agrees AnyRes AnyRes send) (fuel : Nat) :
    Agree SameStart (Alike AnyRes) (Alike AnyRes) (prompted uart command fail send fuel) := by
  have flush : Agree SameStart (Alike SameLine) (Alike AnyRes) Zouipocar.uartFlush :=
    agree_modify fun s t h => h
  apply flush.bind
  intro _
  apply (uartWriteString uart command fuel).bind
  intro _
  apply readLine.bind
  intro code
  cases code with
  | timeout => exact agree_pure _
  | ok =>
    apply readByte.bind
    intro first
    apply readByte.bind
    intro second
    split
    · exact agree_pure _
    · split
      · exact agree_pure _
      · exact uartFlush.bind fun _ => sends

/-- The code made of a reply. -/
theorem coded (code : Int → ATRetCode) :
    Agrees SameRes AnyRes (do return code (← get).port.res.retCode) := by
  have same : Agrees SameRes SameRes (do return code (← get).port.res.retCode) := by
    apply agree_read
    intro s t h
    exact congrArg (fun res => code res.retCode) h.ports
  exact same.weaken fun _ _ h => h.any

theorem udpSend (uart : Nat → Wait) (data : List Byte) (dataSize : BitVec 8) (fuel : Nat) :
    Agree SameStart (Alike AnyRes) (Alike AnyRes) (udpSend uart data dataSize fuel) := by
  apply prompted
  apply (cmdRawData uart data dataSize _ fuel).bind
  intro _
  exact coded udpSendCode

theorem sendSms (uart : Nat → Wait) (phoneNumber text stack : CString) (fuel : Nat) :
    Agree SameStart (Alike AnyRes) (Alike AnyRes) (sendSms uart phoneNumber text stack fuel) := by
  apply prompted
  apply (uartWriteString uart text fuel).bind
  intro _
  apply (cmdRawData uart (26 :: stack) _ _ fuel).bind
  intro _
  exact coded sendSmsCode

end Alike

/-- What is seen of a call from outside: how it ends, and the bytes written. -/
def observe (x : Driver ATRetCode) (s : Serial) : Except Unit ATRetCode × List Byte :=
  ((Action.result x s).1, (Action.result x s).2.tx)

/-- The line with another response left by earlier commands. -/
def Serial.left (s : Serial) (res : Response) : Serial := { s with port := { s.port with res } }

/-- With fuel enough the left-over response makes no difference, whatever the modem
sends. -/
def Independent (x : Nat → Driver ATRetCode) (res res' : Response) : Prop :=
  ∀ s : Serial, ∃ enough, ∀ fuel, enough ≤ fuel →
    observe (x fuel) (s.left res) = observe (x fuel) (s.left res')

/-- Runs that agree are seen to be the same. -/
theorem observe_eq {x : Driver ATRetCode} {s t : Serial}
    (agree : Action.Agree SameStart (Alike AnyRes) (Alike AnyRes) x) (h : SameStart s t) :
    observe x s = observe x t := by
  obtain ⟨outcome, after⟩ := agree s t h
  have tx : (Action.result x s).2.tx = (Action.result x t).2.tx := by
    cases ends : (Action.result x s).1 with
    | ok code =>
      rw [ends] at after
      exact after.tx
    | error =>
      rw [ends] at after
      exact after.tx
  rw [observe, observe, outcome, tx]

/-- Responses that read the same line up to the prompt. -/
theorem sameStart_left {s : Serial} {res res' : Response}
    (same : discard res.room (s.later.headD []) = discard res'.room (s.later.headD [])) :
    SameStart (s.left res) (s.left res') := ⟨rfl, rfl, rfl, rfl, same⟩

/-! ## What the room decides -/

/-- Carriage returns fill up the room they find. -/
theorem discard_fill (room more : Nat) (stream : List Byte) :
    discard (room + more) (List.replicate room 13 ++ stream) = discard more stream := by
  induction room with
  | zero => rw [Nat.zero_add, List.replicate_zero, List.nil_append]
  | succ room ih =>
    rw [Nat.succ_add, List.replicate_succ, List.cons_append, discard, if_neg (by decide), if_neg (by decide),
      ih]

section Differ

variable {uart : Nat → Wait} {command : CString} {fail : ATRetCode} {stopWords : List CString} {fuel : Nat}

theorem result_readByte (s : Serial) : Action.result readByte s =
    (.ok (s.port.rx.headD 0), { s with port := { s.port with rx := s.port.rx.tail } }) := by
  show (Except.ok (uartReadByte s.port).1, { s with port := (uartReadByte s.port).2 }) = _
  rw [uartReadByte_eq]

variable (fail) in
/-- The two bytes behind the line decide what happens. -/
theorem result_prompted (send : Driver ATRetCode) (fuel : Nat) (ready : ∀ n, uart n = .sent)
    (short : command.length < 256) (enough : command.length < fuel) (s : Serial) {rest : List Byte}
    (line : discard s.port.res.room (s.later.headD []) = (.ok, rest)) :
    ∃ t : Serial, t.later = s.later.tail ∧ Action.result (prompted uart command fail send fuel) s =
      if rest.headD 0 = 69 ∧ rest.tail.headD 0 = 82 then (.ok .error, t)
      else if rest.headD 0 ≠ 62 ∨ rest.tail.headD 0 ≠ 32 then (.ok fail, t)
      else Action.result send t.flushed := by
  have flush : Action.result uartFlush s = (.ok (), s.flushed) := rfl
  have wrote := result_uartWriteString ready short enough s.flushed
  generalize sent : s.flushed.sent command = w at wrote
  have later : w.later = s.later.tail := by rw [← sent]; rfl
  have read : Action.result readLine w =
      (.ok (uartReadString 10 maxPacketSize w.port).1,
        { w with port := (uartReadString 10 maxPacketSize w.port).2 }) := rfl
  have taken : ((uartReadString 10 maxPacketSize w.port).1, (uartReadString 10 maxPacketSize w.port).2.rx) =
      (.ok, rest) := by
    rw [uartReadString_discard, ← line, ← sent]
    rfl
  obtain ⟨code, behind⟩ := Prod.mk.inj taken
  rw [code] at read
  generalize (uartReadString 10 maxPacketSize w.port).2 = port at read behind
  have first := result_readByte { w with port }
  have second := result_readByte { w with port := { port with rx := port.rx.tail } }
  rw [prompted, Action.result_bind_ok flush, Action.result_bind_ok wrote, Action.result_bind_ok read]
  simp only
  rw [Action.result_bind_ok first, Action.result_bind_ok second]
  rw [behind]
  refine ⟨{ w with port := { port with rx := rest.tail.tail } }, later, ?_⟩
  split
  · rfl
  · split
    · rfl
    · rfl

variable (stopWords) in
/-- A command that is answered with `OK`. -/
theorem result_accepted (few : stopWords.length ≤ 127) (first : (heard stopWords [] (ascii "OK\r\n")).1 = 0)
    (data : List Byte) (dataSize : BitVec 8) (enough : 512 ≤ fuel) {s : Serial}
    (answer : s.later = [ascii "OK\r\n"]) :
    ∃ t, Action.result (cmdRawData uart data dataSize stopWords fuel) s = (.ok (), t) ∧
      t.port.res.retCode = 0 := by
  have small := dataSize.isLt
  have stream : s.later.headD [] = ascii "OK\r\n" := by rw [answer]; rfl
  have short : (s.later.headD []).length = 4 := by rw [stream]; rfl
  have fits : (s.later.headD []).length < maxPacketSize := by rw [short]; decide
  obtain ⟨t, ran, code, -⟩ := result_cmdRawData_heard uart few data dataSize s fits fuel (by omega) (by omega)
  rw [stream, first] at code
  exact ⟨t, ran, code⟩

/-- **More room than the carriage returns take shows the prompt, less hides it.** -/
theorem Independent.room_le {res res' : Response} {send : Nat → Driver ATRetCode}
    (ready : ∀ n, uart n = .sent) (short : command.length < 256)
    (sends : ∀ fuel, 512 ≤ fuel → ∀ t : Serial, t.later = [ascii "OK\r\n"] →
      (Action.result (send fuel) t).1 ≠ .ok fail)
    (same : Independent (fun fuel => prompted uart command fail (send fuel) fuel) res res') :
    res'.room ≤ res.room := by
  by_contra less
  obtain ⟨more, room⟩ : ∃ more, res'.room = res.room + (more + 1) := ⟨res'.room - res.room - 1, by omega⟩
  let s : Serial :=
    ⟨.listening [] .cleared, [List.replicate res.room 13 ++ ascii "\n> ", [], ascii "OK\r\n"], [], 0⟩
  obtain ⟨enough, equal⟩ := same s
  have hidden : discard res.room (List.replicate res.room 13 ++ ascii "\n> ") = (.ok, ascii "\n> ") :=
    discard_fill res.room 0 _
  have shown : discard res'.room (List.replicate res.room 13 ++ ascii "\n> ") = (.ok, ascii "> ") := by
    rw [room, discard_fill]
    rfl
  obtain ⟨t, -, failed⟩ := result_prompted fail (send (enough + 512)) (enough + 512)
    ready short (by omega) (s.left res) hidden
  obtain ⟨u, later, sent⟩ := result_prompted fail (send (enough + 512)) (enough + 512)
    ready short (by omega) (s.left res') shown
  have outcome := congrArg Prod.fst (equal (enough + 512) (Nat.le_add_right _ _))
  rw [observe, observe, failed, sent] at outcome
  exact sends (enough + 512) (Nat.le_add_left _ _) u.flushed (congrArg List.tail later) outcome.symm

end Differ

section Both

variable {res res' : Response}

theorem Independent.symm {x : Nat → Driver ATRetCode} (h : Independent x res res') :
    Independent x res' res := by
  intro s
  obtain ⟨enough, equal⟩ := h s
  exact ⟨enough, fun fuel more => (equal fuel more).symm⟩

theorem Independent.of_room {x : Nat → Driver ATRetCode} (room : res.room = res'.room)
    (agree : ∀ fuel, Action.Agree SameStart (Alike AnyRes) (Alike AnyRes) (x fuel)) : Independent x res res' :=
  fun _ => ⟨0, fun fuel _ => observe_eq (agree fuel) (sameStart_left (by rw [room]))⟩

/-- The command of `udp_send` is short, whatever the size. -/
theorem length_qisend (dataSize : BitVec 8) :
    (ascii "AT+QISEND=" ++ ascii (toString dataSize.toNat) ++ ascii "\r").length < 256 := by
  have small : dataSize.toNat < 10 ^ 3 := Nat.lt_trans dataSize.isLt (by decide)
  have digits : (ascii (toString dataSize.toNat)).length ≤ 3 := by
    rw [ascii, List.length_map, String.length_toList]
    exact (Nat.length_repr_le_iff (by decide)).mpr small
  rw [List.length_append, List.length_append]
  have around : (ascii "AT+QISEND=").length = 10 ∧ (ascii "\r").length = 1 := by decide
  omega

theorem udpSend_room_le (data : List Byte) (dataSize : BitVec 8)
    (same : Independent (udpSend (fun _ => .sent) data dataSize) res res') : res'.room ≤ res.room := by
  refine Independent.room_le (fun _ => rfl) (length_qisend dataSize) ?_ same
  intro fuel enough t answer
  obtain ⟨u, ran, code⟩ := result_accepted [ascii "OK", ascii "ERROR", ascii "FAIL"] (by decide) (by decide)
    data dataSize enough answer
  rw [Action.result_bind_ok ran, Action.result_bind_ok (Action.result_get u), code]
  intro fails
  cases fails

theorem sendSms_room_le (text stack : CString)
    (same : Independent (sendSms (fun _ => .sent) [] text stack) res res') : res'.room ≤ res.room := by
  refine Independent.room_le (fun _ => rfl) (by decide) ?_ same
  intro fuel enough t answer
  have ready : ∀ n, (fun _ : Nat => Wait.sent) n = .sent := fun _ => rfl
  by_cases large : 256 ≤ (strlen text).toNat
  · have endless : (Action.result (uartWriteString (fun _ => .sent) text fuel) t).1 = .error () :=
      writeLoop_endless large fuel 0 t fun n _ => ready n
    cases ran : Action.result (uartWriteString (fun _ => .sent) text fuel) t with
    | mk outcome u =>
      rw [ran] at endless
      obtain rfl : outcome = .error () := endless
      rw [Action.result_bind_error ran]
      intro fails
      cases fails
  · obtain ⟨code, u, wrote, -, later⟩ := writeLoop_ends (fun _ => .sent) text (Nat.lt_of_not_le large) fuel
      (strlen text).toNat 0 (Nat.zero_add _) (by omega) t
    obtain ⟨v, ran, code⟩ := result_accepted [ascii "OK", ascii "ERROR"] (by decide) (by decide) (26 :: stack)
      ((strlen (26 :: stack)).truncate 8) enough (later.trans answer)
    rw [uartWriteString, uartWriteArray, Action.result_bind_ok wrote, cmd, Action.result_bind_ok ran,
      Action.result_bind_ok (Action.result_get v), code]
    intro fails
    cases fails

end Both

/-- **What an earlier command left makes no difference to a payload exactly when
it leaves the same room.** -/
theorem independent_iff (res res' : Response) :
    (∀ data dataSize, (∀ uart, Independent (udpSend uart data dataSize) res res') ↔ res.room = res'.room) ∧
      (∀ text stack, (∀ uart phoneNumber, Independent (sendSms uart phoneNumber text stack) res res') ↔
        res.room = res'.room) := by
  constructor
  · intro data dataSize
    constructor
    · intro same
      have left := udpSend_room_le data dataSize (same _)
      have right := udpSend_room_le data dataSize (same _).symm
      omega
    · intro room uart
      exact .of_room room fun fuel => Alike.udpSend uart data dataSize fuel
  · intro text stack
    constructor
    · intro same
      have left := sendSms_room_le text stack (same _ [])
      have right := sendSms_room_le text stack (same _ []).symm
      omega
    · intro room uart phoneNumber
      exact .of_room room fun fuel => Alike.sendSms uart phoneNumber text stack fuel

/-! ## Left-overs of different lengths -/

/-- What commands leave that wait for `OK` or `ERROR`. -/
def LeftBehind (res : Response) : Prop :=
  ∃ uart command fuel before after, Action.result (cmd uart command okError fuel) before = (.ok (), after) ∧
    after.port.res = res

/-- No stop word is looked for before a newline. -/
theorem heard_fill (stopWords : List CString) (n : Nat) (acc : List Byte) :
    (heard stopWords acc (List.replicate n 65)).2.length = acc.length + n := by
  induction n generalizing acc with
  | zero => rfl
  | succ n ih =>
    rw [List.replicate_succ, heard, if_neg (by decide), if_neg (by decide)]
    show (heard stopWords (acc ++ [65]) (List.replicate n 65)).2.length = _
    rw [ih, List.length_append, List.length_singleton, Nat.add_assoc, Nat.add_comm 1]

/-- A reply that stops short of a newline leaves any length. -/
theorem leftBehind_length {n : Nat} (room : n < maxPacketSize) :
    ∃ res, LeftBehind res ∧ res.dataLength = n := by
  let before : Serial := ⟨.listening [] .cleared, [List.replicate n 65], [], 0⟩
  have fits : (before.later.headD []).length < maxPacketSize := List.length_replicate.trans_lt room
  have few : okError.length ≤ 127 := by decide
  obtain ⟨after, ran, -, -, length⟩ := result_cmdRawData_heard (fun _ => .sent) few (ascii "AT\r")
    ((strlen (ascii "AT\r")).truncate 8) before fits 512 (by decide) (by rw [maxPacketSize] at fits; omega)
  refine ⟨after.port.res, ⟨fun _ => .sent, ascii "AT\r", 512, before, after, ran, rfl⟩, ?_⟩
  rw [length]
  exact (heard_fill okError n []).trans (Nat.zero_add n)

/-- Behind a reply of 499 characters only the carriage return before the prompt
is discarded. -/
theorem not_independent : ¬ ∀ res res', LeftBehind res → LeftBehind res' →
    (∀ uart data dataSize, Independent (udpSend uart data dataSize) res res') ∧
      ∀ uart phoneNumber text stack, Independent (sendSms uart phoneNumber text stack) res res' := by
  intro always
  obtain ⟨full, behind, long⟩ := leftBehind_length (n := 499) (by decide)
  obtain ⟨blank, behind', short⟩ := leftBehind_length (n := 0) (by decide)
  have less := udpSend_room_le [1] 1 ((always full blank behind behind').1 _ _ _)
  rw [Response.room, Response.room, long, short] at less
  exact absurd less (by decide)

end Zouipocar
