import Zouipocar.Lib.Fuel
import Zouipocar.Tracker.Payload

/-!
# Which calls return

The loops of the drivers come to an end, on any UART and whatever the modem
sends, also when it sends more than fits in the response; but for the one that
writes a text of 256 bytes or more while no byte times out. So a command function
returns unless it writes such a text behind the prompt, or writes outside an
array: when its arguments are too long for its own, or when the text it cuts out
of the reply does not lie where it takes it from. `main` then always makes its
next call.
-/

namespace Zouipocar
set_option autoImplicit false
open Lib Action

section Drivers

variable (uart : Nat → Wait)

/-! ## The loops -/

/-- One turn of the write loop: it ends there, or goes on behind a byte that was sent. -/
theorem writeLoop_turn (data : List Byte) (size : BitVec 16) (i : BitVec 8) (s : Serial) :
    (∃ code t, Settles (fun fuel => writeLoop uart data size fuel i) s code t ∧ t.port = s.port ∧
        t.later = s.later) ∨
      i.toNat < size.toNat ∧ uart s.attempts = .sent ∧
        ∀ code t, Settles (fun fuel => writeLoop uart data size fuel (i + 1)) (s.sent [data.getD i.toNat 0]) code t →
          Settles (fun fuel => writeLoop uart data size fuel i) s code t := by
  by_cases more : i.toNat < size.toNat
  · by_cases sent : uart s.attempts = .sent
    · refine .inr ⟨more, sent, ?_⟩
      rintro code t ⟨enough, ran⟩
      refine ⟨enough + 1, ?_⟩
      rintro (_ | fuel) large
      · omega
      · exact (writeLoop_more sent more).trans (ran fuel (by omega))
    · obtain ⟨t, wrote, port, later⟩ : ∃ t, result (uartWriteByte uart (data.getD i.toNat 0)) s =
          (.ok (if uart s.attempts = .sent then .ok else .timeout), t) ∧ t.port = s.port ∧ t.later = s.later :=
        ⟨_, rfl, rfl, rfl⟩
      rw [if_neg sent] at wrote
      refine .inl ⟨.timeout, t, ⟨1, ?_⟩, port, later⟩
      rintro (_ | fuel) large
      · omega
      · show result (writeLoop uart data size (fuel + 1) i) s = _
        rw [writeLoop, if_pos (counter_lt.mpr more), result_bind_ok wrote]
        rfl
  · refine .inl ⟨.ok, s, ⟨1, ?_⟩, rfl, rfl⟩
    rintro (_ | fuel) large
    · omega
    · show result (writeLoop uart data size (fuel + 1) i) s = _
      rw [writeLoop, if_neg (mt counter_lt.mp more)]
      rfl

/-- Within the reach of its counter the write loop settles: each byte is tried once. -/
theorem writeLoop_settles (data : List Byte) {size : BitVec 16} (small : size.toNat < 256) (left : Nat) :
    ∀ (i : BitVec 8) (s : Serial), i.toNat + left = size.toNat →
      ∃ code t, Settles (fun fuel => writeLoop uart data size fuel i) s code t ∧ t.port = s.port ∧
        t.later = s.later := by
  induction left with
  | zero =>
    intro i s rest
    rcases writeLoop_turn uart data size i s with ended | ⟨more, -, -⟩
    · exact ended
    · omega
  | succ left ih =>
    intro i s rest
    rcases writeLoop_turn uart data size i s with ended | ⟨more, -, onward⟩
    · exact ended
    · have next := counter_next small more
      obtain ⟨code, t, settled, port, later⟩ := ih (i + 1) (s.sent [data.getD i.toNat 0]) (by omega)
      exact ⟨code, t, onward code t settled, port, later⟩

/-- Beyond it, it settles at the byte that times out. -/
theorem writeLoop_settles_of_failed (data : List Byte) (size : BitVec 16) (left : Nat) :
    ∀ (i : BitVec 8) (s : Serial), uart (s.attempts + left) ≠ .sent →
      ∃ code t, Settles (fun fuel => writeLoop uart data size fuel i) s code t := by
  induction left with
  | zero =>
    intro i s failed
    rcases writeLoop_turn uart data size i s with ⟨code, t, settled, -⟩ | ⟨-, sent, -⟩
    · exact ⟨code, t, settled⟩
    · exact (failed sent).elim
  | succ left ih =>
    intro i s failed
    rcases writeLoop_turn uart data size i s with ⟨code, t, settled, -⟩ | ⟨-, -, onward⟩
    · exact ⟨code, t, settled⟩
    · have one : (s.sent [data.getD i.toNat 0]).attempts + left = s.attempts + (left + 1) :=
        Nat.succ_add_eq_add_succ s.attempts left
      obtain ⟨code, t, settled⟩ := ih (i + 1) _ (one ▸ failed)
      exact ⟨code, t, onward code t settled⟩

theorem writeLoop_stable (data : List Byte) (size : BitVec 16) (i : BitVec 8) :
    Stable fun fuel => writeLoop uart data size fuel i := by
  intro s fuel
  induction fuel generalizing s i with
  | zero =>
    intro code t ran
    cases ran
  | succ fuel ih =>
    intro code t ran more
    rw [Nat.succ_add]
    change result (writeLoop uart data size (fuel + 1) i) s = _ at ran
    show result (writeLoop uart data size (fuel + more + 1) i) s = _
    rw [writeLoop] at ran ⊢
    split
    · rename_i within
      rw [if_pos within, result_bind] at ran
      rw [result_bind]
      cases wrote : result (uartWriteByte uart (data.getD i.toNat 0)) s with
      | mk outcome m =>
        rw [wrote] at ran
        cases outcome with
        | error => cases ran
        | ok written =>
          cases written with
          | timeout => exact ran
          | ok => exact ih (i + 1) m code t ran more
    · rename_i done
      rw [if_neg done] at ran
      exact ran

theorem waitResponse_settles (stopWords : List CString) (s : Serial) :
    ∃ t, Settles (waitResponse stopWords) s () t := by
  obtain ⟨fuel, port, ran⟩ := getResponse_returns stopWords s.port
  refine ⟨{ s with port }, fuel, fun more enough => ?_⟩
  have longer : getResponse stopWords more s.port = some port := by
    obtain ⟨rest, rfl⟩ := Nat.exists_eq_add_of_le enough
    exact responseLoop_fuel ran rest
  rw [waitResponse, result_bind_ok (result_get s), longer]
  rfl

theorem waitResponse_stable (stopWords : List CString) : Stable (waitResponse stopWords) := by
  intro s fuel a t ran more
  rw [waitResponse, result_bind_ok (result_get s)] at ran ⊢
  cases heard : getResponse stopWords fuel s.port with
  | none =>
    rw [heard] at ran
    cases ran
  | some port =>
    have longer : getResponse stopWords (fuel + more) s.port = some port := responseLoop_fuel heard more
    rw [longer]
    rw [heard] at ran
    exact ran

/-! ## The drivers -/

theorem cmdRawData_settles (data : List Byte) (dataSize : BitVec 8) (stopWords : List CString) (s : Serial) :
    ∃ t, Settles (cmdRawData uart data dataSize stopWords) s () t := by
  have small := dataSize.isLt
  have size := zeroExtend_toNat dataSize
  obtain ⟨code, t, wrote, -⟩ := writeLoop_settles uart data (size ▸ small) dataSize.toNat 0 s.flushed
    ((Nat.zero_add _).trans size.symm)
  obtain ⟨u, waited⟩ := waitResponse_settles stopWords t
  have flushed : Settles (fun _ => uartFlush) s () s.flushed := settles_of_result rfl
  exact ⟨u, flushed.bind (wrote.bind waited)⟩

theorem cmdRawData_stable (data : List Byte) (dataSize : BitVec 8) (stopWords : List CString) :
    Stable (cmdRawData uart data dataSize stopWords) := by
  apply (stable_const uartFlush).bind
  intro _
  apply (writeLoop_stable uart data _ 0).bind
  exact fun _ => waitResponse_stable stopWords

theorem cmd_settles (cmdstr : CString) (stopWords : List CString) (s : Serial) :
    ∃ t, Settles (cmd uart cmdstr stopWords) s () t := cmdRawData_settles uart cmdstr _ stopWords s

theorem uartWriteString_stable (string : CString) : Stable (uartWriteString uart string) :=
  writeLoop_stable uart string _ 0

/-- **A string is written to its end, or to the byte that times out, unless it is too
long for the counter and no byte times out.** -/
theorem uartWriteString_returns_iff (string : CString) (s : Serial) :
    Returns (uartWriteString uart string) s ↔
      ¬ (256 ≤ (strlen string).toNat ∧ ∀ n, s.attempts ≤ n → uart n = .sent) := by
  constructor
  · rintro ⟨fuel, code, t, ran⟩ ⟨large, ready⟩
    have endless := @writeLoop_endless uart string _ large fuel 0 s ready
    change (result (uartWriteString uart string fuel) s).1 = _ at endless
    rw [ran] at endless
    cases endless
  · intro ends
    apply returns_of_settles
    by_cases small : (strlen string).toNat < 256
    · obtain ⟨code, t, settled, -⟩ := writeLoop_settles uart string small _ 0 s (Nat.zero_add _)
      exact ⟨code, t, settled⟩
    · have fails : ¬ ∀ n, s.attempts ≤ n → uart n = .sent := fun ready => ends ⟨Nat.le_of_not_lt small, ready⟩
      push Not at fails
      obtain ⟨n, later, failed⟩ := fails
      obtain ⟨left, rfl⟩ := Nat.exists_eq_add_of_le later
      exact writeLoop_settles_of_failed uart string _ left 0 s failed

theorem uartWriteString_settles {string : CString} (short : string.length < 256) (s : Serial) :
    ∃ code t, Settles (uartWriteString uart string) s code t := by
  have size := strlen_toNat string
  have returns := (uartWriteString_returns_iff uart string s).mpr fun ⟨large, _⟩ => by omega
  exact returns.settles (uartWriteString_stable uart string)

theorem simpleCmd_settles (cmdstr : CString) (s : Serial) :
    ∃ code t, Settles (simpleCmd uart cmdstr) s code t := by
  obtain ⟨t, answered⟩ := cmd_settles uart cmdstr okError s
  exact ⟨_, t, answered.bind (settles_of_result rfl)⟩

theorem ask_settles (cmdstr : CString) (stopWords : List CString) (evaluate : Int → CString → ATRetCode)
    (s : Serial) : ∃ code t, Settles (ask uart cmdstr stopWords evaluate) s code t := by
  obtain ⟨t, answered⟩ := cmd_settles uart cmdstr stopWords s
  exact ⟨_, t, answered.bind (settles_of_result rfl)⟩

/-- With fuel enough the prompt is recognised, or not, before anything is sent. -/
theorem result_prompted_cases {command : CString} (short : command.length < 256) (s : Serial) :
    ∃ enough t,
      (∀ fail send fuel, enough ≤ fuel → result (prompted uart command fail send fuel) s = result send t) ∨
        ∀ fail, ∃ code, (code = .error ∨ code = fail) ∧
          ∀ send fuel, enough ≤ fuel → result (prompted uart command fail send fuel) s = (.ok code, t) := by
  obtain ⟨_, t, enough, wrote⟩ := uartWriteString_settles uart short s.flushed
  have flushed : result uartFlush s = (.ok (), s.flushed) := rfl
  obtain ⟨read, u, line⟩ : ∃ read u, result readLine t = (.ok read, u) := ⟨_, _, rfl⟩
  have first := result_readByte u
  generalize u.port.rx.headD 0 = c, { u with port := { u.port with rx := u.port.rx.tail } } = v at first
  have second := result_readByte v
  generalize v.port.rx.headD 0 = d, { v with port := { v.port with rx := v.port.rx.tail } } = w at second
  cases read with
  | timeout =>
    refine ⟨enough, u, .inr fun fail => ⟨.error, .inl rfl, fun send fuel more => ?_⟩⟩
    rw [prompted, result_bind_ok flushed, result_bind_ok (wrote fuel more), result_bind_ok line]
    rfl
  | ok =>
    have upTo : ∀ fail send fuel, enough ≤ fuel → result (prompted uart command fail send fuel) s =
        result (do
          if c = 69 ∧ d = 82 then return .error
          else if c ≠ 62 ∨ d ≠ 32 then return fail
          else do
            uartFlush
            send : Driver ATRetCode) w := by
      intro fail send fuel more
      rw [prompted, result_bind_ok flushed, result_bind_ok (wrote fuel more), result_bind_ok line]
      exact (result_bind_ok first).trans (result_bind_ok second)
    by_cases refused : c = 69 ∧ d = 82
    · refine ⟨enough, w, .inr fun fail => ⟨.error, .inl rfl, fun send fuel more => ?_⟩⟩
      rw [upTo fail send fuel more, if_pos refused]
      rfl
    · by_cases other : c ≠ 62 ∨ d ≠ 32
      · refine ⟨enough, w, .inr fun fail => ⟨fail, .inr rfl, fun send fuel more => ?_⟩⟩
        rw [upTo fail send fuel more, if_neg refused, if_pos other]
        rfl
      · refine ⟨enough, w.flushed, .inl fun fail send fuel more => ?_⟩
        rw [upTo fail send fuel more, if_neg refused, if_neg other]
        rfl

/-- The prompt is recognised behind the command, and leaves the line like this. -/
def Prompts (command : CString) (s t : Serial) : Prop :=
  Settles (fun fuel => prompted uart command .error (pure .ok) fuel) s .ok t

theorem prompted_stable (command : CString) (fail : ATRetCode) {send : Nat → Driver ATRetCode}
    (stable : Stable send) : Stable fun fuel => prompted uart command fail (send fuel) fuel := by
  apply (stable_const uartFlush).bind
  intro _
  apply (uartWriteString_stable uart command).bind
  intro _
  apply (stable_const readLine).bind
  intro read
  cases read with
  | timeout => exact stable_const _
  | ok =>
    apply (stable_const readByte).bind
    intro first
    apply (stable_const readByte).bind
    intro second
    split
    · exact stable_const _
    · split
      · exact stable_const _
      · exact (stable_const uartFlush).bind fun _ => stable

/-- **A call with a prompt returns unless the prompt is recognised and what is sent
behind it does not return.** -/
theorem prompted_returns_iff {command : CString} (short : command.length < 256) (fail : ATRetCode)
    {send : Nat → Driver ATRetCode} (stable : Stable send) (s : Serial) :
    Returns (fun fuel => prompted uart command fail (send fuel) fuel) s ↔
      ∀ t, Prompts uart command s t → Returns send t := by
  obtain ⟨enough, t, prompt | refused⟩ := result_prompted_cases uart short s
  · have here : Prompts uart command s t := ⟨enough, fun fuel more => prompt .error (pure .ok) fuel more⟩
    constructor
    · rintro ⟨fuel, code, u, ran⟩ t' there
      obtain ⟨-, rfl⟩ := here.unique there
      have later := prompted_stable uart command fail stable s fuel code u ran enough
      rw [prompt fail _ _ (Nat.le_add_left ..)] at later
      exact ⟨_, code, u, later⟩
    · intro returns
      obtain ⟨fuel, code, u, ran⟩ := returns t here
      exact ⟨fuel + enough, code, u,
        (prompt fail _ _ (Nat.le_add_left ..)).trans (stable t fuel code u ran enough)⟩
  · have never : ∀ t', ¬ Prompts uart command s t' := by
      intro t' there
      obtain ⟨code, known, ran⟩ := refused .error
      have other : code = .ok := (Settles.unique ⟨enough, ran (pure .ok)⟩ there).1
      rcases known with rfl | rfl <;> cases other
    obtain ⟨code, -, ran⟩ := refused fail
    exact iff_of_true ⟨enough, code, t, ran _ enough (Nat.le_refl _)⟩ fun t' there => (never t' there).elim

theorem udpSend_returns (data : List Byte) (dataSize : BitVec 8) (s : Serial) :
    Returns (udpSend uart data dataSize) s := by
  have stable := cmdRawData_stable uart data dataSize [ascii "OK", ascii "ERROR", ascii "FAIL"]
  apply (prompted_returns_iff uart (length_qisend dataSize) _ (stable.bind fun _ => stable_const _) s).mpr
  intro t _
  obtain ⟨u, answered⟩ := cmdRawData_settles uart data dataSize [ascii "OK", ascii "ERROR", ascii "FAIL"] t
  exact returns_of_settles ⟨_, u, answered.bind (settles_of_result rfl)⟩

/-- `send_sms` goes on for ever exactly behind the prompt, with a text too long for
the counter and a UART that sends every byte. -/
theorem sendSms_returns_iff {phoneNumber : CString} (text stack : CString)
    (short : (ascii "AT+CMGS=\"" ++ phoneNumber ++ ascii "\"\r").length < 256) (s : Serial) :
    Returns (sendSms uart phoneNumber text stack) s ↔
      ∀ t, Prompts uart (ascii "AT+CMGS=\"" ++ phoneNumber ++ ascii "\"\r") s t →
        ¬ (256 ≤ (strlen text).toNat ∧ ∀ n, t.attempts ≤ n → uart n = .sent) := by
  have written := uartWriteString_stable uart text
  have ending := cmdRawData_stable uart (26 :: stack) ((strlen (26 :: stack)).truncate 8) [ascii "OK", ascii "ERROR"]
  have stable := written.bind fun _ => ending.bind fun _ =>
    stable_const (do return sendSmsCode (← get).port.res.retCode : Driver ATRetCode)
  refine (prompted_returns_iff uart short _ stable s).trans ?_
  apply forall_congr'
  intro t
  rw [← uartWriteString_returns_iff]
  refine imp_congr_right fun _ => returns_bind written ?_
  intro _ u
  obtain ⟨v, answered⟩ := cmd_settles uart (26 :: stack) [ascii "OK", ascii "ERROR"] u
  exact ⟨_, v, answered.bind (settles_of_result rfl)⟩

/-! ## Arrays -/

/-- The text that is cut out lies outside the reply, or is too long. -/
def Overruns (f : Cutter) (cmdstr : CString) (s : Serial) : Prop :=
  ∃ t c, Settles (cmd uart cmdstr f.stopWords) s () t ∧
    (f.run t.port.res.retCode t.port.res.text).2 = some c ∧ ¬ c.Inside f.size

/-- **A text is cut out of every reply but those where it would be taken from the
outside.** -/
theorem cut_returns_iff (f : Cutter) (cmdstr : CString) (s : Serial) :
    (∃ fuel r t, result (cut uart f cmdstr fuel) s = (.ok r, t)) ↔ ¬ Overruns uart f cmdstr s := by
  obtain ⟨t, answered⟩ := cmd_settles uart cmdstr f.stopWords s
  constructor
  · rintro ⟨fuel, ⟨code, out⟩, u, ran⟩ ⟨t', c, answered', found, outside⟩
    obtain ⟨asked, copy, made, inside, -⟩ := result_cut ran
    obtain ⟨-, rfl⟩ := answered'.eq_result (cmdRawData_stable uart _ _ _) asked
    rw [made] at found
    exact outside (inside c found)
  · intro fine
    obtain ⟨fuel, ran⟩ := answered.result_eq
    unfold cut
    cases made : f.run t.port.res.retCode t.port.res.text with
    | mk code copy =>
      cases copy with
      | none =>
        refine ⟨fuel, (code, none), t, ?_⟩
        rw [result_bind_ok ran, result_bind_ok (result_get t)]
        dsimp only
        rw [made]
        rfl
      | some c =>
        have inside : c.Inside f.size := by
          by_contra outside
          exact fine ⟨t, c, answered, by rw [made], outside⟩
        refine ⟨fuel, (code, some (c.slice t.port.res.text)), t, ?_⟩
        rw [result_bind_ok ran, result_bind_ok (result_get t)]
        dsimp only
        rw [made]
        dsimp only
        rw [if_pos inside]
        rfl

end Drivers

theorem Buffer.build_of_lt {size : Nat} {first : CString} {parts : List CString}
    (fits : (first ++ parts.flatten).length < size) :
    ∃ b : Buffer size, build size first parts = some b ∧ b.text = first ++ parts.flatten := by
  induction parts using List.reverseRecOn with
  | nil =>
    rw [List.flatten_nil, List.append_nil] at fits
    refine ⟨⟨first, fits⟩, ?_, (List.append_nil _).symm⟩
    rw [build, List.foldl_nil, init, dif_pos fits]
  | append_singleton parts last ih =>
    rw [List.flatten_append, ← List.append_assoc, List.flatten_singleton] at fits ⊢
    obtain ⟨b, built, text⟩ := ih (by rw [List.length_append] at fits; omega)
    rw [← text] at fits ⊢
    refine ⟨⟨b.text ++ last, fits⟩, ?_, rfl⟩
    rw [build, List.foldl_append, ← build, built]
    show b.strcat last = _
    rw [strcat, init, dif_pos fits]

theorem Buffer.build_of_not_lt {size : Nat} {first : CString} {parts : List CString}
    (long : ¬ (first ++ parts.flatten).length < size) : build size first parts = none := by
  cases built : build size first parts with
  | none => rfl
  | some b =>
    have fits := b.fits
    rw [text_of_build built] at fits
    exact (long fits).elim

/-! ## The commands -/

/-- A call whose command is put together in an array first. -/
theorem returns_defined {α : Type} {size : Nat} {first : CString} {parts : List CString}
    {call : CString → Nat → Driver α} {s : Serial}
    (each : ∀ text : CString, text.length < size → Returns (call text) s) :
    Returns (fun fuel => do let str ← defined (Buffer.build size first parts); call str.text fuel) s ↔
      (first ++ parts.flatten).length < size := by
  by_cases fits : (first ++ parts.flatten).length < size
  · obtain ⟨b, built, -⟩ := Buffer.build_of_lt fits
    obtain ⟨fuel, a, t, ran⟩ := each b.text b.fits
    refine iff_of_true ⟨fuel, a, t, ?_⟩ fits
    rw [built]
    exact ran
  · refine iff_of_false ?_ fits
    rintro ⟨fuel, a, t, ran⟩
    rw [Buffer.build_of_not_lt fits] at ran
    cases ran

namespace AtCommand

/-- The array a command is put together in. -/
def array : AtCommand → Option Nat
  | setApn _ | setDnsServer _ | dnsResolve _ | udpOpen _ _ | udpSend _ | sendSms _ _ _ => some 50
  | setPdpContext _ => some 20
  | setIpMultiplexing _ | gpsGetRmc => some 30
  | _ => none

/-- The command fits in its array. -/
def Fits (c : AtCommand) : Prop := ∀ size, c.array = some size → c.text.length < size

/-- The text that is cut out of the reply. -/
def cutter : AtCommand → Option Cutter
  | getIpStatus => some .ipStatus
  | getEpoValidity => some .epoValidity
  | gpsGetRmc => some .nmeaSentence
  | _ => none

/-- The call stays inside its arrays. -/
def Inside (uart : Nat → Wait) (c : AtCommand) (s : Serial) : Prop :=
  c.Fits ∧ ∀ f, c.cutter = some f → ¬ Overruns uart f c.text s

/-- The prompt of `send_sms` is followed by a text that is too long for the counter,
and no byte from there on times out. -/
def Endless (uart : Nat → Wait) (c : AtCommand) (s : Serial) : Prop :=
  ∃ phoneNumber text stack t, c = sendSms phoneNumber text stack ∧ Prompts uart c.text s t ∧
    256 ≤ (strlen text).toNat ∧ ∀ n, t.attempts ≤ n → uart n = .sent

section Inside

variable {uart : Nat → Wait} {c : AtCommand} {s : Serial}

theorem inside_of_no_array (noArray : c.array = none) (noCutter : c.cutter = none) : c.Inside uart s := by
  constructor
  · intro size array
    rw [noArray] at array
    cases array
  · intro f cutter
    rw [noCutter] at cutter
    cases cutter

theorem inside_of_array {size : Nat} (array : c.array = some size) (noCutter : c.cutter = none) :
    c.Inside uart s ↔ c.text.length < size := by
  constructor
  · exact fun inside => inside.1 size array
  · intro fits
    constructor
    · intro size' array'
      rw [array] at array'
      exact Option.some.inj array' ▸ fits
    · intro f cutter
      rw [noCutter] at cutter
      cases cutter

theorem inside_of_cutter {f : Cutter} (fits : c.Fits) (cutter : c.cutter = some f) :
    c.Inside uart s ↔ ¬ Overruns uart f c.text s := by
  constructor
  · exact fun inside => inside.2 f cutter
  · intro fine
    refine ⟨fits, fun f' cutter' => ?_⟩
    rw [cutter] at cutter'
    exact Option.some.inj cutter' ▸ fine

end Inside

/-- The array of `udp_send` holds its command, whatever the size. -/
theorem length_udpSend (data : { bytes : List Byte // bytes.length < 256 }) : (udpSend data).text.length < 50 := by
  have small : data.val.length < 10 ^ 3 := Nat.lt_trans data.property (by decide)
  have digits : (ascii (toString data.val.length)).length ≤ 3 := by
    rw [ascii, List.length_map, String.length_toList]
    exact (Nat.length_repr_le_iff (by decide)).mpr small
  have around : (ascii "AT+QISEND=").length = 10 ∧ (ascii "\r").length = 1 := by decide
  rw [text, List.length_append, List.length_append]
  omega

/-- Every command function but `send_sms` returns exactly when it stays inside its
arrays. -/
theorem returns_iff_inside (uart : Nat → Wait) {c : AtCommand} (s : Serial)
    (other : ∀ phoneNumber text stack, c ≠ sendSms phoneNumber text stack) :
    Returns (fun fuel => c.run uart fuel) s ↔ c.Inside uart s := by
  cases c with
  | sendSms phoneNumber text stack => exact (other _ _ _ rfl).elim
  | disableEcho | udpUseDomain | udpClose | udpDeact | setSmsReceptionMode | setSmsTextMode | clearSmsMemory
  | enableEpo | removeEpoData =>
    exact iff_of_true (returns_of_settles (simpleCmd_settles uart _ s)) (inside_of_no_array rfl rfl)
  | checkNetworkStatus | checkTimeSyncStatus | enableNtp | enableGps =>
    refine iff_of_true ((returns_map ATRetCode.value).mpr ?_) (inside_of_no_array rfl rfl)
    exact returns_of_settles (ask_settles uart _ _ _ s)
  | setApn | setDnsServer | dnsResolve | setPdpContext | setIpMultiplexing =>
    rw [inside_of_array rfl rfl]
    refine (returns_defined fun text _ => returns_of_settles (simpleCmd_settles uart text s)).trans ?_
    simp [text]
  | udpOpen addr port =>
    rw [inside_of_array rfl rfl]
    refine (returns_map ATRetCode.value).trans ?_
    refine (returns_defined fun text _ => returns_of_settles (ask_settles uart text _ _ s)).trans ?_
    simp [text]
  | udpSend data =>
    rw [inside_of_array rfl rfl]
    exact iff_of_true ((returns_map ATRetCode.value).mpr (udpSend_returns uart _ _ s)) (length_udpSend data)
  | getIpStatus =>
    rw [inside_of_cutter (by rintro size ⟨⟩) rfl]
    refine (returns_map ATRetCode.value).trans ?_
    refine (returns_map fun r : ATRetCode × Option CString => r.1).trans ?_
    exact cut_returns_iff uart .ipStatus _ s
  | getEpoValidity =>
    rw [inside_of_cutter (by rintro size ⟨⟩) rfl]
    refine (returns_map (α := ATRetCode × Option CString) (fun r => r.1.value)).trans ?_
    exact cut_returns_iff uart .epoValidity _ s
  | gpsGetRmc =>
    rw [inside_of_cutter (by rintro size ⟨⟩; decide) rfl]
    refine (returns_map fun r : ATRetCode × Option CString => r.1.value).trans ?_
    exact cut_returns_iff uart .nmeaSentence _ s

/-- `send_sms` also has to write its text. -/
theorem returns_sendSms_iff (uart : Nat → Wait) (phoneNumber text stack : CString) (s : Serial) :
    Returns (fun fuel => (sendSms phoneNumber text stack).run uart fuel) s ↔
      (sendSms phoneNumber text stack).Inside uart s ∧ ¬ (sendSms phoneNumber text stack).Endless uart s := by
  have endless : (sendSms phoneNumber text stack).Endless uart s ↔
      ∃ t, Prompts uart (sendSms phoneNumber text stack).text s t ∧ 256 ≤ (strlen text).toNat ∧
        ∀ n, t.attempts ≤ n → uart n = .sent := by
    constructor
    · rintro ⟨_, _, _, t, same, rest⟩
      obtain ⟨rfl, rfl, rfl⟩ := sendSms.inj same
      exact ⟨t, rest⟩
    · rintro ⟨t, rest⟩
      exact ⟨phoneNumber, text, stack, t, rfl, rest⟩
  have array := @inside_of_array uart (sendSms phoneNumber text stack) s 50 rfl rfl
  have parts : (sendSms phoneNumber text stack).text.length =
      (ascii "AT+CMGS=\"" ++ [phoneNumber, ascii "\"\r"].flatten).length := by
    simp [AtCommand.text]
  rw [array, endless, not_exists]
  have written := @sendSms_returns_iff uart phoneNumber text stack
  by_cases fits : (sendSms phoneNumber text stack).text.length < 50
  · obtain ⟨b, built, -⟩ := Buffer.build_of_lt (parts ▸ fits)
    have same : (fun fuel => (sendSms phoneNumber text stack).run uart fuel) =
        fun fuel => do return (← Zouipocar.sendSms uart phoneNumber text stack fuel).value := by
      funext fuel
      rw [run, built]
      rfl
    rw [same, and_iff_right fits]
    refine (returns_map ATRetCode.value).trans ((written (Nat.lt_trans fits (by decide)) s).trans ?_)
    simp only [not_and]
    rfl
  · refine iff_of_false ?_ fun h => fits h.1
    rintro ⟨fuel, a, t, ran⟩
    change result (run uart fuel (.sendSms phoneNumber text stack)) s = _ at ran
    rw [run, Buffer.build_of_not_lt (parts ▸ fits)] at ran
    cases ran

/-- **A command function returns exactly when its command fits in its array, what it
cuts out of the reply lies where it is cut, and it has no endless text to write.** -/
theorem run_returns_iff (uart : Nat → Wait) (c : AtCommand) (s : Serial) :
    (∃ fuel code t, result (c.run uart fuel) s = (.ok code, t)) ↔
      (∀ size, c.array = some size → c.text.length < size) ∧
        (∀ f, c.cutter = some f → ¬ Overruns uart f c.text s) ∧ ¬ c.Endless uart s := by
  rw [← and_assoc]
  by_cases sms : ∃ phoneNumber text stack, c = sendSms phoneNumber text stack
  · obtain ⟨phoneNumber, text, stack, rfl⟩ := sms
    exact returns_sendSms_iff uart phoneNumber text stack s
  · have other : ∀ phoneNumber text stack, c ≠ sendSms phoneNumber text stack := by
      intro phoneNumber text stack same
      exact sms ⟨phoneNumber, text, stack, same⟩
    have ends : ¬ c.Endless uart s := by
      rintro ⟨_, _, _, _, same, -⟩
      exact other _ _ _ same
    exact (returns_iff_inside uart s other).trans (and_iff_left ends).symm

end AtCommand

/-! ## The program -/

section Program

variable {float : CFloat → BitVec 32} {uart : Nat → Wait}

/-- The commands of `main` fit in their arrays. -/
theorem Point.command_fits (p : Point) (fix : FixOf CFloat) : (p.command float fix).Fits := by
  cases p with
  | udpSend =>
    rintro _ ⟨⟩
    exact AtCommand.length_udpSend (datagram float fix)
  | udpOpen =>
    rintro _ ⟨⟩
    exact (by decide : (AtCommand.udpOpen Constants.server Constants.port).text.length < 50)
  | getGpsData =>
    rintro _ ⟨⟩
    exact (by decide : AtCommand.gpsGetRmc.text.length < 30)
  | getIpStatus | udpDeact => rintro _ ⟨⟩

theorem Place.command_fits (p : Place) (fix : FixOf CFloat) : (p.command float fix).Fits := by
  cases p with
  | loop m => exact m.point.command_fits fix
  | setIpMultiplexing =>
    rintro _ ⟨⟩
    exact (by decide : (AtCommand.setIpMultiplexing 0).text.length < 30)
  | setApn =>
    rintro _ ⟨⟩
    exact (by decide : (AtCommand.setApn Constants.apn).text.length < 50)
  | _ => rintro _ ⟨⟩

/-- `main` sends no SMS. -/
theorem Place.command_ne_sendSms (p : Place) (fix : FixOf CFloat) (phoneNumber text stack : CString) :
    p.command float fix ≠ .sendSms phoneNumber text stack := by
  cases p with
  | loop m =>
    rw [command]
    cases m.point <;> simp [Point.command]
  | _ => simp [command]

theorem onLine_returns {α : Type} {x : Nat → Driver α} {b : Board} :
    Returns (fun fuel => onLine (x fuel)) b ↔ Returns x b.line := returns_zoom Board.line _

/-- `process_rmc` always returns. -/
theorem getGpsData_returns {b : Board} : Returns (getGpsData uart) b ↔ Returns (gpsGetRmc uart) b.line := by
  rw [← onLine_returns]
  constructor
  · rintro ⟨fuel, a, c, ran⟩
    unfold getGpsData getNmeaData at ran
    rw [result_bind] at ran
    cases got : result (onLine (gpsGetRmc uart fuel)) b with
    | mk outcome d =>
      rw [got] at ran
      cases outcome with
      | error => cases ran
      | ok r => exact ⟨fuel, r, d, got⟩
  · rintro ⟨fuel, ⟨code, nmea⟩, d, got⟩
    refine ⟨fuel, ?_⟩
    unfold getGpsData getNmeaData
    rw [result_bind_ok got]
    dsimp only
    split
    · exact ⟨_, _, rfl⟩
    · exact ⟨_, _, rfl⟩

/-- A call of `main` returns when its command does. -/
theorem call_returns (p : Place) (b : Board) : Returns (fun fuel => p.call float uart fuel) b ↔
    Returns (fun fuel => (p.command float b.fix).run uart fuel) b.line := by
  unfold Place.call
  cases parses : p.parses with
  | true =>
    rw [Place.command_of_parses parses]
    refine (returns_map ATRetCode.value).trans ?_
    rw [getGpsData_returns]
    exact (returns_map fun r : ATRetCode × Option CString => r.1.value).symm
  | false =>
    rw [← onLine_returns]
    exact Iff.rfl

/-- **`main` makes its next call unless the text it cuts out of a reply lies
outside.** -/
theorem main_steps_iff (p : Program) : (∃ e q, Program.Step float uart p e q) ↔
    ∀ f, (p.place.command float p.board.fix).cutter = some f →
      ¬ Overruns uart f (p.place.command float p.board.fix).text p.board.line := by
  have inside : (p.place.command float p.board.fix).Inside uart p.board.line ↔ _ :=
    and_iff_right (p.place.command_fits p.board.fix)
  rw [← inside, ← AtCommand.returns_iff_inside uart _ (p.place.command_ne_sendSms p.board.fix), ← call_returns]
  constructor
  · rintro ⟨e, q, taken⟩
    obtain ⟨fuel, board, ran, -⟩ := Program.step_cases taken
    exact ⟨fuel, e.code, board, ran⟩
  · rintro ⟨fuel, code, board, ran⟩
    obtain ⟨e, taken⟩ := Program.step_of_result ran
    exact ⟨e, _, taken⟩

end Program

end Zouipocar
