import Zouipocar.Lib.Transition
import Zouipocar.Tracker.Commands

/-!
# What the commands put on the line

A command function writes its own line and nothing else, whatever the modem
answers; only `udp_send` and `send_sms` may write more, behind a prompt. A UART
that fails cuts a text short, one that never fails does not; a text of 256 bytes
is written from the start again until the UART fails. So the modem gets the
commands as they were called, one line each, unless one of them lacks its
carriage return or has one inside: `clear_sms_memory` lacks it.
-/

namespace Zouipocar
set_option autoImplicit false
open Lib Action

/-- A UART that never times out. -/
def Reliable (uart : Nat → Wait) : Prop := ∀ n, uart n = .sent

/-- The beginnings of a text, and the whole of it only on a reliable UART. -/
def Sends (uart : Nat → Wait) (text : List Byte) : Language Byte :=
  {w | w <+: text ∧ (Reliable uart → w = text)}

/-- A text again and again, until a byte of it times out. -/
def Repeats (uart : Nat → Wait) (text : List Byte) : Language Byte :=
  {w | ¬ Reliable uart ∧ ∃ n, w <+: (List.replicate n text).flatten}

/-- What `uart_write_string` may have written when it returns: its counter never
reaches a size of 256. -/
def Writes (uart : Nat → Wait) (s : CString) : Language Byte :=
  if (strlen s).toNat < 256 then Sends uart (s.take (strlen s).toNat) else Repeats uart (s.take 256)

section Sends

variable {uart : Nat → Wait} {w text more : List Byte}

theorem sends_nil : [] ∈ Sends uart [] := ⟨List.prefix_refl [], fun _ => rfl⟩

/-- One more byte in front. -/
theorem Sends.cons {b : Byte} (h : w ∈ Sends uart text) : b :: w ∈ Sends uart (b :: text) :=
  ⟨(List.cons_prefix_cons).mpr ⟨rfl, h.1⟩, fun reliable => by rw [h.2 reliable]⟩

/-- What has been written when a byte was not sent in time. -/
theorem Sends.broken {b : Byte} (some : w <+: [b]) (failed : ¬ Reliable uart) : w ∈ Sends uart (b :: text) :=
  ⟨some.trans ⟨text, rfl⟩, fun reliable => (failed reliable).elim⟩

/-- A short string is written as it is. -/
theorem writes_of_lt {s : CString} (short : s.length < 256) : Writes uart s = Sends uart s := by
  have size : (strlen s).toNat = s.length := (strlen_toNat s).trans (Nat.mod_eq_of_lt (by omega))
  rw [Writes, if_pos (size ▸ short), size, List.take_length]

end Sends

/-! ## The writers -/

section Writers

variable (uart : Nat → Wait)

/-- The byte itself, or as much of it as gets out before a timeout. -/
theorem emits_uartWriteByte (b : Byte) : Emits Serial.tx (uartWriteByte uart b) fun code =>
    match code with
    | .ok => {[b]}
    | .timeout => {w | w <+: [b] ∧ ¬ Reliable uart} := by
  intro s code t ran
  have tx : t.tx = if uart s.attempts = .blocked then s.tx else s.tx ++ [b] :=
    (congrArg (fun r => r.2.tx) ran).symm
  have ends : (if uart s.attempts = .sent then UartCode.ok else .timeout) = code :=
    Except.ok.inj (congrArg Prod.fst ran)
  cases fared : uart s.attempts with
  | sent =>
    rw [fared] at tx ends
    obtain rfl : UartCode.ok = code := ends
    exact ⟨[b], rfl, tx⟩
  | blocked =>
    rw [fared] at tx ends
    obtain rfl : UartCode.timeout = code := ends
    refine ⟨[], ⟨List.nil_prefix, fun reliable => ?_⟩, tx.trans (List.append_nil _).symm⟩
    rw [reliable] at fared
    cases fared
  | unconfirmed =>
    rw [fared] at tx ends
    obtain rfl : UartCode.timeout = code := ends
    refine ⟨[b], ⟨List.prefix_refl _, fun reliable => ?_⟩, tx⟩
    rw [reliable] at fared
    cases fared

/-- **The loop writes the bytes from its index on, until a byte times out.** -/
theorem emits_writeLoop {data : List Byte} {size : BitVec 16} (small : size.toNat < 256)
    (inside : size.toNat ≤ data.length) (fuel : Nat) :
    ∀ (left : Nat) (i : BitVec 8), i.toNat + left = size.toNat →
      Emits Serial.tx (writeLoop uart data size fuel i) fun _ =>
        Sends uart ((data.drop i.toNat).take left) := by
  induction fuel with
  | zero => exact fun left i rest => emits_throw () _
  | succ fuel ih =>
    intro left i rest
    rw [writeLoop]
    by_cases more : i.toNat < size.toNat
    · obtain ⟨left, rfl⟩ : ∃ k, left = k + 1 := ⟨left - 1, by omega⟩
      have next := counter_next small more
      have here : i.toNat < data.length := by omega
      have byte : data.getD i.toNat 0 = data[i.toNat] := List.getD_eq_getElem _ _ here
      rw [if_pos (counter_lt.mpr more), byte, List.drop_eq_getElem_cons here, List.take_succ_cons]
      apply (emits_uartWriteByte uart data[i.toNat]).bind (U := fun code _ =>
        match code with
        | .ok => Sends uart ((data.drop (i.toNat + 1)).take left)
        | .timeout => 1)
      · intro code
        cases code with
        | ok => exact next ▸ ih left (i + 1) (by omega)
        | timeout => exact emits_pure _ rfl
      · intro code _ w inside
        obtain ⟨v, word, rest', behind, rfl⟩ := Language.mem_mul.mp inside
        cases code with
        | ok =>
          obtain rfl : v = [data[i.toNat]] := word
          exact Sends.cons behind
        | timeout =>
          obtain rfl : rest' = [] := behind
          show v ++ [] ∈ Sends uart _
          rw [List.append_nil]
          exact Sends.broken word.1 word.2
    · obtain rfl : left = 0 := by omega
      rw [if_neg (by rw [counter_lt]; exact more), List.take_zero]
      exact emits_pure _ sends_nil

/-- **A size that the counter never reaches: the first 256 bytes again and again,
until one times out.** -/
theorem emits_writeLoop_long {data : List Byte} {size : BitVec 16} (large : 256 ≤ size.toNat)
    (inside : size.toNat ≤ data.length) (fuel : Nat) :
    ∀ i : BitVec 8, Emits Serial.tx (writeLoop uart data size fuel i) fun _ =>
      {w | ¬ Reliable uart ∧ ∃ n, data.take i.toNat ++ w <+: (List.replicate n (data.take 256)).flatten} := by
  induction fuel with
  | zero => exact fun i => emits_throw () _
  | succ fuel ih =>
    intro i
    have small := i.isLt
    have here : i.toNat < data.length := by omega
    have byte : data.getD i.toNat 0 = data[i.toNat] := List.getD_eq_getElem _ _ here
    have longer : data.take i.toNat ++ [data[i.toNat]] = data.take (i.toNat + 1) :=
      List.take_append_getElem here
    rw [writeLoop, if_pos (counter_lt.mpr (by omega)), byte]
    apply (emits_uartWriteByte uart data[i.toNat]).bind (U := fun code _ =>
      match code with
      | .ok => {w | ¬ Reliable uart ∧
          ∃ n, data.take (i + 1).toNat ++ w <+: (List.replicate n (data.take 256)).flatten}
      | .timeout => 1)
    · intro code
      cases code with
      | ok => exact ih (i + 1)
      | timeout => exact emits_pure _ rfl
    · intro code _ w inside
      obtain ⟨v, word, rest, behind, rfl⟩ := Language.mem_mul.mp inside
      cases code with
      | ok =>
        obtain rfl : v = [data[i.toNat]] := word
        obtain ⟨failed, n, onward⟩ := behind
        refine ⟨failed, ?_⟩
        rw [← List.append_assoc, longer]
        rcases Nat.lt_or_ge (i.toNat + 1) 256 with within | around
        · rw [BitVec.toNat_add] at onward
          change data.take ((i.toNat + 1) % 256) ++ rest <+: _ at onward
          rw [Nat.mod_eq_of_lt within] at onward
          exact ⟨n, onward⟩
        · -- the counter wraps around behind the last of the 256
          have last : i.toNat + 1 = 256 := by omega
          rw [BitVec.toNat_add] at onward
          change data.take ((i.toNat + 1) % 256) ++ rest <+: _ at onward
          rw [last] at onward ⊢
          refine ⟨n + 1, ?_⟩
          rw [List.replicate_succ, List.flatten_cons]
          exact (List.prefix_append_right_inj _).mpr onward
      | timeout =>
        obtain rfl : rest = [] := behind
        refine ⟨word.2, 1, ?_⟩
        rw [List.append_nil, List.replicate_one, List.flatten_singleton]
        have some : data.take i.toNat ++ v <+: data.take (i.toNat + 1) := by
          rw [← longer]
          exact (List.prefix_append_right_inj _).mpr word.1
        exact some.trans (List.take_prefix_take_left (by omega))

theorem emits_uartWriteString (s : CString) (fuel : Nat) :
    Emits Serial.tx (uartWriteString uart s fuel) fun _ => Writes uart s := by
  have size := strlen_toNat s
  have inside : (strlen s).toNat ≤ s.length := size.trans_le (Nat.mod_le _ _)
  by_cases small : (strlen s).toNat < 256
  · have loop := emits_writeLoop uart small inside fuel (strlen s).toNat 0 (Nat.zero_add _)
    rw [show (0 : BitVec 8).toNat = 0 from rfl, List.drop_zero] at loop
    rw [Writes, if_pos small]
    exact loop
  · have loop := emits_writeLoop_long uart (Nat.le_of_not_lt small) inside fuel 0
    rw [Writes, if_neg small]
    exact loop

theorem quiet_uartFlush : Quiet Serial.tx uartFlush := quiet_modify fun _ => rfl

theorem quiet_waitResponse (stopWords : List CString) (fuel : Nat) :
    Quiet Serial.tx (waitResponse stopWords fuel) := by
  intro s a t ran
  rw [waitResponse, result_bind_ok (result_get s)] at ran
  cases heard : getResponse stopWords fuel s.port with
  | none =>
    rw [heard] at ran
    cases ran
  | some port =>
    rw [heard] at ran
    obtain ⟨-, rfl⟩ := Prod.mk.inj ran
    exact ⟨[], rfl, (List.append_nil _).symm⟩

theorem quiet_readLine : Quiet Serial.tx readLine := by
  rintro s _ _ ⟨⟩
  exact ⟨[], rfl, (List.append_nil _).symm⟩

theorem quiet_readByte : Quiet Serial.tx readByte := by
  rintro s _ _ ⟨⟩
  exact ⟨[], rfl, (List.append_nil _).symm⟩

/-- A command of bytes: the first ones, and nothing while it waits. -/
theorem emits_cmdRawData {data : List Byte} {dataSize : BitVec 8} (inside : dataSize.toNat ≤ data.length)
    (stopWords : List CString) (fuel : Nat) :
    Emits Serial.tx (cmdRawData uart data dataSize stopWords fuel) fun _ =>
      Sends uart (data.take dataSize.toNat) := by
  have small := dataSize.isLt
  have size := zeroExtend_toNat dataSize
  have loop := emits_writeLoop uart (size ▸ small) (size ▸ inside) fuel dataSize.toNat 0
    ((Nat.zero_add _).trans size.symm)
  rw [show (0 : BitVec 8).toNat = 0 from rfl, List.drop_zero] at loop
  apply quiet_uartFlush.bind
  intro _
  exact loop.then_quiet fun _ => quiet_waitResponse stopWords fuel

/-- `cmd` writes as much as is left of the length modulo 256. -/
theorem emits_cmd_mod (s : CString) (stopWords : List CString) (fuel : Nat) :
    Emits Serial.tx (cmd uart s stopWords fuel) fun _ => Sends uart (s.take (s.length % 256)) := by
  have size := dataSize_toNat s
  have inside : ((strlen s).truncate 8).toNat ≤ s.length := size.trans_le (Nat.mod_le _ _)
  rw [← size]
  exact emits_cmdRawData uart inside stopWords fuel

theorem emits_cmd {s : CString} (short : s.length < 256) (stopWords : List CString) (fuel : Nat) :
    Emits Serial.tx (cmd uart s stopWords fuel) fun _ => Sends uart s := by
  have raw := emits_cmd_mod uart s stopWords fuel
  rw [Nat.mod_eq_of_lt short, List.take_length] at raw
  exact raw

end Writers

/-! ## The commands -/

/-- What an array ends up with. -/
theorem Buffer.text_of_build {size : Nat} {first : CString} {parts : List CString} {b : Buffer size}
    (built : build size first parts = some b) : b.text = first ++ parts.flatten := by
  induction parts using List.reverseRecOn generalizing b with
  | nil =>
    rw [build, List.foldl_nil, init] at built
    split at built
    · obtain rfl := Option.some.inj built
      exact (List.append_nil _).symm
    · cases built
  | append_singleton parts last ih =>
    rw [build, List.foldl_append] at built
    obtain ⟨c, before, added⟩ := Option.bind_eq_some_iff.mp built
    rw [strcat, init] at added
    split at added
    · obtain rfl := Option.some.inj added
      show c.text ++ last = _
      rw [ih before]
      simp
    · cases added

section Emits

variable (uart : Nat → Wait)

theorem quiet_answer {α : Type} (f : Response → α) :
    Quiet Serial.tx (do return f (← get).port.res : Driver α) := by
  apply quiet_get.bind
  exact fun _ => emits_pure _ rfl

theorem emits_simpleCmd {s : CString} (short : s.length < 256) (fuel : Nat) :
    Emits Serial.tx (simpleCmd uart s fuel) fun _ => Sends uart s := by
  apply (emits_cmd uart short okError fuel).then_quiet
  intro _
  exact quiet_answer (·.retCode)

theorem emits_ask {s : CString} (short : s.length < 256) (stopWords : List CString)
    (evaluate : Int → CString → ATRetCode) (fuel : Nat) :
    Emits Serial.tx (ask uart s stopWords evaluate fuel) fun _ => Sends uart s := by
  apply (emits_cmd uart short stopWords fuel).then_quiet
  intro _
  exact quiet_answer fun res => evaluate res.retCode res.text

theorem emits_cut (f : Cutter) {s : CString} (short : s.length < 256) (fuel : Nat) :
    Emits Serial.tx (cut uart f s fuel) fun _ => Sends uart s := by
  apply (emits_cmd uart short f.stopWords fuel).then_quiet
  intro _
  apply quiet_get.bind
  intro s
  dsimp only
  split
  · exact emits_pure _ rfl
  · split
    · exact emits_pure _ rfl
    · exact emits_throw () _

/-- A command from an array is short, and is what was put there. -/
theorem emits_defined {α : Type} {size : Nat} (small : size ≤ 256) {first : CString} {parts : List CString}
    {call : CString → Driver α}
    (each : ∀ s : CString, s.length < 256 → Emits Serial.tx (call s) fun _ => Sends uart s) :
    Emits Serial.tx (do let str ← defined (Buffer.build size first parts); call str.text)
      fun _ => Sends uart (first ++ parts.flatten) := by
  cases built : Buffer.build size first parts with
  | none => exact emits_throw () _
  | some b =>
    rw [← Buffer.text_of_build built]
    exact each b.text (Nat.lt_of_lt_of_le b.fits small)

theorem emits_simpleCmdIn {size : Nat} (small : size ≤ 256) (first : CString) (parts : List CString)
    (fuel : Nat) :
    Emits Serial.tx (simpleCmdIn uart size first parts fuel) fun _ => Sends uart (first ++ parts.flatten) :=
  emits_defined uart small fun _ short => emits_simpleCmd uart short fuel

/-- Nothing more when the prompt does not come. -/
theorem emits_prompted {command : CString} (short : command.length < 256) {fail : ATRetCode}
    (fails : fail ≠ .ok) {send : Driver ATRetCode} {V : Language Byte}
    (sends : Emits Serial.tx send fun _ => V) (fuel : Nat) :
    Emits Serial.tx (prompted uart command fail send fuel) fun code =>
      Sends uart command * (V + if code = .ok then 0 else 1) := by
  have nothing : ∀ code : ATRetCode, code ≠ .ok → [] ∈ V + if code = .ok then 0 else 1 := by
    intro code other
    rw [if_neg other]
    exact .inr rfl
  apply quiet_uartFlush.bind
  intro _
  have line := emits_uartWriteString uart command fuel
  rw [writes_of_lt short] at line
  apply line.bind (U := fun _ code => V + if code = .ok then 0 else 1)
  · intro _
    apply quiet_readLine.bind
    intro read
    cases read with
    | timeout => exact emits_pure _ (nothing _ (by simp))
    | ok =>
      apply quiet_readByte.bind
      intro first
      apply quiet_readByte.bind
      intro second
      split
      · exact emits_pure _ (nothing _ (by simp))
      · split
        · exact emits_pure _ (nothing _ fails)
        · apply quiet_uartFlush.bind
          intro _
          exact sends.mono fun code => le_self_add
  · exact fun _ _ => le_rfl

theorem emits_udpSend (data : { bytes : List Byte // bytes.length < 256 }) (fuel : Nat) :
    Emits Serial.tx (udpSend uart data.val (BitVec.ofNat 8 data.val.length) fuel) fun code =>
      Sends uart (AtCommand.udpSend data).text * (Sends uart data.val + if code = .ok then 0 else 1) := by
  have size : (BitVec.ofNat 8 data.val.length).toNat = data.val.length := by
    rw [BitVec.toNat_ofNat]
    exact Nat.mod_eq_of_lt data.property
  have raw := emits_cmdRawData uart size.le [ascii "OK", ascii "ERROR", ascii "FAIL"] fuel
  have short := length_qisend (BitVec.ofNat 8 data.val.length)
  rw [size] at short
  rw [size, List.take_length] at raw
  rw [udpSend, size]
  apply emits_prompted uart short (by simp)
  apply raw.then_quiet
  intro _
  exact quiet_answer fun res => udpSendCode res.retCode

theorem emits_sendSms (phoneNumber text stack : CString)
    (short : (ascii "AT+CMGS=\"" ++ phoneNumber ++ ascii "\"\r").length < 256) (fuel : Nat) :
    Emits Serial.tx (sendSms uart phoneNumber text stack fuel) fun code =>
      Sends uart (AtCommand.sendSms phoneNumber text stack).text *
        (Writes uart text * Sends uart ((26 :: stack).take ((stack.length + 1) % 256)) +
          if code = .ok then 0 else 1) := by
  apply emits_prompted uart short (by simp)
  apply (emits_uartWriteString uart text fuel).bind
    (U := fun _ _ => Sends uart ((26 :: stack).take ((stack.length + 1) % 256)))
  · intro _
    apply (emits_cmd_mod uart (26 :: stack) [ascii "OK", ascii "ERROR"] fuel).then_quiet
    intro _
    exact quiet_answer fun res => sendSmsCode res.retCode
  · exact fun _ _ => le_rfl

end Emits

namespace AtCommand

/-- What a call that returns a code may have written: its line, then all of what
goes behind the prompt, or nothing more, which is no success. -/
def language (uart : Nat → Wait) (c : AtCommand) (code : Int) : Language Byte :=
  Sends uart c.text * ((c.payload.map (Writes uart)).prod + if code = ATRetCode.ok.value then 0 else 1)

variable {uart : Nat → Wait} {c : AtCommand}

/-- A command without a prompt writes its line. -/
theorem emits_plain {σ : Type} {out : σ → List Byte} {x : Action σ Unit Int} (plain : c.payload = [])
    (h : Emits out x fun _ => Sends uart c.text) : Emits out x (c.language uart) := by
  apply h.mono
  intro code w line
  rw [language, plain]
  exact Language.mem_mul.mpr ⟨w, line, [], .inl rfl, List.append_nil w⟩

/-- The language of a code, as that of its number. -/
theorem value_ok (code : ATRetCode) : code.value = ATRetCode.ok.value ↔ code = .ok := by
  cases code <;> decide

/-- A code is returned as its number. -/
theorem emits_value {x : Driver ATRetCode} {W : ATRetCode → Language Byte} (h : Emits Serial.tx x W)
    (within : ∀ code, W code ≤ c.language uart code.value) :
    Emits Serial.tx (do return (← x).value : Driver Int) (c.language uart) := by
  apply h.bind (U := fun code number => if number = code.value then 1 else 0)
  · intro code
    exact emits_pure _ (by rw [if_pos rfl]; rfl)
  · intro code number
    by_cases same : number = code.value
    · subst same
      rw [if_pos rfl, mul_one]
      exact within code
    · rw [if_neg same, mul_zero]
      exact bot_le

theorem emits_plain_value {α : Type} {x : Driver α} (f : α → ATRetCode) (plain : c.payload = [])
    (h : Emits Serial.tx x fun _ => Sends uart c.text) :
    Emits Serial.tx (do return (f (← x)).value : Driver Int) (c.language uart) :=
  emits_plain plain (h.then_quiet fun _ => emits_pure _ rfl)

/-- A command from an array. -/
theorem emits_array {size : Nat} {first : CString} {parts : List CString} {fuel : Nat} (small : size ≤ 256)
    (plain : c.payload = []) (whole : first ++ parts.flatten = c.text) :
    Emits Serial.tx (simpleCmdIn uart size first parts fuel) (c.language uart) := by
  apply emits_plain plain
  rw [← whole]
  exact emits_simpleCmdIn uart small first parts fuel

variable (uart) in
/-- **Every command function writes its own line and nothing else.** -/
theorem emits_run (fuel : Nat) (c : AtCommand) : Emits Serial.tx (c.run uart fuel) (c.language uart) := by
  cases c with
  | disableEcho | udpUseDomain | udpClose | udpDeact | setSmsReceptionMode | setSmsTextMode | clearSmsMemory
  | enableEpo | removeEpoData => exact emits_plain rfl (emits_simpleCmd uart (by decide) fuel)
  | setApn | setDnsServer | dnsResolve | setPdpContext | setIpMultiplexing =>
    refine emits_array ?_ rfl ?_
    · decide
    · simp [text]
  | checkNetworkStatus | checkTimeSyncStatus | enableNtp | enableGps =>
    exact emits_plain_value id rfl (emits_ask uart (by decide) _ _ fuel)
  | getIpStatus =>
    apply emits_plain_value id rfl
    apply (emits_cut uart .ipStatus (by decide) fuel).then_quiet
    exact fun _ => emits_pure _ rfl
  | udpOpen addr port =>
    apply emits_plain_value id rfl
    have line : Emits Serial.tx (Zouipocar.udpOpen uart addr port fuel) fun _ =>
        Sends uart (ascii "AT+QIOPEN=\"UDP\",\"" ++ [addr, ascii "\",", port, ascii "\r"].flatten) :=
      emits_defined uart (by decide) fun _ short => emits_ask uart short _ _ fuel
    simpa [text] using line
  | udpSend data =>
    apply emits_value (emits_udpSend uart data fuel)
    intro code
    simp only [language, payload, List.map_cons, List.map_nil, List.prod_cons, List.prod_nil, mul_one, value_ok,
      writes_of_lt data.property]
    exact le_rfl
  | sendSms phoneNumber text stack =>
    cases built : Buffer.build 50 (ascii "AT+CMGS=\"") [phoneNumber, ascii "\"\r"] with
    | none =>
      rw [run, built]
      exact emits_throw () _
    | some b =>
      have fits := b.fits
      rw [Buffer.text_of_build built] at fits
      rw [run, built]
      have ending : ((26 :: stack).take ((stack.length + 1) % 256)).length < 256 :=
        (List.length_take_le _ _).trans_lt (Nat.mod_lt _ (by decide))
      apply emits_value (emits_sendSms uart phoneNumber text stack _ fuel)
      · intro code
        simp only [language, payload, List.map_cons, List.map_nil, List.prod_cons, List.prod_nil, mul_one,
          value_ok, writes_of_lt ending]
        exact le_rfl
      · simp only [List.flatten_cons, List.flatten_nil, List.append_nil, ← List.append_assoc] at fits
        omega
  | getEpoValidity => exact emits_plain_value Prod.fst rfl (emits_cut uart .epoValidity (by decide) fuel)
  | gpsGetRmc =>
    apply emits_plain_value Prod.fst rfl
    have line : Emits Serial.tx (Zouipocar.gpsGetRmc uart fuel) fun _ =>
        Sends uart (ascii "AT+QGNSSRD=\"NMEA/" ++ [ascii "RMC", ascii "\"\r"].flatten) :=
      emits_defined uart (by decide) fun _ short => emits_cut uart .nmeaSentence short fuel
    exact line

end AtCommand

/-! ## One command after the other -/

/-- A command with the code it returned. -/
structure Issued where
  command : AtCommand
  code : Int

/-- A call that returns. -/
def Issues (uart : Nat → Wait) (s : Serial) (e : Issued) (t : Serial) : Prop :=
  ∃ fuel, result (e.command.run uart fuel) s = (.ok e.code, t)

variable {uart : Nat → Wait} {s t : Serial} {trace : List Issued}

theorem issues_of_result {c : AtCommand} {fuel : Nat} {code : Int}
    (ran : (result (c.run uart fuel) s).1 = .ok code) :
    Issues uart s ⟨c, code⟩ (result (c.run uart fuel) s).2 := ⟨fuel, Prod.ext ran rfl⟩

/-- A line that answers two commands. -/
def answering : Serial := ⟨.listening [] .cleared, [ascii "OK\r\n", ascii "OK\r\n"], [], 0⟩

theorem answering_run : ∃ t, Run (Issues fun _ => .sent) answering [⟨.disableEcho, 0⟩, ⟨.enableGps, 0⟩] t := by
  have echo : (result (AtCommand.disableEcho.run (fun _ => .sent) 20) answering).1 = .ok 0 := by decide +kernel
  have gps : (result (AtCommand.enableGps.run (fun _ => .sent) 20)
    (result (AtCommand.disableEcho.run (fun _ => .sent) 20) answering).2).1 = .ok 0 := by decide +kernel
  exact ⟨_, .cons (issues_of_result echo) (.single (issues_of_result gps))⟩

/-- **What a run of commands writes is the product of what each of them may write.** -/
theorem issues_written (run : Run (Issues uart) s trace t) :
    ∃ w ∈ (trace.map fun e => e.command.language uart e.code).prod, t.tx = s.tx ++ w := by
  induction run with
  | refl => exact ⟨[], rfl, (List.append_nil _).symm⟩
  | @snoc m t trace e _ last ih =>
    obtain ⟨v, before, grown⟩ := ih
    obtain ⟨fuel, ran⟩ := last
    obtain ⟨w, word, grown'⟩ := AtCommand.emits_run uart fuel e.command m e.code t ran
    refine ⟨v ++ w, ?_, by rw [grown', grown, List.append_assoc]⟩
    rw [List.map_append, List.prod_append, List.map_singleton, List.prod_singleton]
    exact Language.append_mem_mul before word

/-- Both commands are written. -/
theorem issues_written_answering : ∃ t : Serial, ∃ w ∈ AtCommand.disableEcho.language (fun _ => .sent) 0 *
    AtCommand.enableGps.language (fun _ => .sent) 0, t.tx = w := by
  obtain ⟨t, run⟩ := answering_run
  obtain ⟨w, word, grown⟩ := issues_written run
  exact ⟨t, w, by simpa using word, grown⟩

namespace AtCommand

/-- What the caller puts into the line. -/
def arguments : AtCommand → CString
  | setApn s | setDnsServer s | dnsResolve s | sendSms s _ _ => s
  | udpOpen addr port => addr ++ port
  | _ => []

/-- The line without its carriage return. -/
def body (c : AtCommand) : CString := c.text.takeWhile (· ≠ 13)

/-- A command without a prompt, and with no carriage return in its arguments. -/
structure Plain (c : AtCommand) : Prop where
  unprompted : c.payload = []
  oneLine : 13 ∉ c.arguments

end AtCommand

/-- The lines the modem gets between two states of the line; the last is still open. -/
def linesBetween (s t : Serial) : List CString := (t.tx.drop s.tx.length).splitOn 13

/-- A number is written without carriage returns. -/
theorem not_mem_ascii_repr (n : Nat) : 13 ∉ ascii n.repr := by
  intro inside
  rw [ascii, Nat.repr, String.toList_ofList] at inside
  obtain ⟨c, among, same⟩ := List.mem_map.mp inside
  have digit := Nat.isDigit_of_mem_toDigits (by decide) (by decide) among
  rw [Char.isDigit, Bool.and_eq_true, decide_eq_true_eq, decide_eq_true_eq] at digit
  have code := congrArg BitVec.toNat same
  have low : 48 ≤ c.toNat := digit.1
  have high : c.toNat ≤ 57 := digit.2
  rw [BitVec.toNat_ofNat] at code
  change c.toNat % 256 = 13 at code
  omega

theorem not_mem_formatInt (n : Int) : 13 ∉ formatInt n := by
  rw [formatInt, Int.toString_eq_repr]
  cases n with
  | ofNat n => exact not_mem_ascii_repr n
  | negSucc n =>
    rw [Int.repr, ascii, String.toList_append, List.map_append]
    intro inside
    rcases List.mem_append.mp inside with sign | digits
    · revert sign
      decide
    · exact not_mem_ascii_repr _ digits

namespace AtCommand

variable {c : AtCommand}

/-- A line with its one carriage return at its end, in three parts. -/
theorem framed_of_parts (first middle last : CString) (whole : c.text = first ++ middle ++ (last ++ [13]))
    (start : 13 ∉ first) (argument : 13 ∉ middle) (ending : 13 ∉ last) :
    c.text = c.body ++ [13] ∧ 13 ∉ c.body := by
  have oneLine : 13 ∉ first ++ middle ++ last := by
    simp only [List.mem_append, not_or]
    exact ⟨⟨start, argument⟩, ending⟩
  have all : ∀ b ∈ first ++ middle ++ last, decide (b ≠ 13) = true := by
    intro b inside
    exact decide_eq_true fun same => oneLine (same ▸ inside)
  rw [← List.append_assoc] at whole
  have same : c.body = first ++ middle ++ last := by
    rw [body, whole, List.takeWhile_append_of_pos all]
    exact List.append_nil _
  rw [same]
  exact ⟨whole, oneLine⟩

/-- **A plain command is one line, unless it clears the memory.** -/
theorem Plain.framed (h : c.Plain) (other : c ≠ .clearSmsMemory) :
    c.text = c.body ++ [13] ∧ 13 ∉ c.body := by
  have oneLine := h.oneLine
  cases c with
  | clearSmsMemory => exact (other rfl).elim
  | udpSend | sendSms => cases h.unprompted
  | setApn apnUrl =>
    exact framed_of_parts (ascii "AT+QICSGP=1,\"") apnUrl (ascii "\",,") rfl (by decide) oneLine (by decide)
  | setDnsServer addr =>
    exact framed_of_parts (ascii "AT+QIDNSCFG=\"") addr (ascii "\"") rfl (by decide) oneLine (by decide)
  | dnsResolve domain =>
    exact framed_of_parts (ascii "AT+QIDNSGIP=\"") domain (ascii "\"") rfl (by decide) oneLine (by decide)
  | setPdpContext context =>
    exact framed_of_parts (ascii "AT+QIFGCNT=") (formatInt context.toInt) [] rfl (by decide)
      (not_mem_formatInt _) (by decide)
  | setIpMultiplexing state =>
    exact framed_of_parts (ascii "AT+QIMUX=") (formatInt _) [] rfl (by decide) (not_mem_formatInt _) (by decide)
  | udpOpen addr port =>
    obtain ⟨plainAddr, plainPort⟩ := not_or.mp (mt List.mem_append.mpr oneLine)
    apply framed_of_parts (ascii "AT+QIOPEN=\"UDP\",\"" ++ addr ++ ascii "\",") port []
    · rfl
    · simp only [List.mem_append, not_or]
      exact ⟨⟨by decide, plainAddr⟩, by decide⟩
    · exact plainPort
    · decide
  | _ => decide

/-- Clearing the memory ends no line. -/
theorem clearSmsMemory_open : 13 ∉ clearSmsMemory.text := by decide

/-- On a reliable UART a plain command is its line. -/
theorem Plain.language (h : c.Plain) (reliable : Reliable uart) (code : Int) {w : List Byte}
    (word : w ∈ c.language uart code) : w = c.text := by
  rw [AtCommand.language, h.unprompted] at word
  obtain ⟨v, line, rest, behind, rfl⟩ := Language.mem_mul.mp word
  have nothing : rest = [] := by
    rcases (Language.mem_add _ _ _).mp behind with empty | more
    · exact empty
    · split at more
      · cases more
      · exact more
  rw [nothing, line.2 reliable]
  exact List.append_nil _

end AtCommand

/-- What a reliable UART has sent after a run of plain commands. -/
theorem issues_texts (reliable : Reliable uart) (run : Run (Issues uart) s trace t)
    (plain : ∀ e ∈ trace, e.command.Plain) :
    t.tx = s.tx ++ (trace.map fun e => e.command.text).flatten := by
  induction run with
  | refl => exact (List.append_nil _).symm
  | @snoc m t trace e _ last ih =>
    obtain ⟨before, here⟩ := List.forall_mem_append.mp plain
    obtain ⟨fuel, ran⟩ := last
    obtain ⟨w, word, grown⟩ := AtCommand.emits_run uart fuel e.command m e.code t ran
    rw [grown, ih before, (here e (List.mem_singleton.mpr rfl)).language reliable e.code word,
      List.map_append, List.flatten_append, List.append_assoc]
    simp

/-- Lines one after the other are told apart by their carriage returns. -/
theorem splitOn_framed {cs : List AtCommand} (plain : ∀ c ∈ cs, c.Plain) (closed : .clearSmsMemory ∉ cs) :
    (cs.map (·.text)).flatten.splitOn 13 = cs.map (·.body) ++ [[]] := by
  induction cs with
  | nil => rfl
  | cons c rest ih =>
    obtain ⟨here, there⟩ := List.forall_mem_cons.mp plain
    obtain ⟨other, others⟩ := not_or.mp (mt List.mem_cons.mpr closed)
    obtain ⟨whole, oneLine⟩ := here.framed (Ne.symm other)
    rw [List.map_cons, List.flatten_cons, whole, List.append_assoc, List.singleton_append,
      List.splitOn_append_cons_self_of_not_mem oneLine, ih there others]
    rfl

theorem length_splitOn (b : Byte) (l : List Byte) : (l.splitOn b).length = l.count b + 1 := by
  induction l with
  | nil => rfl
  | cons x rest ih =>
    rw [List.splitOn_cons_eq_if_modifyHead, List.count_cons]
    split
    · rw [List.length_cons, ih]
    · rw [List.length_modifyHead, ih]

/-- A line is lost with every clearing of the memory. -/
theorem count_flatten_texts {cs : List AtCommand} (plain : ∀ c ∈ cs, c.Plain) :
    (cs.map (·.text)).flatten.count 13 + cs.count .clearSmsMemory = cs.length := by
  induction cs with
  | nil => rfl
  | cons c rest ih =>
    obtain ⟨here, there⟩ := List.forall_mem_cons.mp plain
    have others := ih there
    rw [List.map_cons, List.flatten_cons, List.count_append, List.length_cons]
    by_cases clears : c = .clearSmsMemory
    · have opens : c.text.count 13 = 0 := by
        rw [clears]
        exact List.count_eq_zero.mpr AtCommand.clearSmsMemory_open
      rw [opens, clears, List.count_cons_self]
      omega
    · obtain ⟨whole, oneLine⟩ := here.framed clears
      have one : c.text.count 13 = 1 := by
        rw [whole, List.count_append, List.count_eq_zero.mpr oneLine]
        rfl
      rw [one, List.count_cons_of_ne clears]
      omega

/-- **The modem gets the commands line by line exactly when the memory is never
cleared.** -/
theorem linesBetween_iff (reliable : Reliable uart) (run : Run (Issues uart) s trace t)
    (plain : ∀ e ∈ trace, e.command.Plain) :
    linesBetween s t = trace.map (·.command.body) ++ [[]] ↔ ∀ e ∈ trace, e.command ≠ .clearSmsMemory := by
  have written := issues_texts reliable run plain
  have sent : t.tx.drop s.tx.length = ((trace.map (·.command)).map (·.text)).flatten := by
    rw [written, List.drop_left, List.map_map]
    rfl
  have plain' : ∀ c ∈ trace.map (·.command), c.Plain := List.forall_mem_map.mpr plain
  rw [linesBetween, sent]
  constructor
  · intro lines e inside clears
    have enough := congrArg List.length lines
    rw [length_splitOn, List.length_append, List.length_map, List.length_singleton] at enough
    have lost := count_flatten_texts plain'
    rw [List.length_map] at lost
    have once : 0 < (trace.map (·.command)).count .clearSmsMemory :=
      List.count_pos_iff.mpr (List.mem_map.mpr ⟨e, inside, clears⟩)
    omega
  · intro never
    rw [splitOn_framed plain' (by simpa using never), List.map_map]
    rfl

/-- They arrive as two lines. -/
theorem linesBetween_iff_answering : ∃ t, linesBetween answering t = [ascii "ATE0", ascii "AT+QGNSSC=1", []] := by
  obtain ⟨t, run⟩ := answering_run
  have plain : ∀ e ∈ [Issued.mk .disableEcho 0, ⟨.enableGps, 0⟩], e.command.Plain := by
    intro e inside
    simp only [List.mem_cons, List.not_mem_nil, or_false] at inside
    rcases inside with rfl | rfl <;> exact ⟨rfl, List.not_mem_nil⟩
  refine ⟨t, (linesBetween_iff (fun _ => rfl) run plain).mpr ?_⟩
  decide

end Zouipocar
