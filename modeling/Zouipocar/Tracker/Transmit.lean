import Mathlib.Data.List.GetD
import Zouipocar.Lib.Action
import Zouipocar.Tracker.Link

/-!
# Writing to the serial line

`uart_write_array` counts with a `uint8_t` up to a size of type `size_t`, and
`cmd_raw_data` takes its size as a `uint8_t`. Below 256 bytes both paths write
what they are given; from 256 bytes on the loop of the first never ends, and
the second writes as many bytes as are left of the length modulo 256.
-/

namespace Zouipocar
set_option autoImplicit false
open Lib

/-- How `uart_write_byte` fares: its byte is sent, or the register never gets
empty, or the end of the transmission is not seen in time. -/
inductive Wait
  | sent | blocked | unconfirmed
deriving DecidableEq

/-- Both directions of the line. -/
structure Serial where
  port : Port
  /-- What arrives after each flush to come, up to the next. -/
  later : List (List Byte)
  /-- What has been written. -/
  tx : List Byte
  /-- The calls of `uart_write_byte`. -/
  attempts : Nat

/-- A driver ends with `()` when its fuel is spent. -/
abbrev Driver (α : Type) := Action Serial Unit α

section Drivers

variable (uart : Nat → Wait)

def uartWriteByte (data : Byte) : Driver UartCode := do
  let s ← get
  set { s with
    tx := if uart s.attempts = Wait.blocked then s.tx else s.tx ++ [data]
    attempts := s.attempts + 1 }
  return if uart s.attempts = Wait.sent then .ok else .timeout

/-- The loop of `uart_write_array` from an index on. -/
def writeLoop (data : List Byte) (size : BitVec 16) : Nat → BitVec 8 → Driver UartCode
  | 0, _ => throw ()
  | fuel + 1, i =>
    if i.zeroExtend 16 < size then do
      match ← uartWriteByte uart (data.getD i.toNat 0) with
      | .timeout => return .timeout
      | .ok => writeLoop data size fuel (i + 1)
    else return .ok

def uartWriteArray (data : List Byte) (size : BitVec 16) (fuel : Nat) : Driver UartCode :=
  writeLoop uart data size fuel 0

/-- `strlen`, a `size_t`. -/
def strlen (s : CString) : BitVec 16 := BitVec.ofNat 16 s.length

def uartWriteString (string : CString) (fuel : Nat) : Driver UartCode :=
  uartWriteArray uart string (strlen string) fuel

/-- `uart_flush` drops what has arrived and was not read. -/
def uartFlush : Driver Unit := modify fun s =>
  { s with port := { s.port with rx := s.later.headD [] }, later := s.later.tail }

/-- `get_response` on the line. -/
def waitResponse (stopWords : List CString) (fuel : Nat) : Driver Unit := do
  let s ← get
  match getResponse stopWords fuel s.port with
  | none => throw ()
  | some port => set { s with port }

def cmdRawData (data : List Byte) (dataSize : BitVec 8) (stopWords : List CString) (fuel : Nat) :
    Driver Unit := do
  uartFlush
  let _ ← uartWriteArray uart data (dataSize.zeroExtend 16) fuel
  waitResponse stopWords fuel

/-- The size becomes a `uint8_t`. -/
def cmd (s : CString) (stopWords : List CString) (fuel : Nat) : Driver Unit :=
  cmdRawData uart s ((strlen s).truncate 8) stopWords fuel

end Drivers

/-! ## `get_response` returns -/

/-- Every turn takes a byte, so the loops come to an end. -/
theorem Port.Reading.returns {p : Port} (h : p.Reading) (stopWords : List CString) :
    ∃ q, p.Returns stopWords q := by
  generalize stream : p.rx = rx
  induction rx generalizing p with
  | nil =>
    have silent : (p.turn stopWords).1 = true := by
      rw [Port.turn, uartReadByte, stream]
      rfl
    exact ⟨_, (h.turn stopWords).1 silent⟩
  | cons b rest ih =>
    cases ends : (p.turn stopWords).1 with
    | true => exact ⟨_, (h.turn stopWords).1 ends⟩
    | false =>
      obtain ⟨reading, onward⟩ := (h.turn stopWords).2 ends
      have next : (p.turn stopWords).2.rx = rest := by rw [Port.turn_rx, stream, List.drop_one, List.tail_cons]
      obtain ⟨q, ran⟩ := ih reading next
      exact ⟨q, onward q ran⟩

theorem getResponse_returns (stopWords : List CString) (p : Port) :
    ∃ fuel q, getResponse stopWords fuel p = some q := by
  have reading : (resetResponse p).Reading := ⟨rfl, (by decide : 0 < maxPacketSize)⟩
  obtain ⟨q, fuel, ran⟩ := reading.returns stopWords
  exact ⟨fuel, q, ran⟩

/-! ## The write loop -/

section Loop

variable {uart : Nat → Wait} {data : List Byte} {size : BitVec 16} {fuel : Nat} {i : BitVec 8}

/-- The line after some bytes that were sent. -/
def Serial.sent (s : Serial) (bytes : List Byte) : Serial :=
  { s with tx := s.tx ++ bytes, attempts := s.attempts + bytes.length }

theorem Serial.sent_sent (s : Serial) (bytes more : List Byte) :
    (s.sent bytes).sent more = s.sent (bytes ++ more) := by
  simp [sent, Nat.add_assoc]

theorem result_uartWriteByte {s : Serial} (sent : uart s.attempts = .sent) (b : Byte) :
    Action.result (uartWriteByte uart b) s = (.ok .ok, s.sent [b]) := by
  have bytes : (if uart s.attempts = Wait.blocked then s.tx else s.tx ++ [b]) = s.tx ++ [b] :=
    if_neg (by rw [sent]; decide)
  have code : (if uart s.attempts = Wait.sent then UartCode.ok else .timeout) = .ok := if_pos sent
  show (Except.ok (if uart s.attempts = Wait.sent then UartCode.ok else .timeout),
    { s with tx := _, attempts := s.attempts + 1 }) = _
  rw [code, bytes]
  rfl

/-- A byte is the same number in a wider type. -/
theorem zeroExtend_toNat (b : BitVec 8) : (b.zeroExtend 16).toNat = b.toNat := by
  have small := b.isLt
  rw [BitVec.zeroExtend, BitVec.toNat_setWidth]
  omega

/-- The counter against the size. -/
theorem counter_lt : i.zeroExtend 16 < size ↔ i.toNat < size.toNat := by
  rw [BitVec.lt_def, zeroExtend_toNat]

/-- Below a size in its reach the counter does not wrap around. -/
theorem counter_next (small : size.toNat < 256) (more : i.toNat < size.toNat) :
    (i + 1).toNat = i.toNat + 1 := by
  rw [BitVec.toNat_add]
  show (i.toNat + 1) % 256 = _
  omega

theorem writeLoop_more {s : Serial} (sent : uart s.attempts = .sent) (more : i.toNat < size.toNat) :
    Action.result (writeLoop uart data size (fuel + 1) i) s =
      Action.result (writeLoop uart data size fuel (i + 1)) (s.sent [data.getD i.toNat 0]) := by
  rw [writeLoop, if_pos (counter_lt.mpr more), Action.result_bind_ok (result_uartWriteByte sent _)]

/-- **A size beyond the reach of the counter keeps the loop going, while no byte
times out.** -/
theorem writeLoop_endless (large : 256 ≤ size.toNat) (fuel : Nat) (i : BitVec 8) (s : Serial)
    (ready : ∀ n, s.attempts ≤ n → uart n = .sent) :
    (Action.result (writeLoop uart data size fuel i) s).1 = .error () := by
  induction fuel generalizing i s with
  | zero => rfl
  | succ fuel ih =>
    have small := i.isLt
    rw [writeLoop_more (ready _ (Nat.le_refl _)) (by omega)]
    exact ih _ _ fun n later => ready n (Nat.le_trans (Nat.le_add_right ..) later)

theorem Serial.sent_nil (s : Serial) : s.sent [] = s := by
  simp [sent]

/-- **Within its reach the loop writes the bytes from its index on.** -/
theorem writeLoop_writes (ready : ∀ n, uart n = .sent) (small : size.toNat < 256)
    (inside : size.toNat ≤ data.length) (fuel left : Nat) (i : BitVec 8)
    (rest : i.toNat + left = size.toNat) (s : Serial) :
    Action.result (writeLoop uart data size fuel i) s =
      if left < fuel then (.ok .ok, s.sent ((data.drop i.toNat).take left))
      else (.error (), s.sent ((data.drop i.toNat).take fuel)) := by
  induction fuel generalizing left i s with
  | zero =>
    rw [if_neg (Nat.not_lt_zero _), List.take_zero, Serial.sent_nil]
    rfl
  | succ fuel ih =>
    cases left with
    | zero =>
      rw [writeLoop, if_neg (by rw [counter_lt]; omega), if_pos (Nat.succ_pos _), List.take_zero,
        Serial.sent_nil]
      rfl
    | succ left =>
      have here : i.toNat < data.length := by omega
      have next := counter_next small (i := i) (by omega)
      have byte : data.getD i.toNat 0 = data[i.toNat] := List.getD_eq_getElem _ _ here
      rw [writeLoop_more (ready _) (by omega), ih left (i + 1) (by omega), Serial.sent_sent, Serial.sent_sent,
        next, byte, List.drop_eq_getElem_cons here, List.take_succ_cons, List.take_succ_cons]
      simp only [Nat.succ_lt_succ_iff]
      rfl

variable (uart data) in
/-- Whether or not its bytes are sent, the loop ends and touches nothing else. -/
theorem writeLoop_ends (small : size.toNat < 256) (fuel left : Nat) (i : BitVec 8)
    (rest : i.toNat + left = size.toNat) (enough : left < fuel) (s : Serial) :
    ∃ code t, Action.result (writeLoop uart data size fuel i) s = (.ok code, t) ∧
      t.port = s.port ∧ t.later = s.later := by
  induction fuel generalizing left i s with
  | zero => exact absurd enough (Nat.not_lt_zero _)
  | succ fuel ih =>
    rw [writeLoop]
    by_cases more : i.toNat < size.toNat
    · rw [if_pos (counter_lt.mpr more)]
      obtain ⟨code, t, wrote, port, later⟩ : ∃ code t,
          Action.result (uartWriteByte uart (data.getD i.toNat 0)) s = (.ok code, t) ∧
            t.port = s.port ∧ t.later = s.later := ⟨_, _, rfl, rfl, rfl⟩
      rw [Action.result_bind_ok wrote]
      cases code with
      | timeout => exact ⟨.timeout, t, rfl, port, later⟩
      | ok =>
        have next := counter_next small more
        obtain ⟨code, u, ran, port', later'⟩ := ih (left - 1) (i + 1) (by omega) (by omega) t
        exact ⟨code, u, ran, port'.trans port, later'.trans later⟩
    · rw [if_neg (by rw [counter_lt]; exact more)]
      exact ⟨.ok, s, rfl, rfl, rfl⟩

end Loop

/-! ## Both paths -/

section Paths

variable {uart : Nat → Wait} {α : Type}

/-- The call ends, and the string is what it has added to the bytes written. -/
def Transmits (write : Nat → Driver α) (s : CString) : Prop :=
  ∀ serial, ∃ fuel r t, Action.result (write fuel) serial = (.ok r, t) ∧ t.tx = serial.tx ++ s

theorem strlen_toNat (s : CString) : (strlen s).toNat = s.length % 2 ^ 16 := BitVec.toNat_ofNat ..

theorem take_eq_self {s : CString} {n : Nat} (same : s.take n = s) : s.length ≤ n := by
  have length := congrArg List.length same
  rw [List.length_take] at length
  omega

theorem result_uartWriteString (ready : ∀ n, uart n = .sent) {s : CString} (short : s.length < 256)
    {fuel : Nat} (enough : s.length < fuel) (serial : Serial) :
    Action.result (uartWriteString uart s fuel) serial = (.ok .ok, serial.sent s) := by
  have size := strlen_toNat s
  rw [uartWriteString, uartWriteArray,
    writeLoop_writes ready (by omega) (by omega) fuel s.length 0 (by simp; omega), if_pos enough]
  simp

theorem uartWriteString_transmits_iff (ready : ∀ n, uart n = .sent) (s : CString) :
    Transmits (uartWriteString uart s) s ↔ s.length < 256 := by
  have size := strlen_toNat s
  constructor
  · intro transmits
    by_contra long
    obtain ⟨fuel, r, t, ran, written⟩ := transmits ⟨.listening [] .cleared, [], [], 0⟩
    rw [uartWriteString, uartWriteArray] at ran
    by_cases large : 256 ≤ (strlen s).toNat
    · have endless := congrArg Prod.fst ran
      rw [writeLoop_endless large _ _ _ fun n _ => ready n] at endless
      cases endless
    · -- no such string fits in the memory: its length wraps around as well
      rw [writeLoop_writes ready (by omega) (by omega) fuel (strlen s).toNat 0 (Nat.zero_add _)] at ran
      split at ran
      · cases ran
        have whole : s.take (strlen s).toNat = s := written
        have := take_eq_self whole
        omega
      · cases ran
  · intro short serial
    exact ⟨s.length + 1, .ok, serial.sent s,
      result_uartWriteString ready short (Nat.lt_succ_self _) serial, rfl⟩

/-- The line after a flush. -/
def Serial.flushed (s : Serial) : Serial :=
  { s with port := { s.port with rx := s.later.headD [] }, later := s.later.tail }

/-- The bytes of a command go out behind a flush, before its reply is waited for. -/
theorem result_cmdRawData (ready : ∀ n, uart n = .sent) (stopWords : List CString) {data : List Byte}
    {dataSize : BitVec 8} (inside : dataSize.toNat ≤ data.length) (fuel : Nat) (serial : Serial) :
    Action.result (cmdRawData uart data dataSize stopWords fuel) serial =
      if dataSize.toNat < fuel then
        match getResponse stopWords fuel serial.flushed.port with
        | none => (.error (), serial.flushed.sent (data.take dataSize.toNat))
        | some port => (.ok (), { serial.flushed.sent (data.take dataSize.toNat) with port })
      else (.error (), serial.flushed.sent (data.take fuel)) := by
  have small := dataSize.isLt
  have size := zeroExtend_toNat dataSize
  have flush : Action.result uartFlush serial = (.ok (), serial.flushed) := rfl
  have wrote := writeLoop_writes ready (size ▸ small) (size ▸ inside) fuel dataSize.toNat 0
    ((Nat.zero_add _).trans size.symm) serial.flushed
  rw [show (0 : BitVec 8).toNat = 0 from rfl, List.drop_zero] at wrote
  rw [cmdRawData, Action.result_bind_ok flush, uartWriteArray]
  by_cases enough : dataSize.toNat < fuel
  · rw [if_pos enough] at wrote ⊢
    rw [Action.result_bind_ok wrote, waitResponse, Action.result_bind_ok (Action.result_get _)]
    show Action.result (match getResponse stopWords fuel serial.flushed.port with
      | none => throw ()
      | some port => set { serial.flushed.sent (data.take dataSize.toNat) with port }) _ = _
    cases getResponse stopWords fuel serial.flushed.port <;> rfl
  · rw [if_neg enough] at wrote ⊢
    rw [Action.result_bind_error wrote]

/-- The size that `cmd` passes is the length modulo 256. -/
theorem dataSize_toNat (s : CString) : ((strlen s).truncate 8).toNat = s.length % 256 := by
  rw [BitVec.truncate, BitVec.toNat_setWidth, strlen_toNat]
  omega

theorem cmd_transmits_iff (ready : ∀ n, uart n = .sent) (stopWords : List CString) (s : CString) :
    Transmits (cmd uart s stopWords) s ↔ s.length < 256 := by
  have size := dataSize_toNat s
  have inside : ((strlen s).truncate 8).toNat ≤ s.length := by
    rw [size]
    exact Nat.mod_le _ _
  constructor
  · intro transmits
    obtain ⟨fuel, r, t, ran, written⟩ := transmits ⟨.listening [] .cleared, [], [], 0⟩
    rw [cmd, result_cmdRawData ready _ inside, size] at ran
    have whole : s.take (s.length % 256) = s := by
      split at ran
      · split at ran
        · cases ran
        · cases ran
          exact written
      · cases ran
    have := take_eq_self whole
    omega
  · intro short serial
    obtain ⟨fuel, port, ran⟩ := getResponse_returns stopWords serial.flushed.port
    have longer : getResponse stopWords (fuel + (s.length + 1)) serial.flushed.port = some port :=
      responseLoop_fuel ran _
    have whole : s.length % 256 = s.length := Nat.mod_eq_of_lt short
    refine ⟨fuel + (s.length + 1), (), { serial.flushed.sent s with port }, ?_, rfl⟩
    rw [cmd, result_cmdRawData ready _ inside, size, whole, if_pos (by omega), longer, List.take_length]

end Paths

/-- **Both paths write a string as it is exactly when it is shorter than 256
bytes.** -/
theorem transmits_iff (uart : Nat → Wait) (ready : ∀ n, uart n = .sent) (stopWords : List CString)
    (s : CString) :
    (Transmits (uartWriteString uart s) s ↔ s.length < 256) ∧
      (Transmits (cmd uart s stopWords) s ↔ s.length < 256) :=
  ⟨uartWriteString_transmits_iff ready s, cmd_transmits_iff ready stopWords s⟩

theorem transmits_ate0 : Transmits (cmd (fun _ => .sent) (ascii "ATE0\r") okError) (ascii "ATE0\r") :=
  (transmits_iff _ (fun _ => rfl) okError _).2.mpr (by decide)

/-- A text of 256 characters is written again and again by one path, and not at
all by the other. -/
theorem not_transmits : ¬ ∀ uart : Nat → Wait, (∀ n, uart n = .sent) → ∀ stopWords s,
    Transmits (uartWriteString uart s) s ∧ Transmits (cmd uart s stopWords) s := by
  intro always
  have long := (always (fun _ => .sent) (fun _ => rfl) okError (List.replicate 256 65)).1
  rw [uartWriteString_transmits_iff (fun _ => rfl), List.length_replicate] at long
  omega

end Zouipocar
