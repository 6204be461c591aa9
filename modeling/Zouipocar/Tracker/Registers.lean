import Zouipocar.Lib.Transition
import Zouipocar.Tracker.Transmit

/-!
# The UART at its registers

`uart_write_byte`, `uart_read_byte` and `uart_flush` one register access at a
time, next to a transmitter, a receiver and the timer interrupt that go on at
their own pace. `UDR0` is a byte to be sent, or the oldest of two received; the
flags are `UDRE0` (no byte to be sent), `TXC0` (set when the transmitter runs
empty, and cleared by nothing here) and `RXC0` (a byte received). The counter of
the timeouts has two bytes, accessed in any order, and the interrupt may come
between them.

The writer refines `uartWriteByte`: in whatever interleaving, the bytes it says
it took are the bytes on the wire, in order, but for two that are under way. That
a byte *has been sent* when it says so is another matter: `TXC0` stays set.
-/

namespace Zouipocar
set_option autoImplicit false
open Lib Action

inductive UsartCall
  | writeByte (data : Byte)
  | readByte (timeout : BitVec 16)
  | flush

/-- Where the three functions stand, between two accesses. -/
inductive UsartPlace
  | idle
  | writeStart (data : Byte) -- `reset_timeout_counter();`
  | waitEmpty (data : Byte) -- the test of the counter
  | pollEmpty (data : Byte)
  | checkEmpty (data : Byte)
  | storeData (data : Byte)
  | waitStart
  | waitComplete
  | pollComplete
  | code (code : UartCode)
  | readStart (timeout : BitVec 16)
  | waitReceived (timeout : BitVec 16)
  | pollReceived (timeout : BitVec 16)
  | fetchData
  | give (byte : Byte)
  | flushPoll
  | flushFetch
  | flushed

/-- Inside `uart_read_byte`. -/
def UsartPlace.reads : UsartPlace → Bool
  | .readStart _ | .waitReceived _ | .pollReceived _ | .fetchData | .give _ => true
  | _ => false

/-- Resets the counter, or tests it. -/
def UsartPlace.counts : UsartPlace → Bool
  | .writeStart _ | .waitEmpty _ | .waitStart | .waitComplete | .readStart _ | .waitReceived _ => true
  | _ => false

/-- `WRITE_TIMEOUT` -/
def writeTimeout : BitVec 16 := 5

/-- The low or the high byte of a word. -/
def byteOf (low : Bool) (n : BitVec 16) : Byte := n.extractLsb' (if low then 0 else 8) 8

/-- The word with one of its bytes replaced. -/
def withByte (low : Bool) (b : Byte) (n : BitVec 16) : BitVec 16 :=
  if low then byteOf false n ++ b else b ++ byteOf true n

theorem withByte_byteOf (low : Bool) (n : BitVec 16) : withByte low (byteOf low n) n = n := by
  have whole : byteOf false n ++ byteOf true n = n := @BitVec.extractLsb'_append_extractLsb' 8 8 n
  cases low <;> exact whole

theorem byteOf_withByte (low : Bool) (b : Byte) (n : BitVec 16) : byteOf low (withByte low b n) = b := by
  cases low with
  | false => exact (BitVec.extractLsb'_append_eq_of_le (Nat.le_refl 8)).trans BitVec.extractLsb'_eq_self
  | true => exact (BitVec.extractLsb'_append_eq_of_add_le (Nat.le_refl 8)).trans BitVec.extractLsb'_eq_self

theorem withByte_zero {low : Bool} {n : BitVec 16} (zero : byteOf low n = 0) : withByte (!low) 0 n = 0 := by
  cases low with
  | false => exact congrArg (fun b : Byte => b ++ (0 : Byte)) zero
  | true => exact congrArg (fun b : Byte => (0 : Byte) ++ b) zero

structure Usart where
  /-- The byte in `UDR0`; without one `UDRE0` is set. -/
  buffer : Option Byte
  shift : Option Byte
  /-- `TXC0` -/
  complete : Bool
  /-- The bytes received and not read; with one `RXC0` is set. -/
  received : List Byte
  /-- `uart_timeout_counter` -/
  counter : BitVec 16
  /-- The byte of the counter that was accessed, when the other was not yet. -/
  half : Option (Bool × Byte)
  place : UsartPlace

inductive UsartEvent
  | call (c : UsartCall)
  | cpu
  | store (data : Byte) -- `UDR0 = data;`
  | fetch (byte : Byte)
  | wrote (code : UartCode)
  | gave (byte : Byte)
  | flushed
  | load
  | sent (byte : Byte)
  | tick (torn : Bool) -- `ISR(TIMER1_COMPA_vect)`, torn between the two bytes of the counter
  | arrive (byte : Byte)
  | overrun (byte : Byte)

/-- Where a call begins. -/
def UsartCall.entry : UsartCall → UsartPlace
  | .writeByte data => .writeStart data
  | .readByte timeout => .readStart timeout
  | .flush => .flushPoll

namespace Usart

def reset : Usart := ⟨none, none, false, [], 0, none, .idle⟩

/-- `uart_timeout_counter = 0;` byte by byte. -/
def resetCounter (low : Bool) (next : UsartPlace) (s : Usart) : Usart :=
  match s.half with
  | none => { s with counter := withByte low 0 s.counter, half := some (low, 0) }
  | some (first, _) => { s with counter := withByte (!first) 0 s.counter, half := none, place := next }

/-- `uart_timeout_counter < bound`, byte by byte. -/
def testCounter (low : Bool) (bound : BitVec 16) (within beyond : UsartPlace) (s : Usart) : Usart :=
  match s.half with
  | none => { s with half := some (low, byteOf low s.counter) }
  | some (first, byte) =>
    { s with half := none, place := if withByte first byte s.counter < bound then within else beyond }

/-- The accesses other than those to `UDR0`; `low` is the byte of the counter that is
accessed first. -/
def cpu (low : Bool) (s : Usart) : Option Usart :=
  match s.place with
  | .writeStart data => some (s.resetCounter low (.waitEmpty data))
  | .waitEmpty data => some (s.testCounter low writeTimeout (.pollEmpty data) (.checkEmpty data))
  | .pollEmpty data => some { s with place := if s.buffer.isNone then .checkEmpty data else .waitEmpty data }
  | .checkEmpty data => some { s with place := if s.buffer.isNone then .storeData data else .code .timeout }
  | .waitStart => some (s.resetCounter low .waitComplete)
  | .waitComplete => some (s.testCounter low writeTimeout .pollComplete (.code .timeout))
  | .pollComplete => some { s with place := if s.complete then .code .ok else .waitComplete }
  | .readStart timeout => some (s.resetCounter low (.waitReceived timeout))
  | .waitReceived timeout => some (s.testCounter low timeout (.pollReceived timeout) (.give 0))
  | .pollReceived timeout =>
    some { s with place := if s.received.isEmpty then .waitReceived timeout else .fetchData }
  | .flushPoll => some { s with place := if s.received.isEmpty then .flushed else .flushFetch }
  | _ => none

inductive Step : Usart → UsartEvent → Usart → Prop
  | call {s : Usart} (c : UsartCall) : s.place = .idle → Step s (.call c) { s with place := c.entry }
  | cpu {s t : Usart} (low : Bool) : s.cpu low = some t → Step s .cpu t
  /-- A byte stored over another is lost. -/
  | store {s : Usart} {data : Byte} : s.place = .storeData data →
      Step s (.store data) { s with buffer := s.buffer.or (some data), place := .waitStart }
  | fetch {s : Usart} : s.place = .fetchData →
      Step s (.fetch (s.received.headD 0)) { s with received := s.received.tail, place := .give (s.received.headD 0) }
  | drop {s : Usart} : s.place = .flushFetch →
      Step s (.fetch (s.received.headD 0)) { s with received := s.received.tail, place := .flushPoll }
  | wrote {s : Usart} {code : UartCode} : s.place = .code code → Step s (.wrote code) { s with place := .idle }
  | gave {s : Usart} {byte : Byte} : s.place = .give byte → Step s (.gave byte) { s with place := .idle }
  | flushed {s : Usart} : s.place = .flushed → Step s .flushed { s with place := .idle }
  | load {s : Usart} {byte : Byte} : s.buffer = some byte → s.shift = none →
      Step s .load { s with buffer := none, shift := some byte }
  | sent {s : Usart} {byte : Byte} : s.shift = some byte →
      Step s (.sent byte) { s with shift := none, complete := s.complete || s.buffer.isNone }
  | tick {s : Usart} : Step s (.tick s.half.isSome) { s with counter := s.counter + 1 }
  | arrive {s : Usart} (byte : Byte) : s.received.length < 2 →
      Step s (.arrive byte) { s with received := s.received ++ [byte] }
  /-- With two bytes waiting another is lost. -/
  | overrun {s : Usart} (byte : Byte) : 2 ≤ s.received.length → Step s (.overrun byte) s

/-! What a history did. -/

def stored (trace : List UsartEvent) : List Byte := trace.filterMap fun | .store b => some b | _ => none

def onWire (trace : List UsartEvent) : List Byte := trace.filterMap fun | .sent b => some b | _ => none

def arrived (trace : List UsartEvent) : List Byte := trace.filterMap fun | .arrive b => some b | _ => none

def fetched (trace : List UsartEvent) : List Byte := trace.filterMap fun | .fetch b => some b | _ => none

/-- The bytes `uart_write_byte` was called with. -/
def written (trace : List UsartEvent) : List Byte :=
  trace.filterMap fun | .call (.writeByte b) => some b | _ => none

/-- The codes it returned. -/
def codes (trace : List UsartEvent) : List UartCode := trace.filterMap fun | .wrote code => some code | _ => none

variable {s t : Usart} {e : UsartEvent} {trace : List UsartEvent} {data : Byte} {low : Bool}

theorem resetCounter_cases (low : Bool) (next : UsartPlace) (s : Usart) :
    (s.resetCounter low next).buffer = s.buffer ∧ (s.resetCounter low next).shift = s.shift ∧
      (s.resetCounter low next).complete = s.complete ∧ (s.resetCounter low next).received = s.received ∧
      ((s.resetCounter low next).place = s.place ∨
        (s.resetCounter low next).half = none ∧ (s.resetCounter low next).place = next) := by
  unfold resetCounter
  split
  · exact ⟨rfl, rfl, rfl, rfl, .inl rfl⟩
  · exact ⟨rfl, rfl, rfl, rfl, .inr ⟨rfl, rfl⟩⟩

theorem testCounter_cases (low : Bool) (bound : BitVec 16) (within beyond : UsartPlace) (s : Usart) :
    (s.testCounter low bound within beyond).buffer = s.buffer ∧
      (s.testCounter low bound within beyond).shift = s.shift ∧
      (s.testCounter low bound within beyond).complete = s.complete ∧
      (s.testCounter low bound within beyond).received = s.received ∧
      ((s.testCounter low bound within beyond).place = s.place ∨
        (s.testCounter low bound within beyond).half = none ∧
          ((s.testCounter low bound within beyond).place = within ∨
            (s.testCounter low bound within beyond).place = beyond)) := by
  unfold testCounter
  split
  · exact ⟨rfl, rfl, rfl, rfl, .inl rfl⟩
  · refine ⟨rfl, rfl, rfl, rfl, .inr ⟨rfl, ?_⟩⟩
    dsimp only
    split
    · exact .inl rfl
    · exact .inr rfl

/-- What the other accesses leave to the transmitter and the receiver. -/
theorem cpu_cases (taken : s.cpu low = some t) :
    t.buffer = s.buffer ∧ t.shift = s.shift ∧ t.complete = s.complete ∧ t.received = s.received ∧
      (∀ data, t.place = .storeData data → s.buffer = none) ∧
      (t.place = .fetchData ∨ t.place = .flushFetch → s.received ≠ []) := by
  unfold cpu at taken
  cases place : s.place with
  | waitEmpty | waitComplete | waitReceived =>
    rw [place] at taken
    obtain rfl := Option.some.inj taken
    obtain ⟨buffer, shift, complete, received, same | ⟨-, same | same⟩⟩ := testCounter_cases low _ _ _ s <;>
      refine ⟨buffer, shift, complete, received, ?_, ?_⟩ <;> rw [same] <;> simp [place]
  | pollEmpty | pollComplete =>
    rw [place] at taken
    obtain rfl := Option.some.inj taken
    refine ⟨rfl, rfl, rfl, rfl, ?_, ?_⟩ <;> dsimp only <;> split <;> simp
  | checkEmpty =>
    rw [place] at taken
    obtain rfl := Option.some.inj taken
    refine ⟨rfl, rfl, rfl, rfl, ?_, ?_⟩
    · dsimp only
      split
      · rename_i empty
        exact fun _ _ => Option.isNone_iff_eq_none.mp empty
      · simp
    · dsimp only
      split <;> simp
  | pollReceived | flushPoll =>
    rw [place] at taken
    obtain rfl := Option.some.inj taken
    refine ⟨rfl, rfl, rfl, rfl, ?_, ?_⟩
    · dsimp only
      split <;> simp
    · dsimp only
      split
      · simp
      · rename_i waiting
        exact fun _ => by simpa using waiting
  | writeStart | waitStart | readStart =>
    rw [place] at taken
    obtain rfl := Option.some.inj taken
    obtain ⟨buffer, shift, complete, received, same | ⟨-, same⟩⟩ := resetCounter_cases low _ s <;>
      refine ⟨buffer, shift, complete, received, ?_, ?_⟩ <;> rw [same] <;> simp [place]
  | _ =>
    rw [place] at taken
    cases taken

/-- No byte is lost between `UDR0` and the wire, or between the line and `UDR0`. -/
structure Conserved (trace : List UsartEvent) (s : Usart) : Prop where
  transmitted : stored trace = onWire trace ++ s.shift.toList ++ s.buffer.toList
  empty : ∀ data, s.place = .storeData data → s.buffer = none
  received : arrived trace = fetched trace ++ s.received
  ready : s.place = .fetchData ∨ s.place = .flushFetch → s.received ≠ []

theorem Conserved.step (h : Conserved trace s) (taken : Step s e t) : Conserved (trace ++ [e]) t := by
  obtain ⟨transmitted, empty, received, ready⟩ := h
  cases taken with
  | call c place =>
    refine ⟨?_, ?_, ?_, ?_⟩
    · simpa [stored, onWire] using transmitted
    · cases c <;> simp [UsartCall.entry]
    · simpa [arrived, fetched] using received
    · cases c <;> simp [UsartCall.entry]
  | cpu _ taken =>
    obtain ⟨buffer, shift, -, kept, empty', ready'⟩ := cpu_cases taken
    refine ⟨?_, ?_, ?_, ?_⟩
    · simpa [stored, onWire, buffer, shift] using transmitted
    · rw [buffer]
      exact empty'
    · simpa [arrived, fetched, kept] using received
    · rw [kept]
      exact ready'
  | store place =>
    refine ⟨?_, by simp, ?_, by simp⟩
    · rw [empty _ place] at transmitted ⊢
      simp only [stored, onWire, List.filterMap_append] at transmitted ⊢
      rw [transmitted]
      simp
    · simpa [arrived, fetched] using received
  | fetch place | drop place =>
    have waiting := ready (by simp [place])
    obtain ⟨b, rest, here⟩ := List.exists_cons_of_ne_nil waiting
    refine ⟨?_, by simp, ?_, by simp⟩
    · simpa [stored, onWire] using transmitted
    · simp only [arrived, fetched, List.filterMap_append] at received ⊢
      rw [received, here]
      simp
  | wrote | gave | flushed =>
    refine ⟨?_, by simp, ?_, by simp⟩
    · simpa [stored, onWire] using transmitted
    · simpa [arrived, fetched] using received
  | load buffer shift =>
    refine ⟨?_, fun _ _ => rfl, ?_, ready⟩
    · simp only [stored, onWire, List.filterMap_append] at transmitted ⊢
      rw [transmitted, buffer, shift]
      simp
    · simpa [arrived, fetched] using received
  | sent shift =>
    refine ⟨?_, empty, ?_, ready⟩
    · simp only [stored, onWire, List.filterMap_append] at transmitted ⊢
      rw [transmitted, shift]
      simp
    · simpa [arrived, fetched] using received
  | tick =>
    refine ⟨?_, empty, ?_, ready⟩
    · simpa [stored, onWire] using transmitted
    · simpa [arrived, fetched] using received
  | arrive b room =>
    refine ⟨?_, empty, ?_, fun place => by simp⟩
    · simpa [stored, onWire] using transmitted
    · simp only [arrived, fetched, List.filterMap_append] at received ⊢
      rw [received]
      simp
  | overrun =>
    refine ⟨?_, empty, ?_, ready⟩
    · simpa [stored, onWire] using transmitted
    · simpa [arrived, fetched] using received

theorem Conserved.run (run : Run Step reset trace s) : Conserved trace s :=
  run.history Conserved (fun _ _ _ _ _ h taken => h.step taken) ⟨rfl, nofun, rfl, by simp [reset]⟩

/-- Outside the resets and the tests no access to the counter is half done. -/
theorem cpu_half (taken : s.cpu low = some t) (whole : s.place.counts = false → s.half = none) :
    t.place.counts = false → t.half = none := by
  intro away
  unfold cpu at taken
  cases place : s.place with
  | writeStart | waitStart | readStart =>
    rw [place] at taken
    obtain rfl := Option.some.inj taken
    obtain ⟨-, -, -, -, same | ⟨half, -⟩⟩ := resetCounter_cases low _ s
    · rw [same, place] at away
      cases away
    · exact half
  | waitEmpty | waitComplete | waitReceived =>
    rw [place] at taken
    obtain rfl := Option.some.inj taken
    obtain ⟨-, -, -, -, same | ⟨half, -⟩⟩ := testCounter_cases low _ _ _ s
    · rw [same, place] at away
      cases away
    · exact half
  | pollEmpty | checkEmpty | pollComplete | pollReceived | flushPoll =>
    rw [place] at taken
    obtain rfl := Option.some.inj taken
    exact whole (by rw [place]; rfl)
  | _ =>
    rw [place] at taken
    cases taken

theorem half_eq_none (run : Run Step reset trace s) : s.place.counts = false → s.half = none := by
  refine run.history (fun _ s => s.place.counts = false → s.half = none) ?_ fun _ => rfl
  intro trace m e t _ whole taken
  cases taken with
  | cpu _ taken => exact cpu_half taken whole
  | call _ place | store place | fetch place | drop place | wrote place | gave place | flushed place =>
    exact fun _ => whole (by rw [place]; rfl)
  | load | sent | tick | arrive | overrun => exact whole

/-! ## The writer refines its model -/

/-- The bytes taken, of calls and how they fared. -/
def took (fates : List (Byte × Wait)) : List Byte := (fates.filter fun f => f.2 ≠ .blocked).map Prod.fst

def said (fates : List (Byte × Wait)) : List UartCode := fates.map fun f => if f.2 = .sent then .ok else .timeout

/-- The calls made and the bytes stored, at a place: those of the calls that have
returned, and of the one that has not. -/
def Midst (fates : List (Byte × Wait)) (calls bytes : List Byte) : UsartPlace → Prop
  | .writeStart b | .waitEmpty b | .pollEmpty b | .checkEmpty b | .storeData b =>
    calls = fates.map Prod.fst ++ [b] ∧ bytes = took fates
  | .waitStart | .waitComplete | .pollComplete | .code .ok =>
    ∃ b, calls = fates.map Prod.fst ++ [b] ∧ bytes = took fates ++ [b]
  | .code .timeout => ∃ b, calls = fates.map Prod.fst ++ [b] ∧ (bytes = took fates ∨ bytes = took fates ++ [b])
  | _ => calls = fates.map Prod.fst ∧ bytes = took fates

theorem Midst.cpu {fates : List (Byte × Wait)} {calls bytes : List Byte} (h : Midst fates calls bytes s.place)
    (taken : s.cpu low = some t) : Midst fates calls bytes t.place := by
  unfold Usart.cpu at taken
  cases place : s.place with
  | waitEmpty | waitReceived =>
    rw [place] at taken h
    obtain rfl := Option.some.inj taken
    obtain ⟨-, -, -, -, same | ⟨-, same | same⟩⟩ := testCounter_cases low _ _ _ s
    · rw [same, place]
      exact h
    · rw [same]
      exact h
    · rw [same]
      exact h
  | pollEmpty =>
    rw [place] at taken h
    obtain rfl := Option.some.inj taken
    dsimp only
    split <;> exact h
  | checkEmpty b =>
    rw [place] at taken h
    obtain rfl := Option.some.inj taken
    dsimp only
    split
    · exact h
    · exact ⟨b, h.1, .inl h.2⟩
  | waitComplete =>
    rw [place] at taken h
    obtain rfl := Option.some.inj taken
    obtain ⟨-, -, -, -, same | ⟨-, same | same⟩⟩ := testCounter_cases low _ _ _ s
    · rw [same, place]
      exact h
    · rw [same]
      exact h
    · obtain ⟨b, calls, bytes⟩ := h
      rw [same]
      exact ⟨b, calls, .inr bytes⟩
  | pollComplete =>
    rw [place] at taken h
    obtain rfl := Option.some.inj taken
    dsimp only
    split <;> exact h
  | pollReceived | flushPoll =>
    rw [place] at taken h
    obtain rfl := Option.some.inj taken
    dsimp only
    split <;> exact h
  | writeStart | waitStart | readStart =>
    rw [place] at taken h
    obtain rfl := Option.some.inj taken
    obtain ⟨-, -, -, -, same | ⟨-, same⟩⟩ := resetCounter_cases low _ s
    · rw [same, place]
      exact h
    · rw [same]
      exact h
  | _ =>
    rw [place] at taken
    cases taken

/-- How the calls fared that returned. -/
def Fared (trace : List UsartEvent) (s : Usart) : Prop :=
  ∃ fates, codes trace = said fates ∧ Midst fates (written trace) (stored trace) s.place

/-- An event that is none of the writer's. -/
theorem Fared.other (h : Fared trace s) (called : written [e] = []) (took : stored [e] = []) (returned : codes [e] = [])
    (place : ∀ fates calls bytes, Midst fates calls bytes s.place → Midst fates calls bytes t.place) :
    Fared (trace ++ [e]) t := by
  obtain ⟨fates, said, midst⟩ := h
  refine ⟨fates, ?_, ?_⟩
  · rw [codes, List.filterMap_append, ← codes, ← codes, returned, List.append_nil, said]
  · rw [written, List.filterMap_append, ← written, ← written, called, List.append_nil, stored,
      List.filterMap_append, ← stored, ← stored, took, List.append_nil]
    exact place fates _ _ midst

theorem Fared.step (h : Fared trace s) (taken : Step s e t) : Fared (trace ++ [e]) t := by
  cases taken with
  | call c place =>
    obtain ⟨fates, returned, midst⟩ := h
    rw [place] at midst
    refine ⟨fates, by simpa [codes] using returned, ?_⟩
    obtain ⟨calls, bytes⟩ := midst
    cases c with
    | writeByte data =>
      refine ⟨?_, by simpa [stored] using bytes⟩
      simp only [written, List.filterMap_append] at calls ⊢
      rw [calls]
      rfl
    | readByte | flush => exact ⟨by simpa [written] using calls, by simpa [stored] using bytes⟩
  | cpu _ taken => exact h.other rfl rfl rfl fun _ _ _ midst => midst.cpu taken
  | @store data place =>
    obtain ⟨fates, returned, midst⟩ := h
    rw [place] at midst
    obtain ⟨calls, bytes⟩ := midst
    refine ⟨fates, by simpa [codes] using returned, data, by simpa [written] using calls, ?_⟩
    simp only [stored, List.filterMap_append] at bytes ⊢
    rw [bytes]
    rfl
  | @wrote code place =>
    obtain ⟨fates, returned, midst⟩ := h
    rw [place] at midst
    cases code with
    | ok =>
      obtain ⟨b, calls, bytes⟩ := midst
      refine ⟨fates ++ [(b, .sent)], ?_, by simpa [written] using calls, ?_⟩
      · simp only [codes, List.filterMap_append] at returned ⊢
        rw [returned]
        simp [said]
      · simpa [stored, took] using bytes
    | timeout =>
      obtain ⟨b, calls, lost | kept⟩ := midst
      · refine ⟨fates ++ [(b, .blocked)], ?_, by simpa [written] using calls, ?_⟩
        · simp only [codes, List.filterMap_append] at returned ⊢
          rw [returned]
          simp [said]
        · simpa [stored, took] using lost
      · refine ⟨fates ++ [(b, .unconfirmed)], ?_, by simpa [written] using calls, ?_⟩
        · simp only [codes, List.filterMap_append] at returned ⊢
          rw [returned]
          simp [said]
        · simpa [stored, took] using kept
  | fetch place | drop place | gave place | flushed place =>
    apply h.other rfl rfl rfl
    intro _ _ _ midst
    rw [place] at midst
    exact midst
  | load | sent | tick | arrive | overrun => exact h.other rfl rfl rfl fun _ _ _ midst => midst

theorem Fared.run (run : Run Step reset trace s) : Fared trace s :=
  run.history Fared (fun _ _ _ _ _ h taken => h.step taken) ⟨[], rfl, rfl, rfl⟩

/-- Calls of `uart_write_byte` one after the other. -/
def writeAll (uart : Nat → Wait) : List Byte → Driver (List UartCode)
  | [] => return []
  | b :: rest => do
    let code ← uartWriteByte uart b
    let codes ← writeAll uart rest
    return code :: codes

theorem result_writeAll {uart : Nat → Wait} (fates : List (Byte × Wait)) (line : Serial)
    (same : ∀ k f, fates[k]? = some f → uart (line.attempts + k) = f.2) :
    ∃ t, result (writeAll uart (fates.map Prod.fst)) line = (.ok (said fates), t) ∧
      t.tx = line.tx ++ took fates := by
  induction fates generalizing line with
  | nil => exact ⟨line, rfl, by simp [took]⟩
  | cons f rest ih =>
    obtain ⟨b, fate⟩ := f
    have first : uart line.attempts = fate := same 0 _ rfl
    obtain ⟨next, wrote, bytes, attempts⟩ : ∃ next, result (uartWriteByte uart b) line =
        (.ok (if uart line.attempts = .sent then .ok else .timeout), next) ∧
          next.tx = (if uart line.attempts = .blocked then line.tx else line.tx ++ [b]) ∧
          next.attempts = line.attempts + 1 := ⟨_, rfl, rfl, rfl⟩
    rw [first] at wrote bytes
    obtain ⟨t, ran, tx⟩ := ih next fun k f found => by
      rw [attempts, Nat.add_assoc, Nat.add_comm 1]
      exact same (k + 1) f found
    refine ⟨t, ?_, ?_⟩
    · rw [List.map_cons, writeAll, result_bind_ok wrote, result_bind_ok ran]
      rfl
    · rw [tx, bytes]
      cases fate <;> simp [took]

/-- **At the registers the writer does what `uartWriteByte` does, for some fate of
each call, and what it took is on the wire, in order, but for what is under way.** -/
theorem registers_refine (run : Run Step reset trace s) (idle : s.place = .idle) (line : Serial) :
    ∃ uart t, result (writeAll uart (written trace)) line = (.ok (codes trace), t) ∧
      t.tx = line.tx ++ (onWire trace ++ s.shift.toList ++ s.buffer.toList) := by
  obtain ⟨fates, returned, midst⟩ := Fared.run run
  rw [idle] at midst
  obtain ⟨calls, bytes⟩ := midst
  let uart : Nat → Wait := fun n => ((fates[n - line.attempts]?).map Prod.snd).getD .sent
  obtain ⟨t, ran, tx⟩ := @result_writeAll uart fates line fun k f found => by simp [uart, found]
  refine ⟨uart, t, ?_, ?_⟩
  · rw [calls, returned]
    exact ran
  · rw [tx, ← bytes, (Conserved.run run).transmitted]

/-- One byte, polled until it has been sent. -/
theorem firstByte_run : Run Step reset [.call (.writeByte 65), .cpu, .cpu, .cpu, .cpu, .cpu, .cpu, .store 65, .cpu,
    .cpu, .cpu, .cpu, .load, .sent 65, .cpu, .wrote .ok] ⟨none, none, true, [], 0, none, .idle⟩ :=
  .cons (.call (.writeByte 65) rfl) (.cons (.cpu true rfl) (.cons (.cpu true rfl) (.cons (.cpu true rfl)
    (.cons (.cpu true rfl) (.cons (.cpu true rfl) (.cons (.cpu true rfl) (.cons (.store rfl) (.cons (.cpu true rfl)
      (.cons (.cpu true rfl) (.cons (.cpu true rfl) (.cons (.cpu true rfl) (.cons (.load rfl rfl) (.cons (.sent rfl)
        (.cons (.cpu true rfl) (.single (.wrote rfl))))))))))))))))

theorem registers_refine_first : ∃ uart, ∃ t : Serial,
    result (writeAll uart [65]) ⟨.listening [] .cleared, [], [], 0⟩ = (.ok [.ok], t) ∧ t.tx = [65] :=
  registers_refine firstByte_run rfl _

/-! ## What the reader gives -/

/-- The interrupts of the timer. -/
def ticks (trace : List UsartEvent) : Nat := trace.countP fun | .tick _ => true | _ => false

/-- What a call of `uart_read_byte` has done since it began. Unless an interrupt came
between two bytes of the counter, they are what was written there or what is there. -/
def Reads (timeout : BitVec 16) (since : List UsartEvent) (s : Usart) : Prop :=
  match s.place with
  | .readStart own => own = timeout ∧ fetched since = [] ∧
    (.tick true ∈ since ∨ ∀ first byte, s.half = some (first, byte) → byteOf first s.counter = 0)
  | .waitReceived own | .pollReceived own => own = timeout ∧ fetched since = [] ∧
    (.tick true ∈ since ∨ s.counter.toNat ≤ ticks since ∧
      ∀ first byte, s.half = some (first, byte) → byte = byteOf first s.counter)
  | .fetchData => fetched since = []
  | .give b => fetched since = [b] ∨ fetched since = [] ∧ b = 0 ∧ (timeout.toNat ≤ ticks since ∨ .tick true ∈ since)
  | _ => False

/-- The call that is being made. -/
def Heeds (trace : List UsartEvent) (s : Usart) : Prop :=
  s.place.reads = true →
    ∃ timeout before since, trace = before ++ .call (.readByte timeout) :: since ∧ (∀ c, .call c ∉ since) ∧
      Reads timeout since s

section Reads

variable {timeout : BitVec 16} {since : List UsartEvent}

theorem fetched_snoc (other : ∀ b, e ≠ .fetch b) : fetched (trace ++ [e]) = fetched trace := by
  rw [fetched, List.filterMap_append]
  cases e with
  | fetch b => exact absurd rfl (other b)
  | _ => exact List.append_nil _

theorem ticks_snoc (trace : List UsartEvent) (e : UsartEvent) : ticks (trace ++ [e]) = ticks trace + ticks [e] :=
  List.countP_append

theorem ticks_le (trace : List UsartEvent) (e : UsartEvent) : ticks trace ≤ ticks (trace ++ [e]) := by
  rw [ticks_snoc]
  exact Nat.le_add_right _ _

/-- The first byte that a reset writes, and the second. -/
theorem Reads.resetCounter {own : BitVec 16} (h : Reads timeout since s) (place : s.place = .readStart own) :
    Reads timeout (since ++ [.cpu]) (s.resetCounter low (.waitReceived own)) := by
  rw [Reads, place] at h
  obtain ⟨same, nothing, zero⟩ := h
  have nothing' := (@fetched_snoc .cpu since (by simp)).trans nothing
  unfold Usart.resetCounter
  cases half : s.half with
  | none =>
    simp only [Reads, place]
    refine ⟨same, nothing', .inr ?_⟩
    rintro _ _ ⟨⟩
    exact byteOf_withByte low 0 s.counter
  | some access =>
    obtain ⟨first, byte⟩ := access
    refine ⟨same, nothing', ?_⟩
    rcases zero with torn | zero
    · exact .inl (List.mem_append_left _ torn)
    · have reset : withByte (!first) 0 s.counter = 0 := withByte_zero (zero first byte half)
      refine .inr ⟨?_, nofun⟩
      show (withByte (!first) 0 s.counter).toNat ≤ _
      rw [reset]
      exact Nat.zero_le _

/-- The first byte that a test reads, and the second. -/
theorem Reads.testCounter {own : BitVec 16} (h : Reads timeout since s) (place : s.place = .waitReceived own) :
    Reads timeout (since ++ [.cpu]) (s.testCounter low own (.pollReceived own) (.give 0)) := by
  rw [Reads, place] at h
  obtain ⟨same, nothing, waited⟩ := h
  have nothing' := (@fetched_snoc .cpu since (by simp)).trans nothing
  have more : ticks (since ++ [.cpu]) = ticks since := ticks_snoc since .cpu
  unfold Usart.testCounter
  cases half : s.half with
  | none =>
    simp only [Reads, place]
    refine ⟨same, nothing', ?_⟩
    rcases waited with torn | ⟨waited, -⟩
    · exact .inl (List.mem_append_left _ torn)
    · refine .inr ⟨more ▸ waited, ?_⟩
      rintro _ _ ⟨⟩
      rfl
  | some access =>
    obtain ⟨first, byte⟩ := access
    dsimp only
    by_cases early : withByte first byte s.counter < own
    · rw [if_pos early]
      refine ⟨same, nothing', ?_⟩
      rcases waited with torn | ⟨waited, -⟩
      · exact .inl (List.mem_append_left _ torn)
      · exact .inr ⟨more ▸ waited, nofun⟩
    · rw [if_neg early]
      refine .inr ⟨nothing', rfl, ?_⟩
      rcases waited with torn | ⟨waited, whole⟩
      · exact .inr (List.mem_append_left _ torn)
      · left
        rw [whole first byte half, withByte_byteOf, BitVec.not_lt, BitVec.le_def, same] at early
        exact more ▸ early.trans waited

theorem Reads.cpu (h : Reads timeout since s) (taken : s.cpu low = some t) : Reads timeout (since ++ [.cpu]) t := by
  have none := @fetched_snoc .cpu since (by simp)
  have more : ticks (since ++ [.cpu]) = ticks since := ticks_snoc since .cpu
  unfold Usart.cpu at taken
  cases place : s.place with
  | readStart own =>
    rw [place] at taken
    obtain rfl := Option.some.inj taken
    exact h.resetCounter place
  | waitReceived own =>
    rw [place] at taken
    obtain rfl := Option.some.inj taken
    exact h.testCounter place
  | pollReceived own =>
    rw [Reads, place] at h
    rw [place] at taken
    obtain rfl := Option.some.inj taken
    by_cases silent : s.received.isEmpty = true
    · rw [if_pos silent]
      exact ⟨h.1, none.trans h.2.1, h.2.2.imp (List.mem_append_left _) fun h => ⟨more ▸ h.1, h.2⟩⟩
    · rw [if_neg silent]
      exact none.trans h.2.1
  | _ =>
    rw [Reads, place] at h
    rw [place] at taken
    first | exact h.elim | cases taken

/-- An event next to the call. -/
theorem Reads.beside (h : Reads timeout since s) (place : t.place = s.place) (counter : t.counter = s.counter)
    (half : t.half = s.half) (other : ∀ b, e ≠ .fetch b) : Reads timeout (since ++ [e]) t := by
  have none := @fetched_snoc e since other
  have more := ticks_le since e
  have torn : .tick true ∈ since → .tick true ∈ since ++ [e] := List.mem_append_left _
  unfold Reads at h ⊢
  rw [place, counter, half]
  cases here : s.place with
  | readStart =>
    rw [here] at h
    exact ⟨h.1, none.trans h.2.1, h.2.2.imp_left torn⟩
  | waitReceived | pollReceived =>
    rw [here] at h
    exact ⟨h.1, none.trans h.2.1, h.2.2.imp torn fun h => ⟨h.1.trans more, h.2⟩⟩
  | fetchData =>
    rw [here] at h
    exact none.trans h
  | give =>
    rw [here] at h
    exact h.imp none.trans fun h => ⟨none.trans h.1, h.2.1, h.2.2.imp (fun h => h.trans more) torn⟩
  | _ =>
    rw [here] at h
    exact h.elim

/-- The interrupt counts, and may come between two bytes of the counter. -/
theorem Reads.tick (h : Reads timeout since s) :
    Reads timeout (since ++ [.tick s.half.isSome]) { s with counter := s.counter + 1 } := by
  have none := @fetched_snoc (.tick s.half.isSome) since (by simp)
  have more : ticks (since ++ [.tick s.half.isSome]) = ticks since + 1 := ticks_snoc since _
  have torn : .tick true ∈ since → .tick true ∈ since ++ [.tick s.half.isSome] := List.mem_append_left _
  have whole : .tick true ∈ since ++ [.tick s.half.isSome] ∨ s.half = .none := by
    cases s.half with
    | none => exact .inr rfl
    | some access => exact .inl (by simp)
  unfold Reads at h ⊢
  cases here : s.place with
  | readStart =>
    rw [here] at h
    refine ⟨h.1, none.trans h.2.1, whole.imp_right fun no first byte half => ?_⟩
    rw [no] at half
    cases half
  | waitReceived | pollReceived =>
    rw [here] at h
    refine ⟨h.1, none.trans h.2.1, ?_⟩
    rcases h.2.2 with before | ⟨waited, -⟩
    · exact .inl (torn before)
    · refine whole.imp_right fun no => ⟨?_, fun first byte half => ?_⟩
      · rw [more]
        show (s.counter + 1).toNat ≤ _
        rw [BitVec.toNat_add]
        exact (Nat.mod_le _ _).trans (Nat.add_le_add_right waited 1)
      · rw [no] at half
        cases half
  | fetchData =>
    rw [here] at h
    exact none.trans h
  | give =>
    rw [here] at h
    exact h.imp none.trans fun h => ⟨none.trans h.1, h.2.1, h.2.2.imp (fun h => by omega) torn⟩
  | _ =>
    rw [here] at h
    exact h.elim

theorem cpu_reads (taken : s.cpu low = some t) (reads : t.place.reads = true) : s.place.reads = true := by
  unfold Usart.cpu at taken
  cases place : s.place with
  | readStart | waitReceived | pollReceived | fetchData | give => rfl
  | writeStart | waitStart =>
    rw [place] at taken
    obtain rfl := Option.some.inj taken
    obtain ⟨-, -, -, -, same | ⟨-, same⟩⟩ := resetCounter_cases low _ s
    · rw [same, place] at reads
      cases reads
    · rw [same] at reads
      cases reads
  | waitEmpty | waitComplete =>
    rw [place] at taken
    obtain rfl := Option.some.inj taken
    obtain ⟨-, -, -, -, same | ⟨-, same | same⟩⟩ := testCounter_cases low _ _ _ s
    · rw [same, place] at reads
      cases reads
    · rw [same] at reads
      cases reads
    · rw [same] at reads
      cases reads
  | pollEmpty | checkEmpty | pollComplete | flushPoll =>
    rw [place] at taken
    obtain rfl := Option.some.inj taken
    dsimp only at reads
    split at reads <;> cases reads
  | _ =>
    rw [place] at taken
    cases taken

/-- One more event that is no call, next to the call or in it. -/
theorem Heeds.snoc (h : Heeds trace s) (reads : t.place.reads = true → s.place.reads = true) (inner : ∀ c, e ≠ .call c)
    (next : ∀ timeout since, Reads timeout since s → Reads timeout (since ++ [e]) t) : Heeds (trace ++ [e]) t := by
  intro reading
  obtain ⟨timeout, before, since, rfl, none, made⟩ := h (reads reading)
  refine ⟨timeout, before, since ++ [e], by simp, fun c inside => ?_, next timeout since made⟩
  rcases List.mem_append.mp inside with earlier | now
  · exact none c earlier
  · exact inner c (List.mem_singleton.mp now).symm

theorem Heeds.step (h : Heeds trace s) (whole : s.place.counts = false → s.half = none) (taken : Step s e t) :
    Heeds (trace ++ [e]) t := by
  cases taken with
  | call c place =>
    intro reads
    cases c with
    | readByte timeout =>
      refine ⟨timeout, trace, [], rfl, nofun, rfl, rfl, .inr fun first byte half => ?_⟩
      rw [whole (by rw [place]; rfl)] at half
      cases half
    | _ => cases reads
  | cpu _ taken => exact h.snoc (cpu_reads taken) (by simp) fun _ _ made => made.cpu taken
  | fetch place =>
    apply h.snoc (by simp [place, UsartPlace.reads]) (by simp)
    intro timeout since made
    rw [Reads, place] at made
    refine .inl ?_
    rw [fetched, List.filterMap_append, ← fetched, made]
    rfl
  | store | drop | wrote | gave | flushed => exact nofun
  | load | sent | arrive | overrun => exact h.snoc id (by simp) fun _ _ made => made.beside rfl rfl rfl (by simp)
  | tick => exact h.snoc id (by simp) fun _ _ made => made.tick

theorem Heeds.run (run : Run Step reset trace s) : Heeds trace s :=
  run.history Heeds (fun _ _ _ _ before h taken => h.step (half_eq_none before) taken) nofun

end Reads

/-- **Bytes are read in the order in which they came, and a read that gives up has
taken nothing and has waited for its time, unless an interrupt came between two
bytes of the counter.** -/
theorem reads_in_order (run : Run Step reset trace s) :
    arrived trace = fetched trace ++ s.received ∧
      ∀ b, s.place = .give b → ∃ timeout before since, trace = before ++ .call (.readByte timeout) :: since ∧
        (∀ c, .call c ∉ since) ∧ (fetched since = [b] ∨
          fetched since = [] ∧ b = 0 ∧ (timeout.toNat ≤ ticks since ∨ .tick true ∈ since)) := by
  refine ⟨(Conserved.run run).received, fun b giving => ?_⟩
  obtain ⟨timeout, before, since, whole, none, h⟩ := Heeds.run run (by rw [giving]; rfl)
  rw [Reads, giving] at h
  exact ⟨timeout, before, since, whole, none, h⟩

/-- A byte that came before it was asked for. -/
theorem reads_in_order_early : ∃ timeout before since,
    [.arrive 65, .call (.readByte 5), .cpu, .cpu, .cpu, .cpu, .cpu, .fetch 65] =
      before ++ UsartEvent.call (.readByte timeout) :: since ∧ (∀ c, .call c ∉ since) ∧
    (fetched since = [65] ∨
      fetched since = [] ∧ (65 : Byte) = 0 ∧ (timeout.toNat ≤ ticks since ∨ .tick true ∈ since)) := by
  have run : Run Step reset [.arrive 65, .call (.readByte 5), .cpu, .cpu, .cpu, .cpu, .cpu, .fetch 65]
      ⟨none, none, false, [], 0, none, .give 65⟩ :=
    .cons (.arrive 65 (by decide)) (.cons (.call (.readByte 5) rfl) (.cons (.cpu true rfl) (.cons (.cpu true rfl)
      (.cons (.cpu true rfl) (.cons (.cpu true rfl) (.cons (.cpu true rfl) (.single (.fetch rfl))))))))
  exact (reads_in_order run).2 65 rfl

theorem ticks_run (n : Nat) :
    Run Step reset (List.replicate n (.tick false)) { reset with counter := BitVec.ofNat 16 n } := by
  induction n with
  | zero => exact .refl _
  | succ n ih =>
    rw [List.replicate_succ', BitVec.ofNat_add]
    exact ih.snoc .tick

/-- Such an interrupt takes a counter of 255 to 256 in the middle of its reset, and the
read gives up at once. -/
theorem gives_up_torn {timeout : BitVec 16} (short : timeout.toNat ≤ 256) :
    ∃ before since s, Run Step reset (before ++ .call (.readByte timeout) :: since) s ∧ s.place = .give 0 ∧
      (∀ c, .call c ∉ since) ∧ fetched since = [] ∧ ticks since = 1 := by
  have early : ¬ (256 : BitVec 16) < timeout := by
    rw [BitVec.lt_def]
    exact Nat.not_lt.mpr short
  have cleared : Usart.cpu false ⟨none, none, false, [], 255, none, .readStart timeout⟩ =
      some ⟨none, none, false, [], 255, some (false, 0), .readStart timeout⟩ := by
    simp only [Usart.cpu, resetCounter, (by decide : withByte false 0 255 = 255)]
  have between : Step ⟨none, none, false, [], 255, some (false, 0), .readStart timeout⟩ (.tick true)
      ⟨none, none, false, [], 256, some (false, 0), .readStart timeout⟩ := .tick
  have torn : Usart.cpu false ⟨none, none, false, [], 256, some (false, 0), .readStart timeout⟩ =
      some ⟨none, none, false, [], 256, none, .waitReceived timeout⟩ := by
    simp only [Usart.cpu, resetCounter, Bool.not_false, (by decide : withByte true 0 256 = 256)]
  have half : Usart.cpu true ⟨none, none, false, [], 256, none, .waitReceived timeout⟩ =
      some ⟨none, none, false, [], 256, some (true, byteOf true 256), .waitReceived timeout⟩ := rfl
  have gives : Usart.cpu true ⟨none, none, false, [], 256, some (true, byteOf true 256), .waitReceived timeout⟩ =
      some ⟨none, none, false, [], 256, none, .give 0⟩ := by
    simp only [Usart.cpu, testCounter, withByte_byteOf, if_neg early]
  have call : Run Step { reset with counter := 255 }
      [.call (.readByte timeout), .cpu, .tick true, .cpu, .cpu, .cpu] ⟨none, none, false, [], 256, none, .give 0⟩ :=
    .cons (.call (.readByte timeout) rfl) (.cons (.cpu false cleared) (.cons between (.cons (.cpu false torn)
      (.cons (.cpu true half) (.single (.cpu true gives))))))
  exact ⟨List.replicate 255 (.tick false), _, _, (ticks_run 255).trans call, rfl, by simp, rfl, rfl⟩

/-! ## What `UART_OK` means -/

/-- The transmitter has run empty: a byte left, and no other was stored behind it. -/
def RanEmpty (trace : List UsartEvent) : Prop :=
  ∃ before b after, trace = before ++ .sent b :: after ∧ stored before = onWire before ++ [b]

theorem RanEmpty.later (h : RanEmpty trace) (more : List UsartEvent) : RanEmpty (trace ++ more) := by
  obtain ⟨before, b, after, rfl, last⟩ := h
  exact ⟨before, b, after ++ more, by simp, last⟩

/-- An event in which nothing leaves. -/
theorem ranEmpty_snoc (other : ∀ b, e ≠ .sent b) : RanEmpty (trace ++ [e]) ↔ RanEmpty trace := by
  constructor
  · rintro ⟨before, b, after, whole, last⟩
    rcases snoc_eq_append_cons whole with ⟨-, -, here⟩ | ⟨middle, -, earlier⟩
    · exact absurd here (other b)
    · exact ⟨before, b, middle, earlier, last⟩
  · exact fun h => h.later [e]

/-- **`TXC0` is set once the transmitter has run empty, for ever.** -/
theorem complete_iff (run : Run Step reset trace s) : s.complete = true ↔ RanEmpty trace := by
  refine run.history (fun trace s => s.complete = true ↔ RanEmpty trace) ?_ ?_
  · intro trace m e t before h taken
    cases taken with
    | @sent byte shift =>
      have transmitted := (Conserved.run before).transmitted
      rw [shift] at transmitted
      rw [Bool.or_eq_true, h]
      constructor
      · rintro (earlier | empty)
        · exact earlier.later _
        · refine ⟨trace, byte, [], rfl, ?_⟩
          rw [transmitted, Option.isNone_iff_eq_none.mp empty]
          simp
      · rintro ⟨before', b, after, whole, last⟩
        rcases snoc_eq_append_cons whole with ⟨-, rfl, here⟩ | ⟨middle, -, earlier⟩
        · right
          rw [transmitted, UsartEvent.sent.inj here] at last
          cases buffer : m.buffer with
          | none => rfl
          | some other =>
            have lengths := congrArg List.length last
            simp [buffer] at lengths
        · exact .inl ⟨before', b, middle, earlier, last⟩
    | cpu _ taken =>
      rw [(cpu_cases taken).2.2.1, h, ranEmpty_snoc (by simp)]
    | _ => rw [ranEmpty_snoc (by simp), ← h]
  · constructor
    · intro set
      cases set
    · rintro ⟨before, b, after, whole, -⟩
      simp at whole

/-- If the call that is about to store its byte comes to say `UART_OK`, nothing is
under way any more. -/
def OkMeansSent (s : Usart) (data : Byte) : Prop :=
  ∀ more t, Run Step s (.store data :: more) t → (∀ code, .wrote code ∉ more) → t.place = .code .ok →
    t.shift = none ∧ t.buffer = none

/-- Behind the store of a byte. -/
structure Waiting (s : Usart) : Prop where
  place : s.place = .waitStart ∨ s.place = .waitComplete ∨ s.place = .pollComplete ∨ ∃ code, s.place = .code code
  said : s.place = .code .ok → s.complete = true
  empty : s.complete = true → s.shift = none ∧ s.buffer = none

theorem Waiting.step (h : Waiting s) (taken : Step s e t) (returned : ∀ code, e ≠ .wrote code) : Waiting t := by
  obtain ⟨place, said, empty⟩ := h
  cases taken with
  | @cpu t low taken =>
    obtain ⟨buffer, shift, complete, -⟩ := cpu_cases taken
    have still : t.complete = true → t.shift = none ∧ t.buffer = none := by
      rw [buffer, shift, complete]
      exact empty
    unfold Usart.cpu at taken
    rcases place with here | here | here | ⟨code, here⟩
    · rw [here] at taken
      obtain rfl := Option.some.inj taken
      obtain ⟨-, -, -, -, same | ⟨-, same⟩⟩ := resetCounter_cases low .waitComplete s
      · exact ⟨by simp [same, here], by simp [same, here], still⟩
      · exact ⟨by simp [same], by simp [same], still⟩
    · rw [here] at taken
      obtain rfl := Option.some.inj taken
      obtain ⟨-, -, -, -, same | ⟨-, same | same⟩⟩ :=
        testCounter_cases low writeTimeout .pollComplete (.code .timeout) s
      · exact ⟨by simp [same, here], by simp [same, here], still⟩
      · exact ⟨by simp [same], by simp [same], still⟩
      · exact ⟨by simp [same], by simp [same], still⟩
    · rw [here] at taken
      obtain rfl := Option.some.inj taken
      refine ⟨?_, ?_, still⟩ <;> dsimp only <;> split <;> simp_all
    · rw [here] at taken
      cases taken
  | wrote => exact absurd rfl (returned _)
  | load buffer =>
    refine ⟨place, said, fun set => ?_⟩
    rw [(empty set).2] at buffer
    cases buffer
  | sent shift =>
    refine ⟨place, fun ok => by simp [said ok], fun set => ⟨rfl, ?_⟩⟩
    cases complete : s.complete with
    | true => exact (empty complete).2
    | false => simpa [complete] using set
  | tick | arrive | overrun => exact ⟨place, said, empty⟩
  | call _ here | store here | fetch here | drop here | gave here | flushed here => simp [here] at place

/-- **`UART_OK` means that the byte has been sent exactly until the transmitter runs
empty for the first time.** -/
theorem okMeansSent_iff (run : Run Step reset trace s) (place : s.place = .storeData data) :
    OkMeansSent s data ↔ ¬ RanEmpty trace := by
  have empty := (Conserved.run run).empty data place
  rw [← complete_iff run, Bool.not_eq_true]
  constructor
  · intro means
    by_contra set
    have set : s.complete = true := by simpa using set
    have half := half_eq_none run (by rw [place]; rfl)
    have zero : withByte false 0 (withByte true 0 s.counter) = 0 := withByte_zero (byteOf_withByte true 0 s.counter)
    have taken : Run Step s [.store data, .cpu, .cpu, .cpu, .cpu, .cpu]
        { s with buffer := some data, counter := 0, half := none, place := .code .ok } := by
      have first := Step.store place
      rw [empty, half] at first
      have cleared : Usart.cpu true { s with
          buffer := some data, counter := withByte true 0 s.counter, half := some (true, 0), place := .waitStart } =
          some { s with buffer := some data, counter := 0, half := none, place := .waitComplete } := by
        rw [← zero]
        rfl
      have polled : Usart.cpu true { s with buffer := some data, counter := 0, half := none, place := .pollComplete } =
          some { s with buffer := some data, counter := 0, half := none, place := .code .ok } := by
        simp [Usart.cpu, set]
      have tested : Usart.cpu true { s with
          buffer := some data, counter := 0, half := some (true, byteOf true 0), place := .waitComplete } =
          some { s with buffer := some data, counter := 0, half := none, place := .pollComplete } := by
        simp [Usart.cpu, testCounter, withByte_byteOf, writeTimeout]
      exact .cons first (.cons (.cpu true rfl) (.cons (.cpu true cleared) (.cons (.cpu true rfl)
        (.cons (.cpu true tested) (.single (.cpu true polled))))))
    have idle := means _ _ taken (by simp) rfl
    cases idle.2
  · intro clear more t taken returned ok
    obtain ⟨m, first, rest⟩ := taken.first
    have waiting : Waiting m := by
      cases first with
      | store => exact ⟨.inl rfl, nofun, fun set => by simp [clear] at set⟩
    have still : (∀ code, .wrote code ∉ more) → Waiting t := by
      refine rest.history (fun more t => (∀ code, .wrote code ∉ more) → Waiting t) ?_ fun _ => waiting
      intro more m e t _ h taken none
      apply (h fun code inside => none code (List.mem_append_left _ inside)).step taken
      rintro code rfl
      exact none code (by simp)
    have h := still returned
    exact h.empty (h.said ok)

/-- The second byte is said to be sent at once. -/
theorem okMeansSent_iff_second : ¬ OkMeansSent ⟨none, none, true, [], 0, none, .storeData 66⟩ 66 := by
  have second : Run Step ⟨none, none, true, [], 0, none, .idle⟩
      [.call (.writeByte 66), .cpu, .cpu, .cpu, .cpu, .cpu, .cpu] ⟨none, none, true, [], 0, none, .storeData 66⟩ :=
    .cons (.call (.writeByte 66) rfl) (.cons (.cpu true rfl) (.cons (.cpu true rfl) (.cons (.cpu true rfl)
      (.cons (.cpu true rfl) (.cons (.cpu true rfl) (.single (.cpu true rfl)))))))
  rw [okMeansSent_iff (firstByte_run.trans second) rfl, not_not]
  exact ⟨[.call (.writeByte 65), .cpu, .cpu, .cpu, .cpu, .cpu, .cpu, .store 65, .cpu, .cpu, .cpu, .cpu, .load], 65, _,
    rfl, rfl⟩

end Usart

end Zouipocar
