import Zouipocar.Lib.Transition
import Zouipocar.Tracker.GetResponse

/-!
# Commands over the serial line

Commands carry no number. `Link` is the tracker and the modem with the lines on
their way between them: `cmd` drops what has arrived and sends, and then bytes
are delivered and read in any order of the two, until a stop word or a timeout
ends the call. A call is `get_response` on the bytes it has read
(`returned_getResponse`), and these were on their way when the command was sent
(`conserved`).
-/

namespace Zouipocar
set_option autoImplicit false
open Lib

/-- A line of an answer, without its end. -/
structure Line where
  body : List Byte
  plain : 10 ∉ body

def Line.text (l : Line) : List Byte := l.body ++ [10]

/-- What a caller passes as stop words. -/
structure StopWords where
  words : List CString
  few : words.length ≤ 127
  nonempty : [] ∉ words
  oneLine : ∀ word ∈ words, 10 ∉ word

/-- A line on its way, with what is still to be delivered of it. -/
structure Pending where
  command : Nat
  line : Line
  rest : List Byte
  within : rest <:+ line.text
  left : rest ≠ []

namespace Pending

/-- A line that leaves the modem in answer to a command. -/
def emit (command : Nat) (line : Line) : Pending where
  command := command
  line := line
  rest := line.text
  within := List.suffix_rfl
  left := List.append_ne_nil_of_right_ne_nil _ (by simp)

def next (p : Pending) : Byte := p.rest.head p.left

/-- The line after a byte of it was delivered. -/
def deliver (p : Pending) : List Pending :=
  if left : p.rest.tail ≠ [] then
    [⟨p.command, p.line, p.rest.tail, (List.tail_suffix _).trans p.within, left⟩]
  else []

/-- What is still to be delivered, in order. -/
def bytes (flight : List Pending) : List Byte := (flight.map rest).flatten

@[simp] theorem bytes_append (flight flight' : List Pending) :
    bytes (flight ++ flight') = bytes flight ++ bytes flight' := by
  rw [bytes, List.map_append, List.flatten_append, bytes, bytes]

theorem bytes_deliver (p : Pending) (flight : List Pending) :
    p.next :: bytes (p.deliver ++ flight) = bytes (p :: flight) := by
  have whole : p.next :: p.rest.tail = p.rest := List.cons_head_tail p.left
  have tail : bytes p.deliver = p.rest.tail := by
    rw [deliver]
    split
    · simp [bytes]
    · rename_i last
      rw [not_not.mp last]
      rfl
  rw [bytes_append, tail, ← List.cons_append, whole]
  rfl

theorem deliver_command {p q : Pending} (h : q ∈ p.deliver) : q.command = p.command := by
  rw [deliver] at h
  split at h
  · rw [List.mem_singleton.mp h]
  · cases h

/-- What is left of a line ends where the line does. -/
theorem rest_ends (p : Pending) : p.rest.getLast? = some 10 := by
  obtain ⟨front, whole⟩ := p.within
  have ends : p.line.text.getLast? = some 10 := List.getLast?_concat
  rwa [← whole, List.getLast?_append_of_ne_nil _ p.left] at ends

end Pending

/-! ## One byte of a call -/

/-- What the readers and `get_response` do with a byte, up to where the next one
is read; true when the call returns. -/
def Port.hear (stopWords : List CString) (b : Byte) (p : Port) : Bool × Port :=
  if b = 0 then (true, { p with res := { p.res with retCode := -1 } })
  else
    let p := (p.store p.res.dataLength b).advance
    if p.res.data.getD (p.res.dataLength - 1) 0 = 10 ∨ ¬ p.res.dataLength < maxPacketSize then
      let p := (p.store p.res.dataLength 0).search stopWords
      (decide (p.res.retCode ≠ -1), p)
    else (false, p)

/-- A turn of the loops, with the byte that is read or the zero on timeout. -/
def Port.turn (stopWords : List CString) (p : Port) : Bool × Port :=
  (uartReadByte p).2.hear stopWords (uartReadByte p).1

/-- The call of which the loops are at a read of a byte returns so. -/
def Port.Returns (stopWords : List CString) (p q : Port) : Prop :=
  ∃ fuel, responseLoop stopWords fuel p = some q

section Turn

variable {stopWords : List CString} {p q : Port}

/-- Where a byte is read: nothing has been found, and there is room for it. -/
structure Port.Reading (p : Port) : Prop where
  waiting : p.res.retCode = -1
  room : p.res.dataLength < maxPacketSize

/-- The length behind a terminator, also behind one that has hit the length. -/
theorem Response.terminate_room {r : Response} (fits : r.dataLength ≤ maxPacketSize) :
    (r.store r.dataLength 0).dataLength < maxPacketSize := by
  by_cases inside : r.dataLength < maxPacketSize
  · rw [(Response.store_inside inside 0).2]
    exact inside
  · have full : r.dataLength = maxPacketSize := by omega
    rw [store, if_neg inside, if_pos full, full]
    show maxPacketSize / 256 * 256 + 0 < maxPacketSize
    decide

/-- The loops, once a line has ended or the buffer is full. -/
theorem responseLoop_ended (waiting : p.res.retCode = -1)
    (ended : uartReadArray 10 maxPacketSize p = (.ok, q)) (fuel : Nat) :
    responseLoop stopWords (fuel + 1) p =
      responseLoop stopWords fuel ((q.store q.res.dataLength 0).search stopWords) := by
  rw [responseLoop, if_pos waiting, uartReadString, ended]

/-- The response a byte has been put in. -/
def Port.taken (p : Port) : Port :=
  ((uartReadByte p).2.store (uartReadByte p).2.res.dataLength (uartReadByte p).1).advance

/-- The turn of a byte that was heard. -/
theorem Port.turn_heard (heard : (uartReadByte p).1 ≠ 0) :
    p.turn stopWords =
      if p.taken.res.data.getD (p.taken.res.dataLength - 1) 0 = 10 ∨
          ¬ p.taken.res.dataLength < maxPacketSize then
        (decide (((p.taken.store p.taken.res.dataLength 0).search stopWords).res.retCode ≠ -1),
          (p.taken.store p.taken.res.dataLength 0).search stopWords)
      else (false, p.taken) := by
  rw [Port.turn, Port.hear, if_neg heard]
  rfl

theorem Port.Reading.taken_res (h : p.Reading) :
    p.taken.res.retCode = -1 ∧ p.taken.res.dataLength = p.res.dataLength + 1 := by
  have pushed : p.taken = p.push (p.rx.headD 0) p.rx.tail := by
    rw [Port.taken, uartReadByte_eq]
    rfl
  rw [pushed, Port.push_retCode]
  exact ⟨h.waiting, (Port.push_last _ _ h.room).1⟩

/-- With a byte the reader ends a line or goes on. -/
theorem Port.Reading.array_eq (h : p.Reading) (heard : (uartReadByte p).1 ≠ 0) :
    uartReadArray 10 maxPacketSize p =
      if p.taken.res.data.getD (p.taken.res.dataLength - 1) 0 = 10 then (.ok, p.taken)
      else uartReadArray 10 maxPacketSize p.taken := by
  rw [uartReadArray, if_pos h.room, dif_neg heard]
  rfl

/-- The loops after a byte that ends a line or fills the buffer. -/
theorem Port.Reading.returns_ended (h : p.Reading) (heard : (uartReadByte p).1 ≠ 0)
    (ended : p.taken.res.data.getD (p.taken.res.dataLength - 1) 0 = 10 ∨
      ¬ p.taken.res.dataLength < maxPacketSize) (fuel : Nat) :
    responseLoop stopWords (fuel + 1) p =
      responseLoop stopWords fuel ((p.taken.store p.taken.res.dataLength 0).search stopWords) := by
  apply responseLoop_ended h.waiting
  rw [h.array_eq heard]
  split
  · rfl
  · rename_i inside
    rw [uartReadArray, if_neg (ended.resolve_left inside)]

variable (stopWords) in
/-- **A turn is what the loops do with one byte.** -/
theorem Port.Reading.turn (h : p.Reading) :
    ((p.turn stopWords).1 = true → p.Returns stopWords (p.turn stopWords).2) ∧
    ((p.turn stopWords).1 = false → (p.turn stopWords).2.Reading ∧
      ∀ r, (p.turn stopWords).2.Returns stopWords r → p.Returns stopWords r) := by
  obtain ⟨waiting, length⟩ := h.taken_res
  have loops := h.room
  by_cases silent : (uartReadByte p).1 = 0
  · rw [Port.turn, Port.hear, if_pos silent]
    constructor
    · intro _
      refine ⟨1, ?_⟩
      rw [responseLoop, if_pos h.waiting, uartReadString, uartReadArray, if_pos h.room]
      simp only [silent, dif_pos]
    · intro more
      cases more
  · rw [Port.turn_heard silent]
    by_cases ended : p.taken.res.data.getD (p.taken.res.dataLength - 1) 0 = 10 ∨
        ¬ p.taken.res.dataLength < maxPacketSize
    · rw [if_pos ended]
      constructor
      · intro found
        refine ⟨2, ?_⟩
        rw [h.returns_ended silent ended, responseLoop, if_neg (of_decide_eq_true found)]
      · intro missing
        have room : p.taken.res.dataLength ≤ maxPacketSize := by omega
        refine ⟨⟨not_not.mp (of_decide_eq_false missing), Response.terminate_room room⟩, ?_⟩
        rintro r ⟨fuel, ran⟩
        exact ⟨fuel + 1, (h.returns_ended silent ended fuel).trans ran⟩
    · rw [if_neg ended]
      obtain ⟨inside, room⟩ := not_or.mp ended
      constructor
      · intro found
        cases found
      · intro _
        refine ⟨⟨waiting, not_not.mp room⟩, ?_⟩
        rintro r ⟨fuel, ran⟩
        refine ⟨fuel, ?_⟩
        cases fuel with
        | zero => cases ran
        | succ fuel =>
          rw [responseLoop, if_pos h.waiting, uartReadString, h.array_eq silent, if_neg inside]
          rwa [responseLoop, if_pos waiting, uartReadString] at ran

end Turn

/-- Where a command stands. -/
inductive Stage
  | idle | waiting | returned
deriving DecidableEq

/-- The tracker, the modem and what is between them. -/
structure Link where
  /-- How many commands have been sent. -/
  issued : Nat
  stopWords : StopWords
  stage : Stage
  port : Port
  flight : List Pending
  /-- What was on its way when the last command was about to be sent. -/
  leftOver : List Pending
  /-- The answer to the last command. -/
  answer : List Pending
  /-- What has been read since then. -/
  heard : List Byte

inductive Link.Event
  | cmd (stopWords : StopWords) (answer : List Line)
  | deliver
  | read

namespace Link

def start (res : Response) : Link where
  issued := 0
  stopWords := ⟨[], by decide, by simp, by simp⟩
  stage := .idle
  port := .listening [] res
  flight := []
  leftOver := []
  answer := []
  heard := []

/-- `uart_flush`, then the command goes out and the response is reset; what the
modem will answer goes behind the lines on their way. -/
def cmd (s : Link) (stopWords : StopWords) (answer : List Line) : Link where
  issued := s.issued + 1
  stopWords := stopWords
  stage := .waiting
  port := resetResponse (.listening [] s.port.res)
  flight := s.flight ++ answer.map (Pending.emit (s.issued + 1))
  leftOver := s.flight
  answer := answer.map (Pending.emit (s.issued + 1))
  heard := []

/-- A byte arrives. -/
def arrive (s : Link) (p : Pending) (flight : List Pending) : Link :=
  { s with
    port := { s.port with rx := s.port.rx ++ [p.next] }
    flight := p.deliver ++ flight }

/-- `uart_read_byte` returns, on time or not, and the loops go on. -/
def read (s : Link) : Link :=
  { s with
    stage := if (s.port.turn s.stopWords.words).1 then .returned else .waiting
    port := (s.port.turn s.stopWords.words).2
    heard := s.heard ++ s.port.rx.take 1 }

/-- A byte is read when one has arrived, and the wait for it ends when none has. -/
def step (s : Link) : Event → Option Link
  | .cmd stopWords answer => if s.stage = .waiting then none else some (s.cmd stopWords answer)
  | .deliver =>
    match s.flight with
    | [] => none
    | p :: flight => some (s.arrive p flight)
  | .read => if s.stage = .waiting then some s.read else none

def Step (s : Link) (e : Event) (t : Link) : Prop := s.step e = some t

/-- What a step can be. -/
theorem step_cases {s t : Link} {e : Event} (h : Step s e t) :
    (∃ stopWords answer, s.stage ≠ .waiting ∧ t = s.cmd stopWords answer) ∨
      (∃ p flight, s.flight = p :: flight ∧ t = s.arrive p flight) ∨
      (s.stage = .waiting ∧ t = s.read) := by
  cases e with
  | cmd stopWords answer =>
    simp only [Step, step] at h
    split at h
    · cases h
    · rename_i ready
      exact .inl ⟨stopWords, answer, ready, (Option.some.inj h).symm⟩
  | deliver =>
    simp only [Step, step] at h
    split at h
    · cases h
    · rename_i p flight here
      exact .inr (.inl ⟨p, flight, here, (Option.some.inj h).symm⟩)
  | read =>
    simp only [Step, step] at h
    split at h
    · rename_i waiting
      exact .inr (.inr ⟨waiting, (Option.some.inj h).symm⟩)
    · cases h

end Link

/-! ## A call is `get_response` on what it has heard -/

/-- The port with other bytes to come. -/
def Port.hearing (p : Port) (rx : List Byte) : Port := { p with rx := rx }

theorem Port.hearing_self {p : Port} {rx : List Byte} (all : p.rx = rx) : p.hearing rx = p := by
  rw [← all]
  rfl

theorem Port.Reading.hearing {p : Port} (h : p.Reading) (rx : List Byte) : (p.hearing rx).Reading :=
  ⟨h.waiting, h.room⟩

/-- What is done with a byte does not depend on those to come. -/
theorem Port.hear_hearing (p : Port) (stopWords : List CString) (b : Byte) (rx : List Byte) :
    (p.hearing rx).hear stopWords b = ((p.hear stopWords b).1, (p.hear stopWords b).2.hearing rx) := by
  have inside : ∀ (c : Prop) [Decidable c] (x y : Bool × Port),
      ((if c then x else y).1, (if c then x else y).2.hearing rx) =
        if c then (x.1, x.2.hearing rx) else (y.1, y.2.hearing rx) := by
    intro c _ x y
    split <;> rfl
  simp only [hear, inside]
  rfl

theorem Port.hear_rx (p : Port) (stopWords : List CString) (b : Byte) :
    (p.hear stopWords b).2.rx = p.rx := by
  have same := congrArg (·.2.rx) (p.hear_hearing stopWords b p.rx)
  exact same

/-- A turn takes one byte. -/
theorem Port.turn_hearing {p : Port} {b : Byte} {rest : List Byte} (stopWords : List CString)
    (next : p.rx = b :: rest) (rx : List Byte) :
    (p.hearing (b :: rx)).turn stopWords = ((p.turn stopWords).1, (p.turn stopWords).2.hearing rx) := by
  have one : uartReadByte p = (b, p.hearing rest) := by rw [uartReadByte, next]; rfl
  rw [turn, turn, one]
  show (p.hearing rx).hear stopWords b = _
  rw [hear_hearing, hear_hearing]
  rfl

theorem Port.turn_rx (p : Port) (stopWords : List CString) :
    (p.turn stopWords).2.rx = p.rx.drop 1 := by
  rw [turn, hear_rx, uartReadByte_eq, List.drop_one]

namespace Link

variable {s t : Link} {e : Event}

/-- The call so far, as `get_response` on a stream that begins with the bytes heard. -/
structure Calls (s : Link) : Prop where
  waiting : s.stage = .waiting → s.port.Reading ∧ ∃ res, ∀ rx r,
    (s.port.hearing rx).Returns s.stopWords.words r →
      (resetResponse (.listening (s.heard ++ rx) res)).Returns s.stopWords.words r
  returned : s.stage = .returned → ∃ res,
    (resetResponse (.listening s.heard res)).Returns s.stopWords.words (s.port.hearing [])

theorem Calls.start (res : Response) : Calls (start res) := ⟨nofun, nofun⟩

theorem Calls.cmd (s : Link) (stopWords : StopWords) (answer : List Line) :
    Calls (s.cmd stopWords answer) := by
  refine ⟨fun _ => ⟨⟨rfl, ?_⟩, s.port.res, fun rx r ran => ran⟩, fun h => nomatch h⟩
  show 0 < maxPacketSize
  decide

theorem Calls.arrive (h : Calls s) (p : Pending) (flight : List Pending) :
    Calls (s.arrive p flight) := by
  refine ⟨fun here => ?_, h.returned⟩
  obtain ⟨reading, call⟩ := h.waiting here
  exact ⟨⟨reading.waiting, reading.room⟩, call⟩

/-- One byte more. -/
theorem Calls.read (h : Calls s) (here : s.stage = .waiting) : Calls s.read := by
  obtain ⟨reading, res, call⟩ := h.waiting here
  cases next : s.port.rx with
  | nil =>
    -- nothing has arrived in time, and nothing is heard
    have heard : s.read.heard = s.heard := by rw [Link.read, next]; exact List.append_nil _
    have silent : (s.port.turn s.stopWords.words).1 = true := by
      rw [Port.turn, uartReadByte, next]
      rfl
    have stage : s.read.stage = .returned := if_pos silent
    refine ⟨fun waits => absurd (stage.symm.trans waits) (by decide), fun _ => ⟨res, ?_⟩⟩
    rw [heard, ← s.heard.append_nil]
    have nothing : s.read.port.rx = [] := by
      have rx := s.port.turn_rx s.stopWords.words
      rwa [next] at rx
    apply call [] _
    rw [Port.hearing_self next, Port.hearing_self nothing]
    exact (reading.turn _).1 silent
  | cons b rest =>
    have heard : s.read.heard = s.heard ++ [b] := by rw [Link.read, next]; rfl
    have turn := fun rx => (reading.hearing (b :: rx)).turn s.stopWords.words
    simp only [Port.turn_hearing _ next] at turn
    cases ends : (s.port.turn s.stopWords.words).1 with
    | true =>
      have stage : s.read.stage = .returned := if_pos ends
      refine ⟨fun waits => absurd (stage.symm.trans waits) (by decide), fun _ => ⟨res, ?_⟩⟩
      rw [heard]
      exact call [b] _ ((turn []).1 ends)
    | false =>
      have stage : s.read.stage = .waiting := if_neg (by rw [ends]; exact Bool.false_ne_true)
      refine ⟨fun _ => ⟨((reading.turn _).2 ends).1, res, fun rx r ran => ?_⟩,
        fun settled => absurd (stage.symm.trans settled) (by decide)⟩
      rw [heard, List.append_assoc]
      exact call (b :: rx) r (((turn rx).2 ends).2 r ran)

theorem Calls.step (h : Calls s) (taken : Step s e t) : Calls t := by
  obtain ⟨stopWords, answer, -, rfl⟩ | ⟨p, flight, -, rfl⟩ | ⟨here, rfl⟩ := step_cases taken
  · exact Calls.cmd s stopWords answer
  · exact h.arrive p flight
  · exact h.read here

/-! ## What a call has heard -/

/-- Everything that was on its way after the last flush has been read, has
arrived or is still on its way, in order. -/
structure Conserved (s : Link) : Prop where
  order : s.heard ++ s.port.rx ++ Pending.bytes s.flight = Pending.bytes (s.leftOver ++ s.answer)
  flight : ∀ p ∈ s.flight, p.command ≤ s.issued
  leftOver : ∀ p ∈ s.leftOver, p.command < s.issued
  answer : ∀ p ∈ s.answer, p.command = s.issued

theorem Conserved.start (res : Response) : Conserved (start res) :=
  ⟨rfl, fun _ h => (nomatch h), fun _ h => (nomatch h), fun _ h => (nomatch h)⟩

theorem Conserved.cmd (h : Conserved s) (stopWords : StopWords) (answer : List Line) :
    Conserved (s.cmd stopWords answer) := by
  have own : ∀ p ∈ answer.map (Pending.emit (s.issued + 1)), p.command = s.issued + 1 := by
    intro p emitted
    obtain ⟨line, -, rfl⟩ := List.mem_map.mp emitted
    rfl
  refine ⟨rfl, fun p sent => ?_, fun p old => Nat.lt_succ_of_le (h.flight p old), own⟩
  rcases List.mem_append.mp sent with old | new
  · exact Nat.le_succ_of_le (h.flight p old)
  · exact Nat.le_of_eq (own p new)

theorem Conserved.arrive (h : Conserved s) {p : Pending} {flight : List Pending}
    (first : s.flight = p :: flight) : Conserved (s.arrive p flight) := by
  refine ⟨?_, fun q sent => ?_, h.leftOver, h.answer⟩
  · show s.heard ++ (s.port.rx ++ [p.next]) ++ Pending.bytes (p.deliver ++ flight) = _
    rw [← List.append_assoc, List.append_assoc _ [p.next], List.singleton_append,
      Pending.bytes_deliver, ← first]
    exact h.order
  · rcases List.mem_append.mp sent with rest | later
    · rw [Pending.deliver_command rest]
      exact h.flight p (by rw [first]; exact List.mem_cons_self)
    · exact h.flight q (by rw [first]; exact List.mem_cons_of_mem _ later)

theorem Conserved.read (h : Conserved s) : Conserved s.read := by
  refine ⟨?_, h.flight, h.leftOver, h.answer⟩
  show s.heard ++ s.port.rx.take 1 ++ (s.port.turn s.stopWords.words).2.rx ++ _ = _
  rw [Port.turn_rx, List.append_assoc s.heard, List.take_append_drop]
  exact h.order

theorem Conserved.step (h : Conserved s) (taken : Step s e t) : Conserved t := by
  obtain ⟨stopWords, answer, -, rfl⟩ | ⟨p, flight, first, rfl⟩ | ⟨-, rfl⟩ := step_cases taken
  · exact h.cmd stopWords answer
  · exact h.arrive first
  · exact h.read

section Runs

variable {res : Response} {trace : List Event}

/-- **Whatever arrives when, a call that has returned is `get_response` on the
bytes it has heard.** -/
theorem returned_getResponse (run : Run Step (start res) trace s) (returned : s.stage = .returned) :
    ∃ fuel res, getResponse s.stopWords.words fuel (.listening s.heard res) = some (s.port.hearing []) := by
  have calls := run.invariant Calls (fun _ _ _ h taken => h.step taken) (Calls.start res)
  obtain ⟨res, fuel, ran⟩ := calls.returned returned
  exact ⟨fuel, res, ran⟩

theorem conserved (run : Run Step (start res) trace s) : Conserved s :=
  run.invariant _ (fun _ _ _ h taken => h.step taken) (Conserved.start res)

end Runs

/-- The stop word whose number the call has returned lies in the text. -/
def Reported (s : Link) (text : List Byte) : Prop :=
  ∃ k word, s.port.res.retCode = Int.ofNat k ∧ s.stopWords.words[k]? = some word ∧ word <:+: text

/-- **A reported stop word lies in a line that was on its way after the flush**:
in one of the answer, or in what was left over of one to an earlier command.
(Each `p.rest` ends a line.) -/
theorem reported_word (res : Response) (trace : List Event) (s : Link)
    (run : Run Step (start res) trace s) (returned : s.stage = .returned)
    (reports : s.port.res.retCode ≠ -1) (short : s.heard.length < maxPacketSize) :
    ∃ p, s.Reported p.rest ∧
      ((p ∈ s.answer ∧ p.command = s.issued) ∨ (p ∈ s.leftOver ∧ p.command < s.issued)) := by
  obtain ⟨fuel, before, ran⟩ := returned_getResponse run returned
  obtain ⟨P, k, within, first, code⟩ := getResponse_found s.stopWords.few ran reports short
  have heard := conserved run
  obtain ⟨word, found, occurs⟩ := firstWord_getElem first
  have among : word ∈ s.stopWords.words := List.mem_of_getElem? found
  have sent : word <:+: Pending.bytes (s.leftOver ++ s.answer) := by
    rw [← heard.order, List.append_assoc]
    exact (occurs.trans within.isInfix).trans (List.prefix_append _ _).isInfix
  obtain ⟨rest, left, there⟩ := infix_flatten (s.stopWords.oneLine word among)
    (fun empty => s.stopWords.nonempty (empty ▸ among))
    (fun line inside => by
      obtain ⟨p, -, rfl⟩ := List.mem_map.mp inside
      exact p.rest_ends) sent
  obtain ⟨p, inside, rfl⟩ := List.mem_map.mp left
  refine ⟨p, ⟨k, word, code, found, there⟩, ?_⟩
  rcases List.mem_append.mp inside with old | own
  · exact .inr ⟨old, heard.leftOver p old⟩
  · exact .inl ⟨own, heard.answer p own⟩

/-- `OK` and `ERROR` as the stop words of a command. -/
def okError : StopWords := ⟨Zouipocar.okError, by decide, by decide, by decide⟩

def ok : Line := ⟨[79, 75, 13], by decide⟩

def error : Line := ⟨[69, 82, 82, 79, 82, 13], by decide⟩

/-- A line of so many bytes arrives and is read. -/
def hear (size : Nat) : List Event := (List.replicate size [Event.deliver, .read]).flatten

/-- A command that times out, and the next, which hears the late answer. -/
def late : List Event := [.cmd okError [ok], .read, .cmd okError [error]] ++ hear 4

/-- It reports the `OK` that is not in its own answer. -/
theorem late_run : ∃ s, Run Step (start .cleared) late s ∧ s.stage = .returned ∧ s.port.res.retCode = 0 ∧
    s.heard.length = 4 ∧ ∀ p ∈ s.answer, ¬ s.Reported p.line.text := by
  have ends : ((late.foldlM step (start .cleared)).map fun s =>
      ((s.stage, s.port.res.retCode, s.heard.length), s.stopWords.words, s.answer.map (·.line.text))) =
        some ((.returned, 0, 4), okError.words, [error.text]) := by decide +kernel
  obtain ⟨s, ran, outcome⟩ := Option.map_eq_some_iff.mp ends
  simp only [Prod.mk.injEq] at outcome
  obtain ⟨⟨stage, code, length⟩, words, answer⟩ := outcome
  refine ⟨s, Run.of_foldlM ran, stage, code, length, ?_⟩
  rintro p own ⟨k, word, reported, found, occurs⟩
  obtain rfl : k = 0 := by
    rw [code] at reported
    exact (Int.ofNat.inj reported).symm
  have text : p.line.text = error.text := by
    have inside := List.mem_map_of_mem (f := fun q : Pending => q.line.text) own
    rw [answer] at inside
    exact List.mem_singleton.mp inside
  rw [words] at found
  obtain rfl := Option.some.inj found
  rw [text] at occurs
  revert occurs
  decide

/-- That `OK` was left over from the command before. -/
theorem reported_word_ok : ∃ s, Run Step (start .cleared) late s ∧
    ∃ p ∈ s.leftOver, p.command < s.issued ∧ s.Reported p.rest := by
  obtain ⟨s, run, stage, code, length, other⟩ := late_run
  obtain ⟨p, reported, ⟨own, -⟩ | ⟨leftOver, earlier⟩⟩ := reported_word .cleared late s run stage
    (by rw [code]; decide) (by rw [length]; decide)
  · obtain ⟨k, word, stop, found, occurs⟩ := reported
    exact (other p own ⟨k, word, stop, found, occurs.trans p.within.isInfix⟩).elim
  · exact ⟨s, run, p, leftOver, earlier, reported⟩

/-- The answer to a command that has timed out is taken for that to the next. -/
theorem not_own_answer :
    ¬ ∀ (res : Response) (trace : List Event) (s : Link), Run Step (start res) trace s →
      s.stage = .returned → s.port.res.retCode ≠ -1 →
      ∃ p ∈ s.answer, s.Reported p.line.text := by
  intro always
  obtain ⟨s, run, stage, code, -, other⟩ := late_run
  obtain ⟨p, own, reported⟩ := always .cleared late s run stage (by rw [code]; decide)
  exact other p own reported

end Link

end Zouipocar
