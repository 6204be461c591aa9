import Zouipocar.Tracker.At

/-!
# `get_response` on a finite stream

`Reply` is the loop read byte by byte: the bytes so far, and what ends them (a
line with a stop word, silence, or the buffer). The nested loops of the code do
what it says (`responseLoop_reply`), and it agrees with the prefix the caller
is after exactly when the buffer does not run full.
-/

namespace Zouipocar
set_option autoImplicit false
open Lib

/-- How waiting for a reply ends. -/
inductive Reply
  | timeout
  | found (word : Nat)
  | full
deriving DecidableEq

/-- The end of the reply of which some bytes have been read. -/
def reply (stopWords : List CString) (acc : List Byte) : List Byte → Reply
  | [] => .timeout
  | b :: rest =>
    if b = 0 then .timeout
    else if acc.length + 1 = maxPacketSize then .full
    else
      match if b = 10 then firstWord stopWords (acc ++ [b]) else none with
      | some word => .found word
      | none => reply stopWords (acc ++ [b]) rest

/-- A prefix the caller waits for: a line end behind a stop word. -/
def Answers (stopWords : List CString) (P : List Byte) : Prop :=
  P.getLast? = some 10 ∧ ∃ word ∈ stopWords, word <:+: P

instance (stopWords : List CString) (P : List Byte) : Decidable (Answers stopWords P) :=
  inferInstanceAs (Decidable (_ ∧ _))

/-- The code the caller is to get: the first stop word in the shortest such
prefix, if that is a string that fits in the buffer. -/
def wanted (stopWords : List CString) (stream : List Byte) : Int :=
  match stream.inits.find? (Answers stopWords ·) with
  | some P =>
    if 0 ∉ P ∧ P.length < maxPacketSize then ((firstWord stopWords P).map Int.ofNat).getD (-1) else -1
  | none => -1

/-- The buffer does not run full before the reply ends. -/
def Fits (stopWords : List CString) (stream : List Byte) : Prop :=
  (∃ P, P <+: stream ∧ Answers stopWords P ∧ 0 ∉ P ∧ P.length < maxPacketSize) ∨
    stream.length < maxPacketSize ∨ 0 ∈ stream.take maxPacketSize

theorem firstWord_isSome (stopWords : List CString) (P : List Byte) :
    (firstWord stopWords P).isSome ↔ ∃ word ∈ stopWords, word <:+: P := by
  simp [firstWord]

/-! ## The loops byte by byte -/

section Loop

open Port

variable {stopWords : List CString} {p : Port} {acc rest : List Byte} {b : Byte} {fuel : Nat}

/-- Silence ends the loop. -/
theorem responseLoop_timeout (h : Holds acc p) (room : acc.length < maxPacketSize)
    (waiting : p.res.retCode = -1) (silent : (uartReadByte p).1 = 0) :
    responseLoop stopWords (fuel + 1) p =
      some { (uartReadByte p).2 with res := { (uartReadByte p).2.res with retCode := -1 } } := by
  rw [responseLoop, if_pos waiting, uartReadString, uartReadArray_timeout h room silent]

/-- A byte within a line changes nothing but the buffer. -/
theorem responseLoop_push (h : Holds acc p) (room : acc.length < maxPacketSize)
    (waiting : p.res.retCode = -1) (next : p.rx = b :: rest) (nonzero : b ≠ 0) (inside : b ≠ 10) :
    responseLoop stopWords (fuel + 1) p = responseLoop stopWords (fuel + 1) (p.push b rest) := by
  have waiting' : (p.push b rest).res.retCode = -1 := (push_retCode p b rest).trans waiting
  rw [responseLoop, responseLoop, if_pos waiting, if_pos waiting', uartReadString, uartReadString,
    uartReadArray_push h room next nonzero, if_neg inside]

variable (stopWords fuel) in
/-- At the end of a line the reply so far is searched. -/
theorem responseLoop_line (h : Holds acc p) (room : acc.length < maxPacketSize)
    (waiting : p.res.retCode = -1) (next : p.rx = 10 :: rest) :
    responseLoop stopWords (fuel + 1) p = responseLoop stopWords fuel
      (((p.push 10 rest).store (p.push 10 rest).res.dataLength 0).search stopWords) := by
  rw [responseLoop, if_pos waiting, uartReadString, uartReadArray_push h room next (by decide), if_pos rfl]

/-- A byte that fills the buffer is followed by a store behind its end. -/
theorem responseLoop_full (h : Holds acc p) (last : acc.length + 1 = maxPacketSize)
    (waiting : p.res.retCode = -1) (next : p.rx = b :: rest) (nonzero : b ≠ 0) :
    responseLoop stopWords (fuel + 1) p = responseLoop stopWords fuel
      (((p.push b rest).store (p.push b rest).res.dataLength 0).search stopWords) := by
  have room : acc.length < maxPacketSize := by omega
  have full := uartReadArray_full (h.push rest b room) (by simpa using last)
  have read : uartReadArray 10 maxPacketSize p = (.ok, p.push b rest) := by
    rw [uartReadArray_push h room next nonzero]
    split
    · rfl
    · exact full
  rw [responseLoop, if_pos waiting, uartReadString, read]

theorem mem_writes_responseLoop {i : Nat} {q : Port} (stored : i ∈ p.writes)
    (ran : responseLoop stopWords fuel p = some q) : i ∈ q.writes := by
  induction fuel generalizing p with
  | zero => cases ran
  | succ fuel ih =>
    have inside := mem_writes_uartReadString 10 maxPacketSize stored
    rw [responseLoop] at ran
    split at ran
    · split at ran
      · rename_i p' read
        rw [read] at inside
        obtain rfl := Option.some.inj ran
        exact inside
      · rename_i p' read
        rw [read] at inside
        exact ih (p := p'.search stopWords) inside ran
    · obtain rfl := Option.some.inj ran
      exact stored

/-- The terminated reply is what is searched. -/
theorem Port.Holds.text (h : Holds acc p) (room : acc.length < maxPacketSize) (plain : 0 ∉ acc) :
    p.res.text = acc := by
  have whole : ∀ c ∈ acc, decide (c ≠ 0) = true := by
    intro c inside
    exact decide_eq_true fun zero => plain (zero ▸ inside)
  obtain ⟨k, left⟩ : ∃ k, maxPacketSize - acc.length = k + 1 := ⟨_, (Nat.sub_add_cancel (by omega)).symm⟩
  rw [Response.text, h.data, left, List.replicate_succ, List.append_assoc,
    List.takeWhile_append_of_pos whole]
  simp

variable (stopWords) in
theorem Port.Holds.search (h : Holds acc p) (room : acc.length < maxPacketSize) :
    Holds acc (p.search stopWords) := by
  refine ⟨h.length, h.fits, h.data, h.writes, fun d looked => ?_⟩
  rcases List.mem_append.mp looked with before | now
  · exact h.looks d before
  · rw [List.mem_singleton.mp now, h.data]
    exact List.mem_append_right _ (List.mem_replicate.mpr ⟨by omega, rfl⟩)

/-- The code becomes the first stop word of the reply so far. -/
theorem Port.Holds.search_code (h : Holds acc p) (room : acc.length < maxPacketSize) (plain : 0 ∉ acc)
    (few : stopWords.length ≤ 127) :
    (p.search stopWords).res.retCode = ((firstWord stopWords acc).map Int.ofNat).getD (-1) := by
  show int8 (searchStopWords p.res.text stopWords) = _
  rw [h.text room plain, int8_firstWord few]

end Loop

/-! ## The nested loops do what `Reply` says -/

/-- Every store was inside the buffer and every search met a terminator. -/
structure Clean (p : Port) : Prop where
  writes : ∀ i ∈ p.writes, i < maxPacketSize
  looks : ∀ d ∈ p.looks, 0 ∈ d

/-- The loop from a state on, as far as the reply decides it. -/
def Ends (stopWords : List CString) (p : Port) : Reply → Prop
  | .timeout => ∀ fuel, p.rx.length + 2 ≤ fuel →
      ∃ q, responseLoop stopWords fuel p = some q ∧ Clean q ∧ q.res.retCode = -1
  | .found word => ∀ fuel, p.rx.length + 2 ≤ fuel →
      ∃ q, responseLoop stopWords fuel p = some q ∧ Clean q ∧ q.res.retCode = word
  | .full => ∀ fuel q, responseLoop stopWords fuel p = some q → maxPacketSize ∈ q.writes

section Reply

open Port

variable {stopWords : List CString} {p q : Port}

/-- A turn of a loop that takes a byte. -/
theorem Ends.of_turn {b : Byte} (next : p.rx = b :: q.rx)
    (turn : ∀ fuel, responseLoop stopWords (fuel + 1) p = responseLoop stopWords (fuel + 1) q ∨
      responseLoop stopWords (fuel + 1) p = responseLoop stopWords fuel q)
    {r : Reply} (h : Ends stopWords q r) : Ends stopWords p r := by
  have length : p.rx.length = q.rx.length + 1 := by rw [next]; rfl
  cases r with
  | timeout | found word =>
    intro fuel enough
    obtain ⟨fuel, rfl⟩ : ∃ n, fuel = n + 1 := ⟨fuel - 1, by omega⟩
    rcases turn fuel with same | same <;> rw [same] <;> exact h _ (by omega)
  | full =>
    intro fuel r ran
    cases fuel with
    | zero => cases ran
    | succ fuel => rcases turn fuel with same | same <;> rw [same] at ran <;> exact h _ _ ran

variable {acc rest : List Byte} {b : Byte}

/-- A read that gives no byte ends the call. -/
theorem Ends.silent (h : Holds acc p) (room : acc.length < maxPacketSize) (waiting : p.res.retCode = -1)
    (silent : (uartReadByte p).1 = 0) : Ends stopWords p .timeout := by
  intro fuel enough
  obtain ⟨fuel, rfl⟩ : ∃ n, fuel = n + 1 := ⟨fuel - 1, by omega⟩
  refine ⟨_, responseLoop_timeout h room waiting silent, ⟨?_, ?_⟩, rfl⟩
  · rw [uartReadByte_eq]
    exact h.writes
  · rw [uartReadByte_eq]
    exact h.looks

/-- The terminator of a full buffer goes behind its end. -/
theorem Ends.full (h : Holds acc p) (last : acc.length + 1 = maxPacketSize)
    (waiting : p.res.retCode = -1) (next : p.rx = b :: rest) (nonzero : b ≠ 0) :
    Ends stopWords p .full := by
  intro fuel q ran
  cases fuel with
  | zero => cases ran
  | succ fuel =>
    rw [responseLoop_full h last waiting next nonzero] at ran
    apply mem_writes_responseLoop _ ran
    have length := h.push_length rest b (by omega)
    rw [last] at length
    exact List.mem_append_right _ (List.mem_singleton.mpr length.symm)

/-- A line that ends with a stop word in the reply ends the call. -/
theorem Ends.found (h : Holds acc p) (room : acc.length < maxPacketSize) (waiting : p.res.retCode = -1)
    (next : p.rx = 10 :: rest) (room' : (acc ++ [10]).length < maxPacketSize) {word : Nat}
    (code : (((p.push 10 rest).store (p.push 10 rest).res.dataLength 0).search stopWords).res.retCode =
      word) : Ends stopWords p (.found word) := by
  have ready := ((h.push rest 10 room).terminate room').search stopWords room'
  intro fuel enough
  rw [next, List.length_cons] at enough
  obtain ⟨fuel, rfl⟩ : ∃ n, fuel = n + 2 := ⟨fuel - 2, by omega⟩
  refine ⟨_, ?_, ⟨ready.writes, ready.looks⟩, code⟩
  rw [responseLoop_line stopWords (fuel + 1) h room waiting next, responseLoop, if_neg]
  rw [code]
  simp

/-- A text that gets a byte other than zero stays without one. -/
theorem plain_snoc (plain : 0 ∉ acc) (nonzero : b ≠ 0) : 0 ∉ acc ++ [b] := by
  intro inside
  rcases List.mem_append.mp inside with before | now
  · exact plain before
  · exact nonzero (List.mem_singleton.mp now).symm

/-- **Byte by byte the nested loops do what `reply` says.** -/
theorem responseLoop_reply (few : stopWords.length ≤ 127) (stream : List Byte) :
    ∀ {acc p}, Holds acc p → acc.length < maxPacketSize → 0 ∉ acc → p.res.retCode = -1 →
      p.rx = stream → Ends stopWords p (reply stopWords acc stream) := by
  induction stream with
  | nil =>
    intro acc p h room plain waiting silent
    apply Ends.silent h room waiting
    rw [uartReadByte, silent]
  | cons b rest ih =>
    intro acc p h room plain waiting next
    rw [reply]
    by_cases zero : b = 0
    · -- a zero byte is taken for silence
      rw [if_pos zero]
      apply Ends.silent h room waiting
      rw [uartReadByte, next, zero]
    · rw [if_neg zero]
      have plain' := plain_snoc plain zero
      by_cases last : acc.length + 1 = maxPacketSize
      · rw [if_pos last]
        exact Ends.full h last waiting next zero
      · rw [if_neg last]
        have room' : (acc ++ [b]).length < maxPacketSize := by
          rw [List.length_append, List.length_singleton]
          omega
        have pushed := h.push rest b room
        by_cases newline : b = 10
        · subst newline
          rw [if_pos rfl]
          have terminated := pushed.terminate room'
          have code := terminated.search_code room' plain' few
          cases found : firstWord stopWords (acc ++ [10]) with
          | none =>
            rw [found] at code
            apply Ends.of_turn next fun fuel => .inr (responseLoop_line stopWords fuel h room waiting next)
            exact ih (terminated.search stopWords room') room' plain' code rfl
          | some word =>
            rw [found] at code
            exact Ends.found h room waiting next room' code
        · rw [if_neg newline]
          apply Ends.of_turn (q := p.push b rest) next fun fuel =>
            .inl (responseLoop_push h room waiting next zero newline)
          exact ih pushed room' plain' ((push_retCode p b rest).trans waiting) rfl

end Reply

/-! ## What `Reply` says about the stream -/

section Stream

variable {stopWords : List CString} {acc rest stream : List Byte} {b : Byte}

/-- A longer prefix takes the next byte or more. -/
theorem prefix_cases {Q : List Byte} (within : Q <+: acc ++ b :: rest) (longer : acc.length < Q.length) :
    Q = acc ++ [b] ∨ (acc ++ [b]).length < Q.length := by
  by_cases more : (acc ++ [b]).length < Q.length
  · exact .inr more
  · left
    have length : Q.length = acc.length + 1 := by
      rw [List.length_append, List.length_singleton] at more
      omega
    rw [List.prefix_iff_eq_take.mp within, length, List.take_length_add_append]
    rfl

/-- The end of a reply, in terms of the prefixes that go beyond what was read. -/
def Says (stopWords : List CString) (acc stream : List Byte) : Reply → Prop
  | .found word => ∃ P, P <+: acc ++ stream ∧ Answers stopWords P ∧ 0 ∉ P ∧ P.length < maxPacketSize ∧
      firstWord stopWords P = some word ∧
      ∀ Q, Q <+: acc ++ stream → acc.length < Q.length → Answers stopWords Q → P.length ≤ Q.length
  | .timeout => (∀ Q, Q <+: acc ++ stream → acc.length < Q.length → Answers stopWords Q → 0 ∈ Q) ∧
      ((acc ++ stream).length < maxPacketSize ∨ 0 ∈ (acc ++ stream).take maxPacketSize)
  | .full => maxPacketSize ≤ (acc ++ stream).length ∧ 0 ∉ (acc ++ stream).take maxPacketSize ∧
      ∀ Q, Q <+: acc ++ stream → acc.length < Q.length → Q.length < maxPacketSize →
        ¬ Answers stopWords Q

/-- A byte after which nothing is found yet. -/
theorem Says.cons {r : Reply} (h : Says stopWords (acc ++ [b]) rest r)
    (notYet : ¬ Answers stopWords (acc ++ [b])) : Says stopWords acc (b :: rest) r := by
  have whole : acc ++ [b] ++ rest = acc ++ b :: rest := by simp
  cases r with
  | found word =>
    simp only [Says, whole] at h ⊢
    obtain ⟨P, within, answers, plain, short, first, least⟩ := h
    refine ⟨P, within, answers, plain, short, first, fun Q inside longer there => ?_⟩
    rcases prefix_cases inside longer with rfl | more
    · exact (notYet there).elim
    · exact least Q inside more there
  | timeout =>
    simp only [Says, whole] at h ⊢
    refine ⟨fun Q inside longer there => ?_, h.2⟩
    rcases prefix_cases inside longer with rfl | more
    · exact (notYet there).elim
    · exact h.1 Q inside more there
  | full =>
    simp only [Says, whole] at h ⊢
    refine ⟨h.1, h.2.1, fun Q inside longer short => ?_⟩
    rcases prefix_cases inside longer with rfl | more
    · exact notYet
    · exact h.2.2 Q inside more short

theorem prefix_next (acc rest : List Byte) (b : Byte) : acc ++ [b] <+: acc ++ b :: rest := by simp

/-- No prefix beyond a zero byte is plain. -/
theorem Says.zero (room : acc.length < maxPacketSize) : Says stopWords acc (0 :: rest) .timeout := by
  have beyond : ∀ Q, Q <+: acc ++ 0 :: rest → acc.length < Q.length → 0 ∈ Q := by
    intro Q within longer
    have here : acc ++ [0] <+: Q := by
      apply List.prefix_of_prefix_length_le (prefix_next acc rest 0) within
      rw [List.length_append, List.length_singleton]
      omega
    exact here.subset (by simp)
  refine ⟨fun Q within longer _ => beyond Q within longer, ?_⟩
  by_cases short : (acc ++ 0 :: rest).length < maxPacketSize
  · exact .inl short
  · right
    apply beyond _ (List.take_prefix _ _)
    rw [List.length_take]
    omega

/-- The byte that fills the buffer. -/
theorem Says.full (last : (acc ++ [b]).length = maxPacketSize) (plain : 0 ∉ acc ++ [b]) :
    Says stopWords acc (b :: rest) .full := by
  have next := prefix_next acc rest b
  have front : (acc ++ b :: rest).take maxPacketSize = acc ++ [b] := by
    rw [← last]
    exact (List.prefix_iff_eq_take.mp next).symm
  refine ⟨?_, by rwa [front], fun Q _ longer short => ?_⟩
  · rw [← last]
    exact next.length_le
  · rw [List.length_append, List.length_singleton] at last
    omega

/-- The end of a line behind a stop word. -/
theorem Says.found {word : Nat} (plain : 0 ∉ acc ++ [10]) (room : (acc ++ [10]).length < maxPacketSize)
    (found : firstWord stopWords (acc ++ [10]) = some word) :
    Says stopWords acc (10 :: rest) (.found word) := by
  have occurs := (firstWord_isSome stopWords (acc ++ [10])).mp (by rw [found]; rfl)
  refine ⟨acc ++ [10], prefix_next acc rest 10, ⟨by simp, occurs⟩, plain, room, found, ?_⟩
  intro Q _ longer _
  rw [List.length_append, List.length_singleton]
  omega

/-- **What `reply` says is true of the stream.** -/
theorem reply_says (stream : List Byte) :
    ∀ {acc : List Byte}, acc.length < maxPacketSize → 0 ∉ acc →
      Says stopWords acc stream (reply stopWords acc stream) := by
  induction stream with
  | nil =>
    intro acc room plain
    refine ⟨fun Q within longer => ?_, .inl (by simpa using room)⟩
    rw [List.append_nil] at within
    exact absurd within.length_le (by omega)
  | cons b rest ih =>
    intro acc room plain
    have length : (acc ++ [b]).length = acc.length + 1 := by simp
    rw [reply]
    by_cases zero : b = 0
    · subst zero
      exact Says.zero room
    · rw [if_neg zero]
      have plain' := plain_snoc plain zero
      by_cases last : acc.length + 1 = maxPacketSize
      · rw [if_pos last]
        exact Says.full (length.trans last) plain'
      · rw [if_neg last]
        have room' : (acc ++ [b]).length < maxPacketSize := by omega
        by_cases newline : b = 10
        · subst newline
          rw [if_pos rfl]
          cases found : firstWord stopWords (acc ++ [10]) with
          | some word => exact Says.found plain' room' found
          | none =>
            apply Says.cons (ih room' plain')
            rintro ⟨-, occurs⟩
            rw [← firstWord_isSome, found] at occurs
            cases occurs
        · rw [if_neg newline]
          apply Says.cons (ih room' plain')
          rintro ⟨ends, -⟩
          rw [List.getLast?_concat] at ends
          exact newline (Option.some.inj ends)

/-- A prefix with an answer is not empty. -/
theorem Answers.pos {P : List Byte} (h : Answers stopWords P) : 0 < P.length := by
  cases P with
  | nil => cases h.1
  | cons b rest => exact Nat.succ_pos _

theorem wanted_found {word : Nat} (h : Says stopWords [] stream (.found word)) :
    wanted stopWords stream = word ∧ Fits stopWords stream := by
  obtain ⟨P, within, answers, plain, short, first, least⟩ := h
  refine ⟨?_, .inl ⟨P, within, answers, plain, short⟩⟩
  have shortest : stream.inits.find? (Answers stopWords ·) = some P := by
    refine find?_inits.mpr ⟨within, decide_eq_true answers, fun Q inside there => ?_⟩
    have there := of_decide_eq_true there
    exact least Q inside there.pos there
  rw [wanted, shortest]
  show (if 0 ∉ P ∧ P.length < maxPacketSize then _ else _) = _
  rw [if_pos ⟨plain, short⟩, first]
  rfl

theorem wanted_timeout (h : Says stopWords [] stream .timeout) :
    wanted stopWords stream = -1 ∧ Fits stopWords stream := by
  refine ⟨?_, .inr h.2⟩
  rw [wanted]
  split
  · rename_i P shortest
    obtain ⟨within, answers, -⟩ := find?_inits.mp shortest
    have answers := of_decide_eq_true answers
    rw [if_neg fun ⟨plain, _⟩ => plain (h.1 P within answers.pos answers)]
  · rfl

theorem not_fits_full (h : Says stopWords [] stream .full) : ¬ Fits stopWords stream := by
  obtain ⟨long, plain, unanswered⟩ := h
  rintro (⟨P, within, answers, -, short⟩ | short | zero)
  · exact unanswered P within answers.pos short answers
  · exact absurd long (Nat.not_le.mpr short)
  · exact plain zero

end Stream

/-! ## A call -/

/-- The port at a call of `get_response`, with whatever the response held before. -/
def Port.listening (stream : List Byte) (res : Response) : Port := ⟨stream, res, [], []⟩

theorem Port.holds_reset (stream : List Byte) (res : Response) :
    Holds [] (resetResponse (.listening stream res)) := by
  refine ⟨rfl, Nat.zero_le _, ?_, fun i stored => ?_, fun d looked => nomatch looked⟩
  · show List.replicate maxPacketSize 0 = _
    rw [List.nil_append, List.length_nil, Nat.sub_zero]
  · change i ∈ [] ++ List.range maxPacketSize at stored
    rw [List.nil_append, List.mem_range] at stored
    exact stored

/-- A call does what `Reply` says. -/
theorem getResponse_reply {stopWords : List CString} (few : stopWords.length ≤ 127)
    (stream : List Byte) (res : Response) :
    Ends stopWords (resetResponse (.listening stream res)) (reply stopWords [] stream) :=
  responseLoop_reply few stream (Port.holds_reset stream res) (by decide) (by simp) rfl rfl

/-- More fuel does not change what a call returns. -/
theorem responseLoop_fuel {stopWords : List CString} {fuel : Nat} {p q : Port}
    (ran : responseLoop stopWords fuel p = some q) (more : Nat) :
    responseLoop stopWords (fuel + more) p = some q := by
  induction fuel generalizing p with
  | zero => cases ran
  | succ fuel ih =>
    rw [Nat.succ_add, responseLoop]
    rw [responseLoop] at ran
    split
    · rename_i waiting
      rw [if_pos waiting] at ran
      split
      · rename_i p' read
        rw [read] at ran
        exact ran
      · rename_i p' read
        rw [read] at ran
        exact ih ran
    · rename_i settled
      rwa [if_neg settled] at ran

/-- A call that reports a word has found it in a prefix of the stream. -/
theorem getResponse_found {stopWords : List CString} (few : stopWords.length ≤ 127)
    {stream : List Byte} {res : Response} {fuel : Nat} {q : Port}
    (ran : getResponse stopWords fuel (.listening stream res) = some q)
    (reports : q.res.retCode ≠ -1) (short : stream.length < maxPacketSize) :
    ∃ P word, P <+: stream ∧ firstWord stopWords P = some word ∧ q.res.retCode = Int.ofNat word := by
  have ends := getResponse_reply few stream res
  have meaning : Says stopWords [] stream (reply stopWords [] stream) :=
    reply_says stream (by decide) (by simp)
  have same : ∀ n r, responseLoop stopWords (n + fuel) (resetResponse (.listening stream res)) = some r →
      r = q := by
    intro n r long
    rw [Nat.add_comm, responseLoop_fuel ran n] at long
    exact (Option.some.inj long).symm
  cases kind : reply stopWords [] stream with
  | timeout =>
    rw [kind] at ends
    obtain ⟨r, long, -, code⟩ := ends (stream.length + 2 + fuel) (Nat.le_add_right _ _)
    exact (reports (same _ r long ▸ code)).elim
  | found word =>
    rw [kind] at ends meaning
    obtain ⟨P, within, -, -, -, first, -⟩ := meaning
    obtain ⟨r, long, -, code⟩ := ends (stream.length + 2 + fuel) (Nat.le_add_right _ _)
    exact ⟨P, word, within, first, same _ r long ▸ code⟩
  | full =>
    rw [kind] at meaning
    exact absurd meaning.1 (Nat.not_le.mpr short)

/-- The call returns, stores only to the buffer, searches only terminated
replies, and its code is the one the caller is to get. -/
def Delivers (stopWords : List CString) (stream : List Byte) (res : Response) : Prop :=
  ∃ fuel q, getResponse stopWords fuel (.listening stream res) = some q ∧ Clean q ∧
    q.res.retCode = wanted stopWords stream

/-- **`get_response` does what its callers rely on exactly when the reply ends
before the buffer is full.** -/
theorem getResponse_delivers_iff {stopWords : List CString} (few : stopWords.length ≤ 127)
    (stream : List Byte) (res : Response) :
    Delivers stopWords stream res ↔ Fits stopWords stream := by
  have ends := getResponse_reply few stream res
  have meaning : Says stopWords [] stream (reply stopWords [] stream) :=
    reply_says stream (by decide) (by simp)
  cases kind : reply stopWords [] stream with
  | timeout =>
    rw [kind] at ends meaning
    obtain ⟨code, fits⟩ := wanted_timeout meaning
    obtain ⟨q, ran, clean, ret⟩ := ends _ (Nat.le_refl _)
    exact ⟨fun _ => fits, fun _ => ⟨_, q, ran, clean, ret.trans code.symm⟩⟩
  | found word =>
    rw [kind] at ends meaning
    obtain ⟨code, fits⟩ := wanted_found meaning
    obtain ⟨q, ran, clean, ret⟩ := ends _ (Nat.le_refl _)
    exact ⟨fun _ => fits, fun _ => ⟨_, q, ran, clean, ret.trans code.symm⟩⟩
  | full =>
    rw [kind] at ends meaning
    refine ⟨fun ⟨fuel, q, ran, clean, _⟩ => ?_, fun fits => (not_fits_full meaning fits).elim⟩
    exact absurd (clean.writes _ (ends fuel q ran)) (Nat.lt_irrefl _)

/-- `OK` and `ERROR`, the stop words of most commands. -/
def okError : List CString := [[79, 75], [69, 82, 82, 79, 82]]

theorem getResponse_delivers_error :
    okError.length ≤ 127 ∧
      Delivers okError [13, 10, 69, 82, 82, 79, 82, 13, 10] .cleared ∧
      wanted okError [13, 10, 69, 82, 82, 79, 82, 13, 10] = 1 := by
  refine ⟨by decide, ?_, by decide⟩
  exact (getResponse_delivers_iff (by decide) _ _).mpr (.inr (.inl (by decide)))

/-- A line that does not end fills the buffer. -/
theorem reply_endless {stopWords : List CString} (stream : List Byte) :
    ∀ {acc : List Byte}, acc.length < maxPacketSize → (∀ b ∈ stream, b ≠ 0 ∧ b ≠ 10) →
      maxPacketSize ≤ acc.length + stream.length → reply stopWords acc stream = .full := by
  induction stream with
  | nil =>
    intro acc room _ long
    exact absurd long (Nat.not_le.mpr room)
  | cons b rest ih =>
    intro acc room inside long
    obtain ⟨nonzero, within⟩ := inside b List.mem_cons_self
    rw [reply, if_neg nonzero, if_neg within]
    split
    · rfl
    · have length : (acc ++ [b]).length = acc.length + 1 := by simp
      rw [List.length_cons] at long
      exact ih (by omega) (fun c later => inside c (List.mem_cons_of_mem _ later)) (by omega)

/-- The zero behind a reply that fills the buffer goes behind its end. -/
theorem not_delivers_endless {stopWords : List CString} (few : stopWords.length ≤ 127)
    {stream : List Byte} (endless : ∀ b ∈ stream, b ≠ 0 ∧ b ≠ 10)
    (long : maxPacketSize ≤ stream.length) (res : Response) : ¬ Delivers stopWords stream res := by
  rintro ⟨fuel, q, ran, clean, _⟩
  have ends := getResponse_reply few stream res
  rw [reply_endless stream (by decide) endless (by simpa using long)] at ends
  exact absurd (clean.writes _ (ends fuel q ran)) (Nat.lt_irrefl _)

theorem not_getResponse_delivers : ¬ Delivers okError (List.replicate 500 65) .cleared := by
  refine not_delivers_endless (by decide) (fun b inside => ?_) (Nat.le_of_eq ?_) _
  · rw [List.eq_of_mem_replicate inside]
    decide
  · rw [List.length_replicate, maxPacketSize]

end Zouipocar
