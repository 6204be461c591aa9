import Zouipocar.Tracker.Transmit

/-!
# What a reply leaves in the response

A call of `get_response` makes nothing of the response it finds (`Port.Core`),
and a reply that fits in the buffer leaves its own text there, up to the line
with the stop word or to the silence that ended it (`heard`). So does the reply
to a command.
-/

namespace Zouipocar
set_option autoImplicit false
open Lib

/-! ## A reply does not depend on what was there before -/

/-- Ports that differ at most in the record of what was done to them. -/
structure Port.Core (p q : Port) : Prop where
  rx : p.rx = q.rx
  res : p.res = q.res

namespace Port.Core

variable {p q : Port}

theorem push (h : Core p q) (b : Byte) (rest : List Byte) : Core (p.push b rest) (q.push b rest) := by
  refine ⟨rfl, ?_⟩
  show (p.res.store p.res.dataLength b).advance = (q.res.store q.res.dataLength b).advance
  rw [h.res]

theorem store (h : Core p q) (b : Byte) :
    Core (p.store p.res.dataLength b) (q.store q.res.dataLength b) := by
  refine ⟨h.rx, ?_⟩
  show p.res.store p.res.dataLength b = q.res.store q.res.dataLength b
  rw [h.res]

theorem search (h : Core p q) (stopWords : List CString) : Core (p.search stopWords) (q.search stopWords) :=
  ⟨h.rx, congrArg (fun r : Response => { r with retCode := int8 (searchStopWords r.text stopWords) }) h.res⟩

theorem uartReadArray (h : Core p q) (delimiter : Byte) (maxSize : Nat) :
    (uartReadArray delimiter maxSize p).1 = (uartReadArray delimiter maxSize q).1 ∧
      Core (uartReadArray delimiter maxSize p).2 (uartReadArray delimiter maxSize q).2 := by
  generalize stream : p.rx = rx
  induction rx generalizing p q with
  | nil =>
    rw [uartReadArray_nil (p := p) stream, uartReadArray_nil (p := q) (h.rx.symm.trans stream), h.res]
    exact ⟨rfl, h⟩
  | cons b rest ih =>
    have pushed := h.push b rest
    rw [uartReadArray_cons (p := p) stream, uartReadArray_cons (p := q) (h.rx.symm.trans stream), h.res,
      pushed.res]
    split
    · split
      · exact ⟨rfl, rfl, rfl⟩
      · split
        · exact ⟨rfl, pushed⟩
        · exact ih pushed rfl
    · exact ⟨rfl, h⟩

theorem uartReadString (h : Core p q) (delimiter : Byte) (maxSize : Nat) :
    (uartReadString delimiter maxSize p).1 = (uartReadString delimiter maxSize q).1 ∧
      Core (uartReadString delimiter maxSize p).2 (uartReadString delimiter maxSize q).2 := by
  obtain ⟨code, core⟩ := h.uartReadArray delimiter maxSize
  unfold Zouipocar.uartReadString
  generalize Zouipocar.uartReadArray delimiter maxSize p = left at code core ⊢
  generalize Zouipocar.uartReadArray delimiter maxSize q = right at code core ⊢
  obtain ⟨code', p'⟩ := left
  obtain ⟨_, q'⟩ := right
  obtain rfl : code' = _ := code
  cases code' with
  | timeout => exact ⟨rfl, core⟩
  | ok => exact ⟨rfl, core.store 0⟩

/-- Both calls return with the same response, or neither has. -/
theorem responseLoop (h : Core p q) (stopWords : List CString) (fuel : Nat) :
    Option.Rel Core (responseLoop stopWords fuel p) (responseLoop stopWords fuel q) := by
  induction fuel generalizing p q with
  | zero => exact .none
  | succ fuel ih =>
    obtain ⟨code, core⟩ := h.uartReadString 10 maxPacketSize
    unfold Zouipocar.responseLoop
    rw [h.res]
    generalize Zouipocar.uartReadString 10 maxPacketSize p = left at code core ⊢
    generalize Zouipocar.uartReadString 10 maxPacketSize q = right at code core ⊢
    obtain ⟨code', p'⟩ := left
    obtain ⟨_, q'⟩ := right
    obtain rfl : code' = _ := code
    split
    · cases code' with
      | timeout =>
        refine .some ⟨core.rx, ?_⟩
        show { p'.res with retCode := -1 } = { q'.res with retCode := -1 }
        rw [core.res]
      | ok => exact ih (core.search stopWords)
    · exact .some h

end Port.Core

/-- `get_response` makes nothing of the response it finds. -/
theorem getResponse_core {p q : Port} (same : p.rx = q.rx) (stopWords : List CString) (fuel : Nat) :
    Option.Rel Port.Core (getResponse stopWords fuel p) (getResponse stopWords fuel q) := by
  have cleared : (resetResponse p).Core (resetResponse q) := ⟨same, rfl⟩
  exact cleared.responseLoop stopWords fuel

/-! ## The text of a reply -/

/-- The code and the text of a reply of which some bytes have been read, as long
as it fits in the buffer. -/
def heard (stopWords : List CString) (acc : List Byte) : List Byte → Int × List Byte
  | [] => (-1, acc)
  | b :: rest =>
    if b = 0 then (-1, acc)
    else
      match if b = 10 then firstWord stopWords (acc ++ [b]) else none with
      | some word => (word, acc ++ [b])
      | none => heard stopWords (acc ++ [b]) rest

section Heard

open Port

variable {stopWords : List CString} {p q : Port} {acc rest stream : List Byte} {b : Byte}

/-- The loop from a state on returns with this code and text. -/
structure Gives (stopWords : List CString) (p : Port) (reply : Int × List Byte) (q : Port) : Prop where
  returns : ∀ fuel, p.rx.length + 2 ≤ fuel → responseLoop stopWords fuel p = some q
  code : q.res.retCode = reply.1
  holds : Holds reply.2 q
  room : reply.2.length < maxPacketSize
  plain : 0 ∉ reply.2

theorem Gives.of_turn {reply : Int × List Byte} {p' : Port} (next : p.rx = b :: p'.rx)
    (turn : ∀ fuel, responseLoop stopWords (fuel + 1) p = responseLoop stopWords (fuel + 1) p' ∨
      responseLoop stopWords (fuel + 1) p = responseLoop stopWords fuel p')
    (h : Gives stopWords p' reply q) : Gives stopWords p reply q := by
  refine ⟨?_, h.code, h.holds, h.room, h.plain⟩
  intro fuel enough
  rw [next, List.length_cons] at enough
  obtain ⟨fuel, rfl⟩ : ∃ n, fuel = n + 1 := ⟨fuel - 1, by omega⟩
  rcases turn fuel with same | same
  · rw [same]
    apply h.returns
    omega
  · rw [same]
    apply h.returns
    omega

theorem Gives.silent (h : Holds acc p) (room : acc.length < maxPacketSize) (plain : 0 ∉ acc)
    (waiting : p.res.retCode = -1) (silent : (uartReadByte p).1 = 0) : ∃ q, Gives stopWords p (-1, acc) q := by
  refine ⟨{ (uartReadByte p).2 with res := { (uartReadByte p).2.res with retCode := -1 } },
    ?_, rfl, ?_, room, plain⟩
  · intro fuel enough
    obtain ⟨fuel, rfl⟩ : ∃ n, fuel = n + 1 := ⟨fuel - 1, by omega⟩
    exact responseLoop_timeout h room waiting silent
  · rw [uartReadByte_eq]
    exact ⟨h.length, h.fits, h.data, h.writes, h.looks⟩

/-- **The loops gather the text that `heard` says.** -/
theorem responseLoop_heard (few : stopWords.length ≤ 127) (stream : List Byte) :
    ∀ {acc p}, Holds acc p → acc.length + stream.length < maxPacketSize → 0 ∉ acc →
      p.res.retCode = -1 → p.rx = stream → ∃ q, Gives stopWords p (heard stopWords acc stream) q := by
  induction stream with
  | nil =>
    intro acc p h room plain waiting silent
    apply Gives.silent h (by simpa using room) plain waiting
    rw [uartReadByte, silent]
  | cons b rest ih =>
    intro acc p h fits plain waiting next
    rw [List.length_cons] at fits
    have room : acc.length < maxPacketSize := by omega
    have room' : (acc ++ [b]).length < maxPacketSize := by
      rw [List.length_append, List.length_singleton]
      omega
    have fits' : (acc ++ [b]).length + rest.length < maxPacketSize := by
      rw [List.length_append, List.length_singleton]
      omega
    rw [heard]
    by_cases zero : b = 0
    · rw [if_pos zero]
      apply Gives.silent h room plain waiting
      rw [uartReadByte, next, zero]
    · rw [if_neg zero]
      have plain' := plain_snoc plain zero
      have pushed := h.push rest b room
      by_cases newline : b = 10
      · subst newline
        rw [if_pos rfl]
        have terminated := pushed.terminate room'
        have code := terminated.search_code room' plain' few
        have ready := terminated.search stopWords room'
        cases found : firstWord stopWords (acc ++ [10]) with
        | none =>
          rw [found] at code
          obtain ⟨q, gives⟩ := ih ready fits' plain' code rfl
          exact ⟨q, gives.of_turn next fun fuel => .inr (responseLoop_line stopWords fuel h room waiting next)⟩
        | some word =>
          rw [found] at code
          refine ⟨_, ?_, code, ready, room', plain'⟩
          intro fuel enough
          rw [next, List.length_cons] at enough
          obtain ⟨fuel, rfl⟩ : ∃ n, fuel = n + 2 := ⟨fuel - 2, by omega⟩
          rw [responseLoop_line stopWords (fuel + 1) h room waiting next, responseLoop, if_neg]
          rw [code]
          simp
      · rw [if_neg newline]
        obtain ⟨q, gives⟩ := ih pushed fits' plain' ((push_retCode p b rest).trans waiting) rfl
        exact ⟨q, gives.of_turn next fun fuel =>
          .inl (responseLoop_push h room waiting next zero newline)⟩

end Heard

/-- **A call of `get_response` leaves the code and the text of its reply,
whatever was in the response before.** -/
theorem getResponse_heard {stopWords : List CString} (few : stopWords.length ≤ 127) (p : Port)
    (fits : p.rx.length < maxPacketSize) :
    ∃ res : Response, (∀ fuel, p.rx.length + 2 ≤ fuel →
        ∃ q, getResponse stopWords fuel p = some q ∧ q.res = res) ∧
      res.retCode = (heard stopWords [] p.rx).1 ∧ res.text = (heard stopWords [] p.rx).2 ∧
      res.dataLength = (heard stopWords [] p.rx).2.length := by
  have whole : ([] : List Byte).length + p.rx.length < maxPacketSize := (Nat.zero_add _).symm ▸ fits
  obtain ⟨r, gives⟩ := responseLoop_heard few p.rx (Port.holds_reset p.rx p.res) whole List.not_mem_nil
    rfl rfl
  refine ⟨r.res, ?_, gives.code, gives.holds.text gives.room gives.plain, gives.holds.length⟩
  intro fuel enough
  have stream : p.rx = (Port.listening p.rx p.res).rx := rfl
  have same := getResponse_core stream stopWords fuel
  have ran : getResponse stopWords fuel (.listening p.rx p.res) = some r := gives.returns fuel enough
  rw [ran] at same
  generalize getResponse stopWords fuel p = left at same
  cases same with
  | some core => exact ⟨_, rfl, core.res⟩

/-- **A command whose reply fits in the buffer returns and leaves the reply there,
whether or not its bytes could be sent.** -/
theorem result_cmdRawData_heard (uart : Nat → Wait) {stopWords : List CString} (few : stopWords.length ≤ 127)
    (data : List Byte) (dataSize : BitVec 8) (s : Serial) (fits : (s.later.headD []).length < maxPacketSize)
    (fuel : Nat) (written : dataSize.toNat < fuel) (enough : (s.later.headD []).length + 2 ≤ fuel) :
    ∃ t, Action.result (cmdRawData uart data dataSize stopWords fuel) s = (.ok (), t) ∧
      t.port.res.retCode = (heard stopWords [] (s.later.headD [])).1 ∧
      t.port.res.text = (heard stopWords [] (s.later.headD [])).2 ∧
      t.port.res.dataLength = (heard stopWords [] (s.later.headD [])).2.length := by
  have flush : Action.result uartFlush s = (.ok (), s.flushed) := rfl
  have small := dataSize.isLt
  have size := zeroExtend_toNat dataSize
  have whole : (0 : BitVec 8).toNat + dataSize.toNat = (dataSize.zeroExtend 16).toNat := by
    rw [size]
    exact Nat.zero_add _
  obtain ⟨code, w, wrote, port, -⟩ := writeLoop_ends uart data (size ▸ small) fuel dataSize.toNat 0 whole
    written s.flushed
  have stream : w.port.rx = s.later.headD [] := congrArg Port.rx port
  rw [← stream] at fits enough ⊢
  obtain ⟨res, returns, found⟩ := getResponse_heard few w.port fits
  obtain ⟨port, ran, rfl⟩ := returns fuel enough
  refine ⟨{ w with port }, ?_, found⟩
  rw [cmdRawData, Action.result_bind_ok flush, uartWriteArray, Action.result_bind_ok wrote, waitResponse,
    Action.result_bind_ok (Action.result_get w), ran]
  rfl

end Zouipocar
