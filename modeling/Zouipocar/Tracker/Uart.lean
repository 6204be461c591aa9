import Zouipocar.Common.Fix
import Mathlib.Algebra.Ring.Nat

/-!
# Reading the serial line

The readers of `uart.c` over a finite stream: every byte arrives within the
timeout, then there is silence, and a read of nothing returns zero. They store
through two pointers into one `struct Response`, whose `data_length` lies right
behind `data` in memory; a store behind the end of `data` changes it.
-/

namespace Zouipocar
set_option autoImplicit false

/-- `MAX_PACKET_SIZE`. -/
def maxPacketSize : Nat := 500

/-- `struct Response`: an `int8_t`, the buffer and a `size_t` of two bytes. -/
structure Response where
  retCode : Int
  data : List Byte
  dataLength : Nat
  size : data.length = maxPacketSize

namespace Response

/-- `data[index] = b;` The bytes 500 and 501 are those of `data_length`, low byte
first; what lies further is no part of the struct. -/
def store (r : Response) (index : Nat) (b : Byte) : Response :=
  if index < maxPacketSize then
    { r with data := r.data.set index b, size := by rw [List.length_set, r.size] }
  else if index = maxPacketSize then
    { r with dataLength := r.dataLength / 256 * 256 + b.toNat }
  else if index = maxPacketSize + 1 then
    { r with dataLength := b.toNat * 256 + r.dataLength % 256 }
  else r

theorem store_inside {r : Response} {index : Nat} (inside : index < maxPacketSize) (b : Byte) :
    (r.store index b).data = r.data.set index b ∧ (r.store index b).dataLength = r.dataLength := by
  rw [store, if_pos inside]
  exact ⟨rfl, rfl⟩

@[simp] theorem store_retCode (r : Response) (index : Nat) (b : Byte) :
    (r.store index b).retCode = r.retCode := by
  unfold store
  split
  · rfl
  · split
    · rfl
    · split <;> rfl

/-- `++data_length` on 16 bits. -/
def advance (r : Response) : Response := { r with dataLength := (r.dataLength + 1) % 2 ^ 16 }

end Response

/-- The line, the response and what has been done to it so far. -/
structure Port where
  rx : List Byte
  res : Response
  /-- Every index of `data` stored to. -/
  writes : List Nat
  /-- What `data` was each time it was searched. -/
  looks : List (List Byte)

namespace Port

def store (p : Port) (index : Nat) (b : Byte) : Port :=
  { p with res := p.res.store index b, writes := p.writes ++ [index] }

def advance (p : Port) : Port := { p with res := p.res.advance }

end Port

inductive UartCode
  | ok | timeout
deriving DecidableEq, Repr

/-- The next byte, or zero on timeout. -/
def uartReadByte (p : Port) : Byte × Port :=
  match p.rx with
  | [] => (0, p)
  | b :: rest => (b, { p with rx := rest })

theorem uartReadByte_lt {p : Port} (read : (uartReadByte p).1 ≠ 0) :
    (uartReadByte p).2.rx.length < p.rx.length := by
  unfold uartReadByte at read ⊢
  split
  · rename_i silent
    simp [silent] at read
  · rename_i b rest here
    rw [here]
    exact Nat.lt_succ_self _

/-- `output` and `output_size` point to `data` and `data_length`. -/
def uartReadArray (packetDelimiter : Byte) (packetMaxSize : Nat) (p : Port) : UartCode × Port :=
  if p.res.dataLength < packetMaxSize then
    let q := (uartReadByte p).2
    if _silent : (uartReadByte p).1 = 0 then (.timeout, q)
    else
      let q := (q.store q.res.dataLength (uartReadByte p).1).advance
      if q.res.data.getD (q.res.dataLength - 1) 0 = packetDelimiter then (.ok, q)
      else uartReadArray packetDelimiter packetMaxSize q
  else (.ok, p)
termination_by p.rx.length
decreasing_by exact uartReadByte_lt _silent

def uartReadString (stringDelimiter : Byte) (stringMaxSize : Nat) (p : Port) : UartCode × Port :=
  match uartReadArray stringDelimiter stringMaxSize p with
  | (.timeout, p) => (.timeout, p)
  | (.ok, p) => (.ok, p.store p.res.dataLength 0)

/-! ## What a reader stores -/

namespace Port

/-- The port after one more byte went into the buffer. -/
def push (p : Port) (b : Byte) (rest : List Byte) : Port :=
  (({ p with rx := rest } : Port).store p.res.dataLength b).advance

/-- The byte just stored is the one compared with the delimiter. -/
theorem push_last {p : Port} (b : Byte) (rest : List Byte) (room : p.res.dataLength < maxPacketSize) :
    (p.push b rest).res.dataLength = p.res.dataLength + 1 ∧
      (p.push b rest).res.data.getD ((p.push b rest).res.dataLength - 1) 0 = b := by
  obtain ⟨data, length⟩ := Response.store_inside room b
  have next : (p.push b rest).res.dataLength = p.res.dataLength + 1 := by
    show ((p.res.store p.res.dataLength b).dataLength + 1) % 2 ^ 16 = _
    rw [length]
    rw [maxPacketSize] at room
    omega
  refine ⟨next, ?_⟩
  rw [next]
  show (p.res.store p.res.dataLength b).data.getD p.res.dataLength 0 = b
  rw [data, List.getD_eq_getElem?_getD, List.getElem?_set_self (by rw [p.res.size]; exact room)]
  rfl

@[simp] theorem push_retCode (p : Port) (b : Byte) (rest : List Byte) :
    (p.push b rest).res.retCode = p.res.retCode := Response.store_retCode _ _ _

/-- The buffer holds the bytes read so far and zeros, and nothing was stored
behind its end. -/
structure Holds (acc : List Byte) (p : Port) : Prop where
  length : p.res.dataLength = acc.length
  fits : acc.length ≤ maxPacketSize
  data : p.res.data = acc ++ List.replicate (maxPacketSize - acc.length) 0
  writes : ∀ i ∈ p.writes, i < maxPacketSize
  looks : ∀ d ∈ p.looks, 0 ∈ d

variable {p : Port} {acc rest : List Byte} {b : Byte}

/-- A store at the fill level of the buffer. -/
theorem set_fill (acc : List Byte) (b : Byte) (room : acc.length < maxPacketSize) :
    (acc ++ List.replicate (maxPacketSize - acc.length) 0).set acc.length b =
      acc ++ b :: List.replicate (maxPacketSize - (acc.length + 1)) 0 := by
  obtain ⟨k, left⟩ : ∃ k, maxPacketSize - acc.length = k + 1 := ⟨_, (Nat.sub_add_cancel (by omega)).symm⟩
  have less : maxPacketSize - (acc.length + 1) = k := by omega
  rw [left, less, List.set_append_right _ _ (Nat.le_refl _), Nat.sub_self, List.replicate_succ]
  rfl

theorem Holds.inside (h : Holds acc p) (room : acc.length < maxPacketSize) :
    p.res.dataLength < maxPacketSize := by rw [h.length]; exact room

variable (rest b) in
theorem Holds.push_data (h : Holds acc p) (room : acc.length < maxPacketSize) :
    (p.push b rest).res.data = acc ++ b :: List.replicate (maxPacketSize - (acc.length + 1)) 0 := by
  show (p.res.store p.res.dataLength b).data = _
  rw [(Response.store_inside (h.inside room) b).1, h.data, h.length, set_fill acc b room]

variable (rest b) in
theorem Holds.push_length (h : Holds acc p) (room : acc.length < maxPacketSize) :
    (p.push b rest).res.dataLength = acc.length + 1 := by
  rw [(push_last b rest (h.inside room)).1, h.length]

variable (rest b) in
/-- A byte that still fits. -/
theorem Holds.push (h : Holds acc p) (room : acc.length < maxPacketSize) :
    Holds (acc ++ [b]) (p.push b rest) := by
  refine ⟨?_, ?_, ?_, fun i stored => ?_, h.looks⟩
  · rw [h.push_length rest b room, List.length_append, List.length_singleton]
  · rw [List.length_append, List.length_singleton]
    exact room
  · rw [h.push_data rest b room, List.append_assoc, List.length_append, List.length_singleton]
    rfl
  · rcases List.mem_append.mp stored with before | now
    · exact h.writes i before
    · rw [List.mem_singleton.mp now, h.length]
      exact room

/-- The terminator behind a line that leaves room for it. -/
theorem Holds.terminate (h : Holds acc p) (room : acc.length < maxPacketSize) :
    Holds acc (p.store p.res.dataLength 0) := by
  obtain ⟨data, length⟩ := Response.store_inside (h.inside room) (r := p.res) 0
  refine ⟨length.trans h.length, h.fits, ?_, fun i stored => ?_, h.looks⟩
  · apply data.trans
    rw [h.data, h.length, set_fill acc 0 room, ← List.replicate_succ]
    congr 2
    omega
  · rcases List.mem_append.mp stored with before | now
    · exact h.writes i before
    · rw [List.mem_singleton.mp now]
      exact h.inside room

end Port

/-! ## The readers byte by byte -/

section Readers

open Port

variable {p : Port} {acc rest : List Byte} {b delimiter : Byte}

theorem uartReadByte_eq (p : Port) : uartReadByte p = (p.rx.headD 0, { p with rx := p.rx.tail }) := by
  obtain ⟨rx, res, writes, looks⟩ := p
  cases rx <;> rfl

theorem uartReadArray_nil (silent : p.rx = []) (maxSize : Nat) :
    uartReadArray delimiter maxSize p = (if p.res.dataLength < maxSize then .timeout else .ok, p) := by
  rw [uartReadArray]
  simp only [uartReadByte, silent]
  split <;> rfl

theorem uartReadArray_cons (next : p.rx = b :: rest) (maxSize : Nat) :
    uartReadArray delimiter maxSize p =
      if p.res.dataLength < maxSize then
        if b = 0 then (.timeout, { p with rx := rest })
        else if (p.push b rest).res.data.getD ((p.push b rest).res.dataLength - 1) 0 = delimiter then
          (.ok, p.push b rest)
        else uartReadArray delimiter maxSize (p.push b rest)
      else (.ok, p) := by
  rw [uartReadArray]
  simp only [uartReadByte, next]
  rfl

/-- On silence and on a zero byte the reader gives up. -/
theorem uartReadArray_timeout (h : Holds acc p) (room : acc.length < maxPacketSize)
    (silent : (uartReadByte p).1 = 0) :
    uartReadArray 10 maxPacketSize p = (.timeout, (uartReadByte p).2) := by
  rw [uartReadArray, if_pos (h.inside room)]
  exact dif_pos silent

/-- Any other byte goes into the buffer, and a newline ends the line. -/
theorem uartReadArray_push (h : Holds acc p) (room : acc.length < maxPacketSize)
    (next : p.rx = b :: rest) (nonzero : b ≠ 0) :
    uartReadArray 10 maxPacketSize p =
      if b = 10 then (.ok, p.push b rest) else uartReadArray 10 maxPacketSize (p.push b rest) := by
  rw [uartReadArray_cons next, if_pos (h.inside room), if_neg nonzero, (push_last b rest (h.inside room)).2]

/-- A full buffer takes no byte. -/
theorem uartReadArray_full (h : Holds acc p) (full : acc.length = maxPacketSize) :
    uartReadArray 10 maxPacketSize p = (.ok, p) := by
  rw [uartReadArray, if_neg (by rw [h.length]; omega)]

theorem uartReadByte_writes (p : Port) : (uartReadByte p).2.writes = p.writes := by
  rw [uartReadByte_eq]

/-- What has been stored to stays on record. -/
theorem mem_writes_uartReadArray (delimiter : Byte) (maxSize : Nat) {i : Nat} (stored : i ∈ p.writes) :
    i ∈ (uartReadArray delimiter maxSize p).2.writes := by
  fun_induction uartReadArray delimiter maxSize p with
  | case1 p room q silent =>
    rw [uartReadByte_writes]
    exact stored
  | case2 p room q loud q' ends =>
    rw [← uartReadByte_writes] at stored
    exact List.mem_append_left _ stored
  | case3 p room q loud q' more ih =>
    rw [← uartReadByte_writes] at stored
    exact ih (List.mem_append_left _ stored)
  | case4 p full => exact stored

theorem mem_writes_uartReadString (delimiter : Byte) (maxSize : Nat) {i : Nat} (stored : i ∈ p.writes) :
    i ∈ (uartReadString delimiter maxSize p).2.writes := by
  have inside := mem_writes_uartReadArray delimiter maxSize stored
  rw [uartReadString]
  split
  · rename_i q ran
    rw [ran] at inside
    exact inside
  · rename_i q ran
    rw [ran] at inside
    exact List.mem_append_left _ inside

end Readers

end Zouipocar
