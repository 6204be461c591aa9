import Zouipocar.Common.Fix
import Mathlib.Data.List.Basic

/-!
# The UDP listener

One thread calls `recvfrom` in a loop, always into the same buffer of
`sizeof(Fix)` bytes, and judges what came by the returned size alone. A
datagram that does not fit is cut to the size of the buffer, so it looks like a
valid one: the listener hands the callback every datagram of at least 13 bytes.
-/

namespace Zouipocar
set_option autoImplicit false

abbrev Datagram := List Byte

/-- `_listen_buffer`. -/
abbrev ListenBuffer := { memory : List Byte // memory.length = Fix.size }

/-- What `recvfrom` meets: a datagram or an error, and `_listen_thread_running`
by the time it returns. -/
structure Arrival where
  datagram : Option Datagram
  running : Bool

namespace Udp

/-- `recvfrom` without flags: the returned size and the buffer, filled from its
start as far as the datagram goes. -/
def recvfrom (buffer : ListenBuffer) : Option Datagram → Int × ListenBuffer
  | none => (-1, buffer)
  | some d => ((min Fix.size d.length : Nat),
      ⟨d.take Fix.size ++ buffer.val.drop (min Fix.size d.length), by
        simp only [List.length_append, List.length_take, List.length_drop, buffer.property]
        omega⟩)

/-- The loop of `listen`: the fixes passed to the callback, in order. -/
def listen (buffer : ListenBuffer) : List Arrival → List Fix
  | [] => []
  | a :: rest =>
    let (size, buffer) := recvfrom buffer a.datagram
    let called :=
      if size = -1 then []
      else if size ≠ Fix.size ∧ a.running = true then []
      else if a.running then [Fix.ofBytes buffer.val]
      else []
    called ++ if a.running then listen buffer rest else []

/-- The datagrams received while the listener is running. -/
def received (arrivals : List Arrival) : List Datagram :=
  (arrivals.takeWhile (·.running)).filterMap (·.datagram)

/-- The fix a datagram carries: it has to be the memory of one. -/
def fixOf (d : Datagram) : Option Fix := if d.length = Fix.size then some (Fix.ofBytes d) else none

/-- What a datagram turns into: its first 13 bytes, when it has them. -/
def passed (d : Datagram) : Option Fix :=
  if Fix.size ≤ d.length then some (Fix.ofBytes (d.take Fix.size)) else none

/-- Nothing of the buffer's earlier content is seen. -/
theorem recvfrom_full (buffer : ListenBuffer) {d : Datagram} (full : Fix.size ≤ d.length) :
    (recvfrom buffer (some d)).1 = Fix.size ∧
      (recvfrom buffer (some d)).2.val = d.take Fix.size := by
  simp [recvfrom, Nat.min_eq_left full, buffer.property]

theorem recvfrom_short (buffer : ListenBuffer) {d : Datagram} (short : d.length < Fix.size) :
    (recvfrom buffer (some d)).1 = d.length := by
  simp [recvfrom, Nat.min_eq_right (Nat.le_of_lt short)]

/-- One turn of the loop passes on what the datagram turns into. -/
theorem listen_cons (buffer : ListenBuffer) (datagram : Option Datagram) (rest : List Arrival) :
    listen buffer (⟨datagram, true⟩ :: rest) =
      (datagram.bind passed).toList ++ listen (recvfrom buffer datagram).2 rest := by
  cases datagram with
  | none => simp [listen, recvfrom]
  | some d =>
    by_cases full : Fix.size ≤ d.length
    · obtain ⟨size, memory⟩ := recvfrom_full buffer full
      simp only [listen, size, memory, Option.bind_some, passed, full]
      simp
    · have short := recvfrom_short buffer (Nat.lt_of_not_le full)
      have other : (d.length : Int) ≠ -1 ∧ (d.length : Int) ≠ Fix.size := by omega
      simp only [listen, short, Option.bind_some, passed, full]
      simp [other]

/-- **The callback gets the first 13 bytes of every datagram that has them.** -/
theorem listen_eq (buffer : ListenBuffer) (arrivals : List Arrival) :
    listen buffer arrivals = (received arrivals).filterMap passed := by
  induction arrivals generalizing buffer with
  | nil => rfl
  | cons a rest ih =>
    obtain ⟨datagram, running⟩ := a
    cases running with
    | false => cases datagram <;> simp [listen, received]
    | true =>
      rw [listen_cons, ih]
      cases datagram with
      | none => simp [received]
      | some d => cases kept : passed d <;> simp [received, kept]

theorem passed_eq_fixOf {d : Datagram} (fits : d.length ≤ Fix.size) : passed d = fixOf d := by
  by_cases full : d.length = Fix.size
  · rw [passed, fixOf, if_pos full, if_pos (Nat.le_of_eq full.symm), List.take_of_length_le fits]
  · rw [passed, fixOf, if_neg full, if_neg (by omega)]

/-- A datagram that is too long is passed on where none should be. -/
theorem length_fixOf_lt {ds : List Datagram} {d : Datagram} (inside : d ∈ ds)
    (long : Fix.size < d.length) : (ds.filterMap fixOf).length < (ds.filterMap passed).length := by
  have below : ∀ ds : List Datagram, (ds.filterMap fixOf).length ≤ (ds.filterMap passed).length := by
    intro ds
    rw [List.length_filterMap_eq_countP, List.length_filterMap_eq_countP]
    apply List.countP_mono_left
    intro d _ valid
    by_cases full : d.length = Fix.size <;> simp_all [passed, fixOf]
  obtain ⟨before, after, rfl⟩ := List.append_of_mem inside
  have first := below before
  have second := below after
  have dropped : fixOf d = none := if_neg (by omega)
  have kept : passed d = some _ := if_pos (Nat.le_of_lt long)
  simp only [List.filterMap_append, List.filterMap_cons, dropped, kept, List.length_append,
    List.length_cons]
  omega

/-- **The callback gets exactly the datagrams of 13 bytes, each decoded from its
own bytes, exactly when no datagram is longer.** -/
theorem listen_exact_iff (buffer : ListenBuffer) (arrivals : List Arrival) :
    listen buffer arrivals = (received arrivals).filterMap fixOf ↔
      ∀ d ∈ received arrivals, d.length ≤ Fix.size := by
  rw [listen_eq]
  constructor
  · intro same d inside
    apply Nat.le_of_not_lt
    intro long
    have less := length_fixOf_lt inside long
    rw [same] at less
    exact Nat.lt_irrefl _ less
  · intro fits
    exact List.filterMap_congr fun d inside => passed_eq_fixOf (fits d inside)

/-- A datagram of 14 bytes reaches the callback. -/
theorem not_listen_exact :
    ¬ ∀ buffer arrivals, listen buffer arrivals = (received arrivals).filterMap fixOf := by
  intro exact
  have called := exact ⟨List.replicate 13 0, rfl⟩ [⟨some (List.replicate 14 1), true⟩]
  revert called
  decide

/-- The memory of a fix, sent as one datagram, arrives as that fix. -/
example (buffer : ListenBuffer) (fix : Fix) : listen buffer [⟨some fix.bytes, true⟩] = [fix] := by
  simp [listen_eq, received, passed, List.take_of_length_le (Nat.le_of_eq fix.bytes_length)]

end Udp

end Zouipocar
