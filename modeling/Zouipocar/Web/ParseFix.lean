import Zouipocar.Lib.Ieee
import Zouipocar.Server.Requests
import Zouipocar.Server.Udp

/-!
# Fixes on the web page

The page gets fixes as the raw memory of the server's vector and takes them
apart with a `DataView`, at offsets and with a record size of its own. A number
of JavaScript is a double; it has one NaN, so the payload of a float NaN is the
only thing that does not arrive.
-/

namespace Zouipocar
set_option autoImplicit false
open Lib

/-- A number of JavaScript that is no integer, as a double. -/
abbrev Number := BitVec 64

/-- `NaN` -/
def Number.nan : Number := 0x7FF8000000000000

abbrev ArrayBuffer := List Byte

namespace Web

/-- `DataView.getUint32(offset, true)`; it throws beyond the end. -/
def getUint32 (view : ArrayBuffer) (offset : Nat) : Option (BitVec 32) :=
  if offset + 4 ≤ view.length then some (wordAt view offset) else none

/-- `DataView.getFloat32(offset, true)`. -/
def getFloat32 (view : ArrayBuffer) (offset : Nat) : Option Number :=
  if offset + 4 ≤ view.length then some (floatToDouble (wordAt view offset)) else none

/-- `DataView.getUint8(offset)`. -/
def getUint8 (view : ArrayBuffer) (offset : Nat) : Option (BitVec 8) :=
  if offset + 1 ≤ view.length then some (view.getD offset 0) else none

/-- `utils.parseFix`. -/
def parseFix (buffer : ArrayBuffer) : Option (FixOf Number) := do
  let timestamp ← getUint32 buffer 0
  let latitude ← getFloat32 buffer 4
  let longitude ← getFloat32 buffer 8
  let speed ← getUint8 buffer 12
  return { timestamp, latitude, longitude, speed }

/-- `ArrayBuffer.slice`. -/
def slice (buffer : ArrayBuffer) (start stop : Nat) : ArrayBuffer := (buffer.take stop).drop start

/-- `fixSize`. -/
def fixSize : Nat := 13

/-- The loop of `update` from an index on. -/
def fixesFrom (buffer : ArrayBuffer) (i : Nat) : Option (List (FixOf Number)) :=
  if i < buffer.length then do
    let fix ← parseFix (slice buffer i (i + fixSize))
    let rest ← fixesFrom buffer (i + fixSize)
    return fix :: rest
  else some []
termination_by buffer.length - i
decreasing_by
  rw [fixSize]
  omega

/-- The fixes `update` collects from the answer of `/api/range`. -/
def update (buffer : ArrayBuffer) : Option (List (FixOf Number)) := fixesFrom buffer 0

end Web

/-- The fix with the numbers its coordinates denote. -/
def Fix.parsed (fix : Fix) : FixOf Number where
  timestamp := fix.timestamp
  latitude := floatToDouble fix.latitude
  longitude := floatToDouble fix.longitude
  speed := fix.speed

/-- The fix with the floats nearest to its coordinates. -/
def Web.recover (fix : FixOf Number) : Fix where
  timestamp := fix.timestamp
  latitude := doubleToFloat fix.latitude
  longitude := doubleToFloat fix.longitude
  speed := fix.speed

namespace Web

/-- The offsets of the page are those of the struct. -/
theorem parseFix_eq (buffer : ArrayBuffer) :
    parseFix buffer = if Fix.size ≤ buffer.length then some (Fix.ofBytes buffer).parsed else none := by
  unfold parseFix getUint32 getFloat32 getUint8
  by_cases whole : Fix.size ≤ buffer.length
  · rw [if_pos whole]
    rw [Fix.size] at whole
    rw [if_pos (by omega), if_pos (by omega), if_pos (by omega), if_pos (by omega)]
    rfl
  · rw [if_neg whole]
    rw [Fix.size] at whole
    have short : ¬ 12 + 1 ≤ buffer.length := by omega
    simp [short]

@[simp] theorem parseFix_bytes (fix : Fix) : parseFix fix.bytes = some fix.parsed := by
  rw [parseFix_eq, if_pos (Nat.le_of_eq fix.bytes_length.symm), Fix.ofBytes_bytes]

/-- A record is cut out from behind the ones before it. -/
theorem slice_append (before after : ArrayBuffer) (fix : Fix) :
    slice (before ++ (fix.bytes ++ after)) before.length (before.length + fixSize) = fix.bytes := by
  have size : fixSize = fix.bytes.length := rfl
  rw [slice, List.take_length_add_append, List.drop_left, size, List.take_left]

/-- One fix for each image behind the index, in order. -/
theorem fixesFrom_images (before : ArrayBuffer) (fixes : List Fix) :
    fixesFrom (before ++ apiRangeContent fixes) before.length = some (fixes.map Fix.parsed) := by
  induction fixes generalizing before with
  | nil =>
    rw [fixesFrom, if_neg (by simp [apiRangeContent])]
    rfl
  | cons fix rest ih =>
    have next := ih (before ++ fix.bytes)
    rw [List.append_assoc, List.length_append, fix.bytes_length] at next
    have content : apiRangeContent (fix :: rest) = fix.bytes ++ apiRangeContent rest := rfl
    have inside : before.length < (before ++ (fix.bytes ++ apiRangeContent rest)).length := by
      rw [List.length_append, List.length_append, fix.bytes_length, Fix.size]
      omega
    rw [content, fixesFrom, if_pos inside, slice_append, parseFix_bytes, fixSize]
    rw [Fix.size] at next
    rw [next]
    rfl

theorem update_images (fixes : List Fix) :
    update (apiRangeContent fixes) = some (fixes.map Fix.parsed) :=
  fixesFrom_images [] fixes

/-- **The page decodes the server's answer to the same list, up to the payload
of a NaN, and both sides decode the tracker's image to the same fix.** -/
theorem wire_roundTrip (fixes : List Fix) :
    update (apiRangeContent fixes) = some (fixes.map Fix.parsed) ∧
    (∀ fix : Fix, parseFix fix.bytes = some fix.parsed ∧
      ∀ buffer, Udp.listen buffer [⟨some fix.bytes, true⟩] = [fix]) ∧
    (∀ fix : Fix, (recover fix.parsed).timestamp = fix.timestamp ∧ (recover fix.parsed).speed = fix.speed ∧
      (floatIsNaN fix.latitude = false → (recover fix.parsed).latitude = fix.latitude) ∧
      (floatIsNaN fix.longitude = false → (recover fix.parsed).longitude = fix.longitude)) ∧
    ∀ fix : Fix, (floatIsNaN fix.latitude = true → fix.parsed.latitude = .nan) ∧
      (floatIsNaN fix.longitude = true → fix.parsed.longitude = .nan) := by
  refine ⟨update_images fixes, fun fix => ⟨parseFix_bytes fix, fun buffer => ?_⟩,
    fun fix => ⟨rfl, rfl, doubleToFloat_of_not_nan, doubleToFloat_of_not_nan⟩,
    fun fix => ⟨floatToDouble_of_nan, floatToDouble_of_nan⟩⟩
  · have whole : Udp.passed fix.bytes = some fix := by
      rw [Udp.passed, if_pos (Nat.le_of_eq fix.bytes_length.symm),
        List.take_of_length_le (Nat.le_of_eq fix.bytes_length), Fix.ofBytes_bytes]
    rw [Udp.listen_eq]
    simp [Udp.received, whole]

/-- Two float NaNs arrive as the one NaN there is. -/
theorem not_wire_injective :
    ¬ ∃ back : List (FixOf Number) → List Fix, ∀ fixes,
      (update (apiRangeContent fixes)).map back = some fixes := by
  rintro ⟨back, inverse⟩
  have first := inverse [⟨0, 0x7FC00000, 0, 0⟩]
  have second := inverse [⟨0, 0x7FC00001, 0, 0⟩]
  have same : [(⟨0, 0x7FC00000, 0, 0⟩ : Fix)].map Fix.parsed = [⟨0, 0x7FC00001, 0, 0⟩].map Fix.parsed := by
    decide
  rw [update_images, Option.map_some] at first second
  rw [same, second] at first
  revert first
  decide

end Web

end Zouipocar
