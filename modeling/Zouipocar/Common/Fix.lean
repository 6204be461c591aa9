import Mathlib.Data.Nat.Notation

/-!
# The Fix of `common/Fix.h`

One record is shared by the tracker, the server and the web page. On the
server and on the wire a coordinate is a 32-bit float pattern; the tracker's
parser computes coordinates in exact arithmetic, so the coordinate type is a
parameter of the record. The struct is packed and its members are little-endian
on both machines, so its memory is what travels.
-/

namespace Zouipocar
set_option autoImplicit false

/-- `struct Fix`, over the type of its two coordinates. -/
structure FixOf (Coord : Type) where
  timestamp : BitVec 32
  latitude : Coord
  longitude : Coord
  speed : BitVec 8
deriving DecidableEq, Repr

/-- The record as both programs exchange it: coordinates are float patterns. -/
abbrev Fix := FixOf (BitVec 32)

abbrev Byte := BitVec 8

/-- The bytes of a 32-bit member, low byte first. -/
def wordBytes (w : BitVec 32) : List Byte :=
  [w.extractLsb' 0 8, w.extractLsb' 8 8, w.extractLsb' 16 8, w.extractLsb' 24 8]

/-- The 32-bit member at an offset. -/
def wordAt (bytes : List Byte) (offset : Nat) : BitVec 32 :=
  bytes.getD (offset + 3) 0 ++ bytes.getD (offset + 2) 0 ++ bytes.getD (offset + 1) 0 ++
    bytes.getD offset 0

namespace Fix

/-- `sizeof(Fix)`. -/
def size : Nat := 13

/-- The memory of a fix. -/
def bytes (fix : Fix) : List Byte :=
  wordBytes fix.timestamp ++ wordBytes fix.latitude ++ wordBytes fix.longitude ++ [fix.speed]

/-- The fix some memory holds. -/
def ofBytes (memory : List Byte) : Fix where
  timestamp := wordAt memory 0
  latitude := wordAt memory 4
  longitude := wordAt memory 8
  speed := memory.getD 12 0

@[simp] theorem bytes_length (fix : Fix) : fix.bytes.length = size := rfl

theorem word_append (w : BitVec 32) :
    w.extractLsb' 24 8 ++ w.extractLsb' 16 8 ++ w.extractLsb' 8 8 ++ w.extractLsb' 0 8 = w := by
  apply BitVec.eq_of_getLsbD_eq
  intro i bound
  simp only [BitVec.getLsbD_append, BitVec.getLsbD_extractLsb']
  grind

/-- What is read from the memory of a fix is the fix. -/
@[simp] theorem ofBytes_bytes (fix : Fix) : ofBytes fix.bytes = fix := by
  obtain ⟨timestamp, latitude, longitude, speed⟩ := fix
  simp only [ofBytes, bytes, wordAt, wordBytes, List.cons_append, List.nil_append,
    List.getD_cons_succ, List.getD_cons_zero, word_append]

end Fix

end Zouipocar
