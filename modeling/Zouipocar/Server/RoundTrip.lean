import Mathlib.Data.List.Induction
import Zouipocar.Server.Timestamp

/-!
# Inserting and reading back

Each member of a fix takes its own way into the table and back: the timestamp
through `int` into the key, the speed through `int`, the coordinates through
`double`, in a column order that is not the member order. On finite
coordinates the way back undoes the way in, so the table is a first-wins map
from timestamps to fixes.
-/

namespace Zouipocar
set_option autoImplicit false
open Lib Lib.Sqlite

/-- Both coordinates are numbers. -/
def FixOf.Finite (fix : Fix) : Prop := floatIsFinite fix.latitude ∧ floatIsFinite fix.longitude

instance (fix : Fix) : Decidable fix.Finite := inferInstanceAs (Decidable (_ ∧ _))

/-- What a fix reads back as once it is stored. -/
def readBack (fix : Fix) : Fix := (rowOf fix).fix

@[simp] theorem readBack_timestamp (fix : Fix) : (readBack fix).timestamp = fix.timestamp :=
  keyOf_truncate fix.timestamp

theorem coordinate_readBack {x : BitVec 32} (finite : floatIsFinite x) :
    doubleToFloat (Value.ofDouble (floatToDouble x)).toDouble = x := by
  rw [Value.ofDouble, floatToDouble_not_nan finite]
  exact doubleToFloat_floatToDouble finite

theorem speed_readBack (speed : BitVec 8) :
    (Value.ofInt (speed.zeroExtend 32)).toInt.truncate 8 = speed := by
  apply BitVec.eq_of_getLsbD_eq
  intro i hi
  have h32 : i < 32 := by omega
  have h64 : i < 64 := by omega
  simp only [Value.ofInt, Value.toInt, BitVec.truncate_eq_setWidth, BitVec.getLsbD_setWidth,
    BitVec.getLsbD_signExtend]
  simp [hi, h32, h64]

/-- **A finite fix reads back member by member.** -/
theorem readBack_of_finite {fix : Fix} (finite : fix.Finite) : readBack fix = fix := by
  obtain ⟨timestamp, latitude, longitude, speed⟩ := fix
  obtain ⟨lat, lon⟩ := finite
  simp only [readBack, rowOf, ZouiRow.fix, keyOf_truncate, coordinate_readBack lat,
    coordinate_readBack lon, speed_readBack]

namespace Database

/-- A database on an empty file. -/
def fresh : Database := «open» .empty

/-- A sequence of `insert_fix` calls. -/
def insertAll (db : Database) (fixes : List Fix) : Database :=
  fixes.foldl (fun db fix => (db.insertFix fix).2) db

theorem insertAll_snoc (db : Database) (fixes : List Fix) (fix : Fix) :
    db.insertAll (fixes ++ [fix]) = ((db.insertAll fixes).insertFix fix).2 := by
  simp [insertAll]

/-- The first fix of the sequence with a timestamp. -/
def firstWith (fixes : List Fix) (t : BitVec 32) : Option Fix :=
  fixes.find? fun fix => fix.timestamp = t

theorem firstWith_snoc (fixes : List Fix) (fix : Fix) (t : BitVec 32) :
    firstWith (fixes ++ [fix]) t =
      (firstWith fixes t).or (if fix.timestamp = t then some fix else none) := by
  rw [firstWith, List.find?_append, ← firstWith]
  congr 1
  simp [List.find?_singleton]

theorem firstWith_eq_none {fixes : List Fix} {t : BitVec 32} :
    firstWith fixes t = none ↔ ∀ fix ∈ fixes, fix.timestamp ≠ t := by
  simp [firstWith]

/-- The table after any sequence of insertions: first-wins under each key. -/
theorem find?_insertAll (fixes : List Fix) (t : BitVec 32) :
    (fresh.insertAll fixes).table.find? t.toInt = (firstWith fixes t).map rowOf := by
  induction fixes using List.reverseRecOn with
  | nil => rfl
  | append_singleton fixes fix ih =>
    rw [insertAll_snoc, (insertFix_eq _ fix).2, OrderedTable.find?_insert, ih, firstWith_snoc]
    simp only [rowOf, keyOf_toInt, key_inj]
    cases firstWith fixes t with
    | some first => rfl
    | none =>
      simp only [Option.map_none, Option.none_or]
      split <;> rfl

/-- Every row was built from an inserted fix. -/
theorem mem_insertAll {fixes : List Fix} {r : ZouiRow} (h : r ∈ (fresh.insertAll fixes).table) :
    ∃ fix ∈ fixes, r = rowOf fix := by
  induction fixes using List.reverseRecOn with
  | nil => exact (OrderedTable.not_mem_empty h).elim
  | append_singleton fixes fix ih =>
    rw [insertAll_snoc, (insertFix_eq _ fix).2] at h
    rcases OrderedTable.insert_subset _ _ h with rfl | old
    · exact ⟨fix, by simp, rfl⟩
    · obtain ⟨earlier, inside, built⟩ := ih old
      exact ⟨earlier, by simp [inside], built⟩

/-- The insertion after a sequence succeeds on a new timestamp only. -/
theorem insertFix_insertAll (fixes : List Fix) (fix : Fix) :
    ((fresh.insertAll fixes).insertFix fix).1 = true ↔
      ∀ earlier ∈ fixes, earlier.timestamp ≠ fix.timestamp := by
  rw [(insertFix_eq _ fix).1, ← firstWith_eq_none, ← Option.map_eq_none_iff (f := rowOf),
    ← find?_insertAll, Option.isSome_iff_ne_none, ne_eq, OrderedTable.insert_eq_none,
    OrderedTable.find?_eq_none]
  simp only [rowOf, keyOf_toInt]

theorem getFix_insertAll (fixes : List Fix) (t : BitVec 32) :
    ((fresh.insertAll fixes).getFix t).1 = (firstWith fixes t).map readBack := by
  rw [(getFix_eq _ t).1, keyOf_toInt, find?_insertAll, Option.map_map]
  rfl

/-- **First-wins round trip.** -/
theorem insert_get_roundTrip (fixes : List Fix) (finite : ∀ fix ∈ fixes, fix.Finite) :
    (∀ earlier fix later, fixes = earlier ++ fix :: later →
      (((fresh.insertAll earlier).insertFix fix).1 = true ↔
        ∀ g ∈ earlier, g.timestamp ≠ fix.timestamp)) ∧
    ∀ t, ((fresh.insertAll fixes).getFix t).1 = fixes.find? fun fix => fix.timestamp = t := by
  refine ⟨fun earlier fix _ _ => insertFix_insertAll earlier fix, fun t => ?_⟩
  rw [getFix_insertAll, ← firstWith]
  cases found : firstWith fixes t with
  | none => rfl
  | some fix =>
    rw [Option.map_some, readBack_of_finite (finite fix (List.mem_of_find?_eq_some found))]

/-- A fix of 2038, inserted before another of the same second. -/
theorem insert_get_roundTrip_first :
    ((fresh.insertAll [⟨0x80000001#32, 0x42430000#32, 0x40033333#32, 200⟩,
      ⟨0x80000001#32, 0, 0, 6⟩]).getFix 0x80000001#32).1 =
        some ⟨0x80000001#32, 0x42430000#32, 0x40033333#32, 200⟩ := by
  rw [(insert_get_roundTrip _ (by decide)).2]
  rfl

end Database

end Zouipocar
