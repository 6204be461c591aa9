import Zouipocar.Server.RoundTrip

/-!
# The ordered queries against the unsigned order

`get_first_fix`, `get_last_fix` and `get_fix_range` follow the order of the
keys, which is signed. They agree with the order of the timestamps exactly
when the stored timestamps do not lie on both sides of 2^31 and the range does
not cross it over a stored fix. A range is answered at all only where there is
memory for a fix in each of its seconds.
-/

namespace Zouipocar
set_option autoImplicit false
open Lib Lib.Sqlite

namespace Database

/-- The fix is what the table holds for its timestamp after the insertions. -/
def Stored (fixes : List Fix) (fix : Fix) : Prop :=
  ∃ first, firstWith fixes fix.timestamp = some first ∧ readBack first = fix

/-- Inserted timestamps lie on both sides of 2^31. -/
def Straddles (fixes : List Fix) : Prop :=
  ∃ low ∈ fixes, ∃ high ∈ fixes, ¬ Upper low.timestamp ∧ Upper high.timestamp

/-- The ordered queries answer by the unsigned order of the timestamps. -/
structure OrderedByTimestamp (memory : Memory) (fixes : List Fix) (start stop : BitVec 32) : Prop where
  first : ∀ fix, (fresh.insertAll fixes).getFirstFix.1 = some fix ↔
    Stored fixes fix ∧ ∀ other, Stored fixes other → fix.timestamp ≤ other.timestamp
  last : ∀ fix, (fresh.insertAll fixes).getLastFix.1 = some fix ↔
    Stored fixes fix ∧ ∀ other, Stored fixes other → other.timestamp ≤ fix.timestamp
  range : ∃ found, ((fresh.insertAll fixes).getFixRange memory start stop).1 = .ok found ∧
    (∀ fix, fix ∈ found ↔ Stored fixes fix ∧ start ≤ fix.timestamp ∧ fix.timestamp ≤ stop) ∧
    found.Pairwise fun a b => a.timestamp < b.timestamp

/-- A row is stored under the signed reading of the timestamp it reads back with. -/
theorem row_key {fixes : List Fix} {r : ZouiRow} (h : r ∈ (fresh.insertAll fixes).table) :
    r.timestamp.toInt = r.fix.timestamp.toInt := by
  obtain ⟨fix, _, rfl⟩ := mem_insertAll h
  exact (keyOf_toInt _).trans (congrArg BitVec.toInt (readBack_timestamp fix).symm)

/-- The rows of the table are the stored fixes. -/
theorem stored_iff {fixes : List Fix} {fix : Fix} :
    Stored fixes fix ↔ ∃ r ∈ (fresh.insertAll fixes).table, r.fix = fix := by
  constructor
  · rintro ⟨first, found, rfl⟩
    have row : (fresh.insertAll fixes).table.find? (readBack first).timestamp.toInt =
        some (rowOf first) := by rw [find?_insertAll, found]; rfl
    exact ⟨_, (OrderedTable.find?_eq_some.mp row).1, rfl⟩
  · rintro ⟨r, inside, rfl⟩
    have row := OrderedTable.find?_eq_some.mpr ⟨inside, row_key inside⟩
    rw [find?_insertAll, Option.map_eq_some_iff] at row
    obtain ⟨first, found, rfl⟩ := row
    exact ⟨first, found, rfl⟩

/-- Every inserted timestamp is stored. -/
theorem exists_stored {fixes : List Fix} {fix : Fix} (h : fix ∈ fixes) :
    ∃ stored, Stored fixes stored ∧ stored.timestamp = fix.timestamp := by
  cases found : firstWith fixes fix.timestamp with
  | none => exact (firstWith_eq_none.mp found fix h rfl).elim
  | some first =>
    have same : first.timestamp = fix.timestamp := by simpa using List.find?_some found
    exact ⟨readBack first, ⟨first, by rw [readBack_timestamp, same, found], rfl⟩,
      (readBack_timestamp first).trans same⟩

theorem Stored.inserted {fixes : List Fix} {fix : Fix} (h : Stored fixes fix) :
    ∃ g ∈ fixes, g.timestamp = fix.timestamp := by
  obtain ⟨first, found, _⟩ := h
  exact ⟨first, List.mem_of_find?_eq_some found, by simpa using List.find?_some found⟩

/-! ## The queries in the order of the keys -/

/-- A query for one end of the key order, read back. -/
theorem end_insertAll {fixes : List Fix} {R : Int → Int → Prop} {row : Option ZouiRow}
    (extreme : ∀ r, row = some r ↔ r ∈ (fresh.insertAll fixes).table ∧
      ∀ x ∈ (fresh.insertAll fixes).table, R r.timestamp.toInt x.timestamp.toInt) (fix : Fix) :
    row.map ZouiRow.fix = some fix ↔
      Stored fixes fix ∧ ∀ other, Stored fixes other → R fix.timestamp.toInt other.timestamp.toInt := by
  rw [Option.map_eq_some_iff]
  constructor
  · rintro ⟨r, found, rfl⟩
    obtain ⟨inside, bound⟩ := (extreme r).mp found
    refine ⟨stored_iff.mpr ⟨r, inside, rfl⟩, fun other stored => ?_⟩
    obtain ⟨x, member, rfl⟩ := stored_iff.mp stored
    rw [← row_key inside, ← row_key member]
    exact bound x member
  · rintro ⟨stored, bound⟩
    obtain ⟨r, inside, rfl⟩ := stored_iff.mp stored
    refine ⟨r, (extreme r).mpr ⟨inside, fun x member => ?_⟩, rfl⟩
    rw [row_key inside, row_key member]
    exact bound x.fix (stored_iff.mpr ⟨x, member, rfl⟩)

theorem getFirstFix_insertAll {fixes : List Fix} {fix : Fix} :
    (fresh.insertAll fixes).getFirstFix.1 = some fix ↔
      Stored fixes fix ∧ ∀ other, Stored fixes other → fix.timestamp.toInt ≤ other.timestamp.toInt := by
  rw [(getFirstFix_eq _).1]
  exact end_insertAll (R := (· ≤ ·)) (fun _ => OrderedTable.first?_eq_some) fix

theorem getLastFix_insertAll {fixes : List Fix} {fix : Fix} :
    (fresh.insertAll fixes).getLastFix.1 = some fix ↔
      Stored fixes fix ∧ ∀ other, Stored fixes other → other.timestamp.toInt ≤ fix.timestamp.toInt := by
  rw [(getLastFix_eq _).1]
  exact end_insertAll (R := (· ≥ ·)) (fun _ => OrderedTable.last?_eq_some) fix

/-- What a range query finds, by the signed order. -/
def foundInRange (fixes : List Fix) (start stop : BitVec 32) : List Fix :=
  ((fresh.insertAll fixes).table.between (keyOf start).toInt (keyOf stop).toInt).map ZouiRow.fix

theorem getFixRange_insertAll (memory : Memory) (fixes : List Fix) (start stop : BitVec 32) :
    ((fresh.insertAll fixes).getFixRange memory start stop).1 =
      if memory.Reserves (stop - start) then .ok (foundInRange fixes start stop) else .error .badAlloc :=
  (getFixRange_eq _ memory start stop).1

theorem mem_foundInRange {fixes : List Fix} {start stop : BitVec 32} {fix : Fix} :
    fix ∈ foundInRange fixes start stop ↔
      Stored fixes fix ∧ start.toInt ≤ fix.timestamp.toInt ∧ fix.timestamp.toInt ≤ stop.toInt := by
  rw [foundInRange, List.mem_map]
  simp only [OrderedTable.mem_between, keyOf_toInt]
  constructor
  · rintro ⟨r, ⟨inside, range⟩, rfl⟩
    rw [row_key inside] at range
    exact ⟨stored_iff.mpr ⟨r, inside, rfl⟩, range⟩
  · rintro ⟨stored, range⟩
    obtain ⟨r, inside, rfl⟩ := stored_iff.mp stored
    rw [← row_key inside] at range
    exact ⟨r, ⟨inside, range⟩, rfl⟩

theorem foundInRange_ascending (fixes : List Fix) (start stop : BitVec 32) :
    (foundInRange fixes start stop).Pairwise fun a b => a.timestamp.toInt < b.timestamp.toInt := by
  rw [foundInRange, List.pairwise_map]
  apply (OrderedTable.between_ascending _ _ _).imp_of_mem
  intro a b ha hb less
  rwa [← row_key (OrderedTable.mem_between.mp ha).1, ← row_key (OrderedTable.mem_between.mp hb).1]

/-! ## Against the unsigned order -/

/-- Without a straddle all stored timestamps lie in one half. -/
theorem same_half {fixes : List Fix} (one : ¬ Straddles fixes) {a b : Fix} (ha : Stored fixes a)
    (hb : Stored fixes b) : Upper a.timestamp ↔ Upper b.timestamp := by
  obtain ⟨f, insideF, sameF⟩ := ha.inserted
  obtain ⟨g, insideG, sameG⟩ := hb.inserted
  rw [← sameF, ← sameG]
  constructor
  · intro up
    by_contra down
    exact one ⟨g, insideG, f, insideF, down, up⟩
  · intro up
    by_contra down
    exact one ⟨f, insideF, g, insideG, down, up⟩

/-- A straddling table puts a fix of the upper half first. -/
theorem not_straddles {fixes : List Fix}
    (first : ∀ fix, (fresh.insertAll fixes).getFirstFix.1 = some fix →
      ∀ other, Stored fixes other → fix.timestamp ≤ other.timestamp) : ¬ Straddles fixes := by
  rintro ⟨f, insideF, g, insideG, down, up⟩
  obtain ⟨low, storedLow, sameLow⟩ := exists_stored insideF
  obtain ⟨high, storedHigh, sameHigh⟩ := exists_stored insideG
  cases answer : (fresh.insertAll fixes).getFirstFix.1 with
  | none =>
    obtain ⟨r, inside, _⟩ := stored_iff.mp storedLow
    rw [(getFirstFix_eq _).1, Option.map_eq_none_iff] at answer
    exact OrderedTable.first?_eq_none.mp answer r inside
  | some least =>
    obtain ⟨_, below⟩ := getFirstFix_insertAll.mp answer
    have signed := below high storedHigh
    have unsigned := first least answer low storedLow
    rw [sameHigh, toInt_of_upper up] at signed
    rw [sameLow, BitVec.le_def] at unsigned
    by_cases half : Upper least.timestamp
    · rw [Upper] at half down
      omega
    · have bound := g.timestamp.isLt
      rw [toInt_of_not_upper half] at signed
      omega

/-- **The ordered queries are right exactly off the sign boundary, with memory for
the range.** -/
theorem orderedByTimestamp_iff (memory : Memory) (fixes : List Fix) (start stop : BitVec 32)
    (ordered : start ≤ stop) :
    OrderedByTimestamp memory fixes start stop ↔
      ¬ Straddles fixes ∧
        ((Upper start ↔ Upper stop) ∨
          ∀ fix ∈ fixes, ¬ (start ≤ fix.timestamp ∧ fix.timestamp ≤ stop)) ∧
        (start = stop ∨ memory ((stop.toNat - start.toNat) * 13) = true) := by
  have bytes : memory.Reserves (stop - start) ↔
      start = stop ∨ memory ((stop.toNat - start.toNat) * 13) = true := by
    rw [Memory.Reserves, BitVec.toNat_sub_of_le ordered, Fix.size]
    exact or_congr_left (BitVec.sub_eq_iff_eq_add.trans (by simp [eq_comm]))
  rw [← bytes]
  constructor
  · intro h
    obtain ⟨found, answer, members, -⟩ := h.range
    rw [getFixRange_insertAll] at answer
    split at answer
    · rename_i reserves
      obtain rfl := Except.ok.inj answer
      refine ⟨not_straddles fun fix answer => ((h.first fix).mp answer).2, ?_, reserves⟩
      by_contra crossing
      push Not at crossing
      obtain ⟨split, fix, inside, range⟩ := crossing
      obtain ⟨stored, member, same⟩ := exists_stored inside
      have found := (members stored).mpr ⟨member, by rw [same]; exact range⟩
      have signed := (mem_foundInRange.mp found).2
      have reversed := key_gt_of_split ordered (fun same => by tauto)
      omega
    · cases answer
  · rintro ⟨one, inside, reserves⟩
    have order : ∀ {a b}, Stored fixes a → Stored fixes b →
        (a.timestamp.toInt ≤ b.timestamp.toInt ↔ a.timestamp ≤ b.timestamp) :=
      fun ha hb => key_le_iff (same_half one ha hb)
    refine ⟨fun fix => ?_, fun fix => ?_, _, (getFixRange_insertAll ..).trans (if_pos reserves), fun fix => ?_, ?_⟩
    · rw [getFirstFix_insertAll]
      exact and_congr_right fun stored =>
        forall_congr' fun other => forall_congr' fun member => order stored member
    · rw [getLastFix_insertAll]
      exact and_congr_right fun stored =>
        forall_congr' fun other => forall_congr' fun member => order member stored
    · rw [mem_foundInRange]
      apply and_congr_right
      intro stored
      by_cases half : Upper start ↔ Upper stop
      · exact between_iff half fix.timestamp
      · have reversed := key_gt_of_split ordered half
        obtain ⟨g, member, same⟩ := stored.inserted
        have outside := inside.resolve_left half g member
        rw [same] at outside
        exact ⟨fun signed => by omega, fun range => (outside range).elim⟩
    · apply (foundInRange_ascending fixes start stop).imp_of_mem
      intro a b ha hb less
      have storedA := (mem_foundInRange.mp ha).1
      have storedB := (mem_foundInRange.mp hb).1
      rw [← BitVec.not_le, ← order storedB storedA]
      omega

/-- Inside the lower half, with a gigabyte, the queries are ordered. -/
theorem orderedByTimestamp_lower :
    OrderedByTimestamp (fun bytes => bytes ≤ 2 ^ 30) [⟨7, 0, 0, 10⟩, ⟨3, 0, 0, 10⟩] 1 5 :=
  (orderedByTimestamp_iff _ _ _ _ (by decide)).mpr ⟨by unfold Straddles; decide, by decide, by decide⟩

/-- One fix of 2^31, and the range from a second before it does not contain it. -/
theorem not_orderedByTimestamp :
    ¬ ∀ fixes start stop, start ≤ stop → OrderedByTimestamp (fun _ => true) fixes start stop := by
  intro claim
  have h := claim [⟨0x80000000#32, 0, 0, 10⟩] 0x7FFFFFFF#32 0x80000000#32 (by decide)
  have inserted : ⟨0x80000000#32, 0, 0, 10⟩ ∈ [(⟨0x80000000#32, 0, 0, 10⟩ : Fix)] :=
    List.mem_singleton_self _
  obtain ⟨stored, member, same⟩ := exists_stored inserted
  obtain ⟨found, answer, members, -⟩ := h.range
  rw [getFixRange_insertAll, if_pos (.inr rfl)] at answer
  obtain rfl := Except.ok.inj answer
  have found := (members stored).mpr ⟨member, by rw [same]; decide⟩
  have signed := (mem_foundInRange.mp found).2
  rw [same] at signed
  exact absurd signed (by decide)

end Database

end Zouipocar
