import Zouipocar.Server.Track

/-!
# The guard after a restart

While a process runs, its guard compares with the newest fix it has seen. After
a restart the reference is the last row of the table, in the order of the keys.
That is the newest row when the stored timestamps lie in one half of the range,
and only then: with rows in both halves the last key belongs to the lower half,
and the guard lets the stored timestamps of the upper half through once more.
-/

namespace Zouipocar
set_option autoImplicit false
open Lib

/-- The stored timestamps are all below 2^31 or all from 2^31 on. -/
def OneHalf (table : Table) : Prop :=
  ∀ a ∈ table, ∀ b ∈ table, Upper a.fix.timestamp → Upper b.fix.timestamp

/-- What the callback accepts is newer than every row, and is stored when it moves. -/
structure NewerThanStored (s : System) : Prop where
  accepts : ∀ p fix, s = .running p → p.callback = .idle → p.rejects fix = false →
    ∀ r ∈ p.db.table, r.fix.timestamp < fix.timestamp
  inserts : ∀ p fix, s = .running p → p.callback = .insertFix fix → 5 < fix.speed →
    (p.db.insertFix fix).1 = true

theorem OneHalf.same {table : Table} (one : OneHalf table) {a b : ZouiRow} (ha : a ∈ table)
    (hb : b ∈ table) : Upper a.fix.timestamp ↔ Upper b.fix.timestamp :=
  ⟨one a ha b hb, one b hb a ha⟩

/-- Rows are stored under the signed reading of their timestamps. -/
def Built (table : Table) : Prop := ∀ r ∈ table, r.timestamp.toInt = r.fix.timestamp.toInt

theorem History.built {trace : List SystemEvent} {s : System} (run : History trace s) : Built s.file :=
  fun _ inside => (Sound.run run).row_key inside

/-- The invariant: the rows are at or below the reference of the guard, and
below the fix the callback handles until it is stored. -/
def Ahead : System → Prop
  | .stopped _ => True
  | .running p =>
    match p.callback with
    | .idle => ∀ r ∈ p.db.table, ∃ last, p.lastFix = some last ∧ r.fix.timestamp ≤ last.timestamp
    | .updateFix fix | .insertFix fix => ∀ r ∈ p.db.table, r.fix.timestamp < fix.timestamp
    | .assign fix => ∀ r ∈ p.db.table, r.fix.timestamp ≤ fix.timestamp

/-! ## The reference of a new process -/

/-- The last row is the newest when the rows lie in one half. -/
theorem le_lastStored {file : Table} (built : Built file) (one : OneHalf file) {r : ZouiRow}
    (inside : r ∈ file) :
    ∃ last, Process.lastStored file = some last ∧ r.fix.timestamp ≤ last.timestamp := by
  cases found : file.last? with
  | none => exact (OrderedTable.last?_eq_none.mp found r inside).elim
  | some l =>
    obtain ⟨stored, greatest⟩ := OrderedTable.last?_eq_some.mp found
    refine ⟨l.fix, by rw [Process.lastStored, found]; rfl, ?_⟩
    have signed := greatest r inside
    rw [built r inside, built l stored] at signed
    exact (key_le_iff (one.same inside stored)).mp signed

/-- With rows in both halves the last row is in the lower one. -/
theorem lastStored_lower {file : Table} (built : Built file) {low : ZouiRow} (lowIn : low ∈ file)
    (down : ¬ Upper low.fix.timestamp) {high : BitVec 32} (up : Upper high) :
    ∃ last, Process.lastStored file = some last ∧ last.timestamp < high := by
  cases found : file.last? with
  | none => exact (OrderedTable.last?_eq_none.mp found low lowIn).elim
  | some l =>
    obtain ⟨stored, greatest⟩ := OrderedTable.last?_eq_some.mp found
    refine ⟨l.fix, by rw [Process.lastStored, found]; rfl, ?_⟩
    have signed := greatest low lowIn
    rw [built low lowIn, built l stored] at signed
    have lower : ¬ Upper l.fix.timestamp := fun above => by
      have := (key_lt_of_upper above down).1
      omega
    exact (key_lt_of_upper up lower).2

/-- A new process accepts newer fixes only exactly when the rows lie in one half. -/
theorem start_accepts_iff {file : Table} (built : Built file) :
    (∀ fix, (Process.start file).rejects fix = false → ∀ r ∈ file, r.fix.timestamp < fix.timestamp) ↔
      OneHalf file := by
  obtain ⟨reference, _⟩ := Process.start_lastFix file
  constructor
  · intro newer high highIn low lowIn up
    by_contra down
    obtain ⟨last, found, below⟩ := lastStored_lower built lowIn down up
    have accepted : (Process.start file).rejects high.fix = false := by
      simp only [Process.rejects, reference, found, decide_eq_false_iff_not, BitVec.not_le]
      exact below
    have newest := newer high.fix accepted high highIn
    rw [BitVec.lt_def] at newest
    omega
  · intro one fix accepted r inside
    obtain ⟨last, found, below⟩ := le_lastStored built one inside
    have above := Process.newer accepted last (reference.trans found)
    rw [BitVec.lt_def] at above ⊢
    rw [BitVec.le_def] at below
    omega

/-! ## The invariant -/

/-- What the guard accepts is newer than every row. -/
theorem Ahead.newer {p : Process} (h : Ahead (.running p)) {fix : Fix} (idle : p.callback = .idle)
    (accepted : p.rejects fix = false) : ∀ r ∈ p.db.table, r.fix.timestamp < fix.timestamp := by
  intro r inside
  simp only [Ahead, idle] at h
  obtain ⟨last, reference, below⟩ := h r inside
  have above := Process.newer accepted last reference
  rw [BitVec.lt_def] at above ⊢
  rw [BitVec.le_def] at below
  omega

/-- A fix newer than every row finds its key free. -/
theorem insertFix_newer {db : Database} {fix : Fix} (built : Built db.table)
    (newer : ∀ r ∈ db.table, r.fix.timestamp < fix.timestamp) : (db.insertFix fix).1 = true := by
  rw [(db.insertFix_eq fix).1, Option.isSome_iff_ne_none, ne_eq, OrderedTable.insert_eq_none]
  rintro ⟨r, inside, same⟩
  change r.timestamp.toInt = (rowOf fix).timestamp.toInt at same
  rw [built r inside, rowOf, keyOf_toInt] at same
  have below := newer r inside
  rw [key_inj.mp same, BitVec.lt_def] at below
  omega

/-- **One step keeps the invariant**, a start only on rows in one half. -/
theorem Ahead.step {s t : System} {e : SystemEvent} (built : Built s.file) (h : Ahead s)
    (one : e = .start → OneHalf s.file) (taken : System.Step s e t) : Ahead t := by
  cases taken with
  | @start file =>
    obtain ⟨reference, _⟩ := Process.start_lastFix file
    simp only [Ahead, Process.start_callback, Process.start_table, reference]
    exact fun r inside => le_lastStored built (one rfl) inside
  | stop => trivial
  | event taken =>
    cases taken with
    | reject | apiFixFirst | apiFixLast => exact h
    | accept idle new => exact h.newer idle new
    | updateFix ahead =>
      simp only [Ahead, ahead] at h
      exact h
    | @insertFix fix ahead =>
      simp only [Ahead, ahead] at h
      intro r inside
      rcases Process.mem_storeFix inside with ⟨rfl, _⟩ | old
      · exact BitVec.le_of_eq (readBack_timestamp fix)
      · exact BitVec.le_of_lt (h r old)
    | assign ahead =>
      simp only [Ahead, ahead] at h
      exact fun r inside => ⟨_, rfl, h r inside⟩

theorem Ahead.newerThanStored {s : System} (built : Built s.file) (h : Ahead s) : NewerThanStored s := by
  constructor
  · rintro p fix rfl idle accepted
    exact h.newer idle accepted
  · rintro p fix rfl ahead _
    simp only [Ahead, ahead] at h
    exact insertFix_newer built h

/-- Every start on the way found the rows in one half. -/
def StartsInOneHalf (trace : List SystemEvent) (s : System) : Prop :=
  ∀ earlier later m, trace = earlier ++ .start :: later → History earlier m →
    Run System.Step m (.start :: later) s → OneHalf m.file

theorem Ahead.run {trace : List SystemEvent} {s : System} (run : History trace s) :
    StartsInOneHalf trace s → Ahead s := by
  refine Run.history (fun trace s => StartsInOneHalf trace s → Ahead s) ?_ run fun _ => trivial
  intro trace m e t before ih taken starts
  refine (ih ?_).step (History.built before) ?_ taken
  · rintro earlier later k rfl first second
    exact starts earlier (later ++ [e]) k (by simp) first (second.snoc taken)
  · rintro rfl
    exact starts trace [] m rfl before (Run.single taken)

/-- **Every state of a history accepts newer fixes only and stores them, exactly
when every process started on rows in one half.** -/
theorem newerThanStored_iff (trace : List SystemEvent) (s : System) :
    (∀ earlier later m, trace = earlier ++ later → History earlier m →
      Run System.Step m later s → NewerThanStored m) ↔ StartsInOneHalf trace s := by
  constructor
  · rintro newer earlier later m rfl first second
    obtain ⟨k, started, rest⟩ := second.first
    have after := newer (earlier ++ [.start]) later k (by simp) (first.snoc started) rest
    cases started with
    | @start file =>
      apply (start_accepts_iff (History.built first)).mp
      intro fix accepted r inside
      apply after.accepts _ fix rfl rfl accepted r
      rw [Process.start_table]
      exact inside
  · rintro starts earlier later m rfl first second
    refine (Ahead.run first ?_).newerThanStored (History.built first)
    rintro before between k rfl reach onward
    exact starts before (between ++ later) k (by simp) reach (onward.trans second)

/-- Rows never leave, so a table in one half was in one half at every start. -/
theorem OneHalf.starts {trace : List SystemEvent} {s : System} (one : OneHalf s.file) :
    StartsInOneHalf trace s := by
  rintro earlier later m rfl _ onward a ha b hb
  have grown : ∀ r ∈ m.file, r ∈ s.file := System.Run.subset onward
  exact one a (grown a ha) b (grown b hb)

/-- The history of one moving fix on an empty file, up to a restart. -/
theorem restarted (fix : Fix) :
    History [.start, .event (.deliver fix), .event (.updateFix fix), .event (.insertFix fix),
        .event (.assign fix), .stop, .start]
      (.running (Process.start (Process.storeFix (Process.start .empty).db fix).table)) := by
  have handled := Process.Run.lift
    (Process.accepted_run (.start .empty) fix rfl rfl)
  exact ((Run.cons .start handled).snoc .stop).snoc .start

/-- The table of a process that has stored one fix. -/
theorem mem_storedOnce {fix : Fix} {r : ZouiRow} (inside : r ∈ (Process.storeFix (Process.start .empty).db fix).table) :
    r = rowOf fix := by
  rcases Process.mem_storeFix inside with ⟨built, _⟩ | old
  · exact built
  · rw [Process.start_table] at old
    exact (OrderedTable.not_mem_empty old).elim

/-- After the restart its timestamp is there, and only newer ones are accepted. -/
theorem newerThanStored_restarted :
    ∃ s, NewerThanStored s ∧ ∃ r ∈ s.file, r.fix.timestamp = 7#32 := by
  have only : ∀ r ∈ (Process.start (Process.storeFix (Process.start .empty).db ⟨7, 0, 0, 6⟩).table).db.table,
      r = rowOf ⟨7, 0, 0, 6⟩ := by
    intro r inside
    rw [Process.start_table] at inside
    exact mem_storedOnce inside
  have one : OneHalf (System.running (Process.start
      (Process.storeFix (Process.start .empty).db ⟨7, 0, 0, 6⟩).table)).file := by
    intro a ha b hb up
    rw [only b hb, ← only a ha]
    exact up
  have run := restarted ⟨7, 0, 0, 6⟩
  refine ⟨_, (newerThanStored_iff _ _).mpr one.starts _ [] _ (List.append_nil _).symm run (.refl _), ?_⟩
  obtain ⟨r, inside, same⟩ := exists_row_insert (Process.start .empty).db
    ⟨7, 0, 0, 6⟩ (by decide) fun r inside => by
      rw [Process.start_table] at inside
      exact (OrderedTable.not_mem_empty inside).elim
  refine ⟨r, ?_, same⟩
  rw [System.file, Process.start_table]
  exact inside

/-- Timestamps 5 and 2^31 are stored, and 2^31 is accepted again after a restart. -/
theorem not_newerThanStored : ¬ ∀ trace s, History trace s → NewerThanStored s := by
  intro always
  have first := Process.accepted_run (.start .empty) ⟨5, 0, 0, 10⟩ rfl rfl
  have second := first.trans
    (Process.accepted_run _ ⟨0x80000000, 0, 0, 10⟩ rfl (by decide))
  have run : History _ _ := ((Run.cons .start (Process.Run.lift second)).snoc .stop).snoc .start
  have newest := (always _ _ run).accepts _ ⟨0x80000000, 0, 0, 10⟩ rfl rfl (by decide)
    (rowOf ⟨0x80000000, 0, 0, 10⟩) (by rw [← OrderedTable.mem_rows]; decide)
  revert newest
  decide

end Zouipocar
