import Zouipocar.Lib.Records
import Zouipocar.Server.LastFix
import Zouipocar.Server.Track

/-!
# The server as one atomic recorder

What the callback is for: of the fixes that arrive, keep those newer than all
before, and store the ones that were moving. `Recorder` does this in one step a
fix, on a file that is booted from again and again. The server takes four steps
a fix, answers requests in between and may be stopped anywhere, in the middle
of a callback as well. Whatever happened, its file is the one of the recorder,
for the fixes that arrived; each process may have missed the last of its own.
-/

namespace Zouipocar
set_option autoImplicit false
open Lib

/-! ## The recorder -/

structure Recorder where
  table : Table
  last : Option Fix

namespace Recorder

/-- On a file, with the last fix in it. -/
def boot (file : Table) : Recorder := ⟨file, Process.lastStored file⟩

def time (fix : Fix) : Nat := fix.timestamp.toNat

/-- The starting point for what is newer. -/
def since : Option Fix → WithBot Nat
  | none => ⊥
  | some fix => .some (time fix)

/-- A moving fix gets a row, unless its second has one. -/
def keep (table : Table) (fix : Fix) : Table :=
  if 5 < fix.speed then (table.insert (rowOf fix)).getD table else table

def handle (r : Recorder) (fix : Fix) : Recorder :=
  if since r.last < .some (time fix) then ⟨keep r.table fix, some fix⟩ else r

/-- The recorder after the fixes that arrived. -/
def session (file : Table) (fixes : List Fix) : Recorder := fixes.foldl handle (boot file)

/-- The file after sessions one after the other, the newest first. -/
def replay (sessions : List (List Fix)) : Table :=
  sessions.foldr (fun fixes file => (session file fixes).table) .empty

/-- **The recorder keeps the records.** -/
theorem foldl_handle (fixes : List Fix) (r : Recorder) :
    (fixes.foldl handle r).table = (records time (since r.last) fixes).foldl keep r.table := by
  induction fixes generalizing r with
  | nil => rfl
  | cons fix rest ih =>
    rw [List.foldl_cons, ih, handle]
    by_cases newer : since r.last < .some (time fix)
    · rw [if_pos newer, records_cons_of_lt newer]
      rfl
    · rw [if_neg newer, records_cons_of_le (not_lt.mp newer)]

theorem keep_subset {table : Table} {fix : Fix} {r : ZouiRow} (inside : r ∈ table) : r ∈ keep table fix := by
  unfold keep
  split
  · exact OrderedTable.subset_insert _ _ inside
  · exact inside

theorem mem_keep {table : Table} {fix : Fix} {r : ZouiRow} : r ∈ keep table fix ↔
    r ∈ table ∨ 5 < fix.speed ∧ ¬ table.HasKey (rowOf fix).timestamp.toInt ∧ r = rowOf fix := by
  unfold keep
  by_cases fast : 5 < fix.speed
  · rw [if_pos fast]
    cases inserted : table.insert (rowOf fix) with
    | none =>
      have taken : table.HasKey (rowOf fix).timestamp.toInt := OrderedTable.insert_eq_none.mp inserted
      simp [taken]
    | some grown =>
      have fresh : ¬ table.HasKey (rowOf fix).timestamp.toInt := fun taken => by
        rw [OrderedTable.insert_eq_none.mpr taken] at inserted
        cases inserted
      rw [Option.getD_some, OrderedTable.mem_insert inserted]
      rw [or_comm]
      exact or_congr_right ⟨fun row => ⟨fast, fresh, row⟩, fun h => h.2.2⟩
  · rw [if_neg fast]
    exact ⟨.inl, fun h => h.resolve_right fun moving => fast moving.1⟩

/-- Fixes of different seconds do not get in each other's way. -/
theorem mem_foldl_keep {fixes : List Fix} (distinct : fixes.Pairwise fun a b => time a < time b)
    (table : Table) (r : ZouiRow) : r ∈ fixes.foldl keep table ↔
      r ∈ table ∨ ∃ fix ∈ fixes, 5 < fix.speed ∧ ¬ table.HasKey (rowOf fix).timestamp.toInt ∧ r = rowOf fix := by
  induction fixes generalizing table with
  | nil => simp
  | cons first rest ih =>
    obtain ⟨below, later⟩ := List.pairwise_cons.mp distinct
    have same : ∀ fix ∈ rest, (keep table first).HasKey (rowOf fix).timestamp.toInt ↔
        table.HasKey (rowOf fix).timestamp.toInt := by
      intro fix inside
      constructor
      · rintro ⟨x, row, key⟩
        rcases mem_keep.mp row with old | ⟨-, -, rfl⟩
        · exact ⟨x, old, key⟩
        · have apart := below fix inside
          simp only [rowOf, keyOf_toInt] at key
          rw [time, time, key_inj.mp key] at apart
          exact absurd apart (lt_irrefl _)
      · rintro ⟨x, row, key⟩
        exact ⟨x, keep_subset row, key⟩
    rw [List.foldl_cons, ih later, mem_keep]
    constructor
    · rintro ((old | here) | ⟨fix, inside, fast, fresh, row⟩)
      · exact .inl old
      · exact .inr ⟨first, List.mem_cons_self, here⟩
      · exact .inr ⟨fix, List.mem_cons_of_mem _ inside, fast, fun key => fresh ((same fix inside).mpr key), row⟩
    · rintro (old | ⟨fix, inside, fast, fresh, row⟩)
      · exact .inl (.inl old)
      · rcases List.mem_cons.mp inside with rfl | inside
        · exact .inl (.inr ⟨fast, fresh, row⟩)
        · exact .inr ⟨fix, inside, fast, fun key => fresh ((same fix inside).mp key), row⟩

/-- A session adds the rows of the moving records. -/
theorem mem_session (file : Table) (fixes : List Fix) (r : ZouiRow) : r ∈ (session file fixes).table ↔
    r ∈ file ∨ ∃ fix ∈ records time (since (Process.lastStored file)) fixes,
      5 < fix.speed ∧ ¬ file.HasKey (rowOf fix).timestamp.toInt ∧ r = rowOf fix := by
  rw [session, foldl_handle]
  exact mem_foldl_keep (records_ascending _ _) file r

end Recorder

/-! ## The server refines it -/

open Recorder

theorem Process.rejects_eq (p : Process) (fix : Fix) :
    p.rejects fix = false ↔ since p.lastFix < .some (time fix) := by
  unfold Process.rejects
  cases p.lastFix with
  | none => simp [since]
  | some last =>
    show decide (fix.timestamp ≤ last.timestamp) = false ↔ WithBot.some (time last) < .some (time fix)
    rw [decide_eq_false_iff_not, BitVec.not_le, BitVec.lt_def, WithBot.coe_lt_coe]
    rfl

/-- A process that was booted on a file and took these fixes. The one in its
callback counts as handled once its row is written. -/
def Handling (file : Table) (got : List Fix) (p : Process) : Prop :=
  ∃ handled, p.db.table = (session file handled).table ∧
    match p.callback with
    | .idle => got = handled ∧ p.lastFix = (session file handled).last
    | .updateFix fix | .insertFix fix => got = handled ++ [fix] ∧
        since (session file handled).last < .some (time fix)
    | .assign fix => got = handled ∧ (session file handled).last = some fix

namespace Handling

variable {file : Table} {got : List Fix} {p q : Process} {e : Event}

theorem start (file : Table) : Handling file [] (.start file) :=
  ⟨[], Process.start_table file, rfl, (Process.start_lastFix file).1⟩

/-- **A step of the process is no step of the recorder, or one.** -/
theorem step (h : Handling file got p) (taken : Process.Step p e q) :
    Handling file (got ++ delivered [e]) q := by
  obtain ⟨handled, table, h⟩ := h
  cases taken with
  | @reject fix idle old =>
    rw [idle] at h
    obtain ⟨rfl, last⟩ := h
    have same : session file (got ++ [fix]) = session file got := by
      rw [session, List.foldl_append, List.foldl_cons, List.foldl_nil, ← session, handle, if_neg]
      rw [← last, ← Process.rejects_eq, old]
      decide
    refine ⟨got ++ [fix], ?_, ?_⟩
    · rw [same]
      exact table
    · rw [idle, same]
      exact ⟨rfl, last⟩
  | @accept fix idle new =>
    rw [idle] at h
    obtain ⟨rfl, last⟩ := h
    refine ⟨got, table, rfl, ?_⟩
    rw [← last, ← Process.rejects_eq]
    exact new
  | updateFix ahead =>
    rw [ahead] at h
    refine ⟨handled, table, ?_⟩
    rw [delivered, List.filterMap_cons_none rfl, List.filterMap_nil, List.append_nil]
    exact h
  | @insertFix fix ahead =>
    rw [ahead] at h
    obtain ⟨rfl, newer⟩ := h
    have next : session file (handled ++ [fix]) = ⟨keep (session file handled).table fix, some fix⟩ := by
      rw [session, List.foldl_append, List.foldl_cons, List.foldl_nil, ← session, handle, if_pos newer]
    refine ⟨handled ++ [fix], ?_, ?_⟩
    · rw [next, ← table]
      exact Process.storeFix_table _ _
    · refine ⟨by simp [delivered], ?_⟩
      rw [next]
  | assign ahead =>
    rw [ahead] at h
    refine ⟨handled, table, ?_, h.2.symm⟩
    rw [delivered, List.filterMap_cons_none rfl, List.filterMap_nil, List.append_nil]
    exact h.1
  | apiFixFirst | apiFixLast =>
    refine ⟨handled, table, ?_⟩
    rw [delivered, List.filterMap_cons_none rfl, List.filterMap_nil, List.append_nil]
    exact h

theorem run {trace : List Event} (run : Run Process.Step (.start file) trace p) :
    Handling file (delivered trace) p := by
  refine run.history (fun trace p => Handling file (delivered trace) p) ?_ (.start file)
  intro trace m e t _ h taken
  rw [delivered_snoc]
  exact h.step taken

end Handling

/-- **Between two callbacks the table has the rows of the file and those of the
moving records, and no others.** -/
theorem Process.kept_iff {file : Table} {trace : List Event} {p : Process}
    (run : Run Process.Step (.start file) trace p) (idle : p.callback = .idle) (r : ZouiRow) :
    r ∈ p.db.table ↔ r ∈ file ∨
      ∃ fix ∈ records time (since (Process.lastStored file)) (delivered trace),
        5 < fix.speed ∧ ¬ file.HasKey (rowOf fix).timestamp.toInt ∧ r = rowOf fix := by
  obtain ⟨handled, table, h⟩ := Handling.run run
  rw [idle] at h
  obtain ⟨rfl, -⟩ := h
  rw [table, mem_session]

/-- One moving fix on an empty file. -/
theorem Process.kept_iff_moving :
    rowOf ⟨7, 0, 0, 10⟩ ∈ (Process.storeFix (Process.start .empty).db ⟨7, 0, 0, 10⟩).table := by
  apply (Process.kept_iff (Process.accepted_run (.start .empty) ⟨7, 0, 0, 10⟩ rfl rfl) rfl _).mpr
  refine .inr ⟨⟨7, 0, 0, 10⟩, ?_, by decide, ?_, rfl⟩
  · exact mem_records.mpr ⟨[], [], rfl, WithBot.bot_lt_coe _, by simp⟩
  · rintro ⟨r, inside, -⟩
    exact OrderedTable.not_mem_empty inside

/-! ## Over the lifetime of the file -/

/-- One event more, in the fixes that arrived so far. -/
def arrive : List (List Fix) → SystemEvent → List (List Fix)
  | got, .start => [] :: got
  | now :: earlier, .event (.deliver fix) => (now ++ [fix]) :: earlier
  | got, _ => got

/-- The fixes that arrived in each process, the newest process first. -/
def sessions (trace : List SystemEvent) : List (List Fix) := trace.foldl arrive []

theorem sessions_snoc (trace : List SystemEvent) (e : SystemEvent) :
    sessions (trace ++ [e]) = arrive (sessions trace) e := by
  rw [sessions, List.foldl_append]
  rfl

theorem arrive_event (now : List Fix) (earlier : List (List Fix)) (e : Event) :
    arrive (now :: earlier) (.event e) = (now ++ delivered [e]) :: earlier := by
  cases e <;> simp [arrive, delivered]

theorem Handling.cut {file : Table} {got : List Fix} {p : Process} (h : Handling file got p) :
    ∃ handled, Cut handled got ∧ p.db.table = (session file handled).table := by
  obtain ⟨handled, table, h⟩ := h
  refine ⟨handled, ?_, table⟩
  cases place : p.callback with
  | idle | assign =>
    rw [place] at h
    exact .inl h.1
  | updateFix | insertFix =>
    rw [place] at h
    exact .inr ⟨_, h.1⟩

/-- The sessions of a history, replayed up to the process that is running. -/
def Replays (trace : List SystemEvent) : System → Prop
  | .stopped file => ∃ handled, List.Forall₂ Cut handled (sessions trace) ∧ file = replay handled
  | .running p => ∃ got earlier handled, sessions trace = got :: earlier ∧
      List.Forall₂ Cut handled earlier ∧ Handling (replay handled) got p

theorem Replays.step {trace : List SystemEvent} {s t : System} {e : SystemEvent} (h : Replays trace s)
    (taken : System.Step s e t) : Replays (trace ++ [e]) t := by
  cases taken with
  | start =>
    obtain ⟨handled, cut, rfl⟩ := h
    refine ⟨[], sessions trace, handled, ?_, cut, .start _⟩
    rw [sessions_snoc, arrive]
  | stop =>
    obtain ⟨got, earlier, handled, whole, cut, now⟩ := h
    obtain ⟨last, lost, table⟩ := now.cut
    refine ⟨last :: handled, ?_, table⟩
    rw [sessions_snoc, whole]
    exact .cons lost cut
  | event taken =>
    obtain ⟨got, earlier, handled, whole, cut, now⟩ := h
    refine ⟨got ++ delivered [_], earlier, handled, ?_, cut, now.step taken⟩
    rw [sessions_snoc, whole, arrive_event]

theorem Replays.run {trace : List SystemEvent} {s : System} (run : History trace s) : Replays trace s :=
  Run.history Replays (fun _ _ _ _ _ h taken => h.step taken) run ⟨[], .nil, rfl⟩

/-- **Through any stops and starts the file is the recorder's, and a process loses
at most the fix that arrived last.** -/
theorem System.file_replay {trace : List SystemEvent} {s : System} (run : History trace s) :
    ∃ handled, List.Forall₂ Cut handled (sessions trace) ∧ s.file = replay handled := by
  have h := Replays.run run
  cases s with
  | stopped file => exact h
  | running p =>
    obtain ⟨got, earlier, handled, whole, cut, now⟩ := h
    obtain ⟨last, lost, table⟩ := now.cut
    exact ⟨last :: handled, whole ▸ .cons lost cut, table⟩

/-- A process that is stopped before it stores its fix. -/
theorem System.file_replay_stopped : ∃ handled,
    List.Forall₂ Cut handled [[⟨7, 0, 0, 10⟩]] ∧ (.empty : Table) = replay handled := by
  have run : History [.start, .event (.deliver ⟨7, 0, 0, 10⟩), .stop] (.stopped .empty) :=
    .cons .start (.cons (.event (.accept rfl rfl)) (.single .stop))
  exact System.file_replay run

end Zouipocar
