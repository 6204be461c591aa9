import Zouipocar.Server.Restart

/-!
# The cached first fix

The constructor of `HTTPServer` reads the first fix once, and nothing replaces
it while the table grows. That is enough while the table already had its
earliest row in front: the guard only lets newer fixes through. A process that
started on an empty table goes on answering 404 after its first insertion.
-/

namespace Zouipocar
set_option autoImplicit false
open Lib

/-- The answer is the earliest fix of the table, and a 404 means an empty table. -/
def AnswersEarliest (p : Process) : Prop :=
  match p.server.apiFixFirst with
  | some fix => ∃ r ∈ p.db.table, r.fix = fix ∧ ∀ x ∈ p.db.table, fix.timestamp ≤ x.fix.timestamp
  | none => ∀ r, r ∉ p.db.table

/-- One row is the least under its key and has the least timestamp. -/
def LeastFirst (table : Table) : Prop :=
  ∃ r ∈ table, ∀ x ∈ table, r.timestamp.toInt ≤ x.timestamp.toInt ∧ r.fix.timestamp ≤ x.fix.timestamp

theorem Process.start_firstFix (file : Table) :
    (start file).server.firstFix = file.first?.map ZouiRow.fix := by
  simp only [start, HTTPServer.new, (Database.getFirstFix_eq _).1, (Database.getLastFix_eq _).2,
    Database.open_table]

/-- The row of a fix has its timestamp. -/
theorem rowOf_timestamp (fix : Fix) : (rowOf fix).fix.timestamp = fix.timestamp :=
  readBack_timestamp fix

/-- The invariant behind an answered fix: it is the earliest of all that is
stored, compared with or on its way to the table. -/
structure Earliest (first : ZouiRow) (p : Process) : Prop where
  answered : p.server.firstFix = some first.fix
  stored : first ∈ p.db.table
  least : ∀ x ∈ p.db.table, first.fix.timestamp ≤ x.fix.timestamp
  reference : ∃ last, p.lastFix = some last ∧ first.fix.timestamp ≤ last.timestamp
  handling : ∀ fix, p.callback.fix? = some fix → first.fix.timestamp ≤ fix.timestamp

theorem Earliest.start {file : Table} {first : ZouiRow} (inside : first ∈ file)
    (least : ∀ x ∈ file, first.timestamp.toInt ≤ x.timestamp.toInt ∧
      first.fix.timestamp ≤ x.fix.timestamp) : Earliest first (Process.start file) := by
  have found : file.first? = some first :=
    OrderedTable.first?_eq_some.mpr ⟨inside, fun x member => (least x member).1⟩
  refine ⟨by rw [Process.start_firstFix, found]; rfl, ?_, ?_, ?_, fun fix handled => ?_⟩
  · rwa [Process.start_table]
  · rw [Process.start_table]
    exact fun x member => (least x member).2
  · cases last : file.last? with
    | none => exact (OrderedTable.last?_eq_none.mp last first inside).elim
    | some l =>
      refine ⟨l.fix, ?_, (least l (OrderedTable.last?_eq_some.mp last).1).2⟩
      rw [(Process.start_lastFix file).1, Process.lastStored, last]
      rfl
  · cases handled

/-- **One step keeps the first fix the earliest.** -/
theorem Earliest.step {first : ZouiRow} {p q : Process} {e : Event} (h : Earliest first p)
    (taken : Process.Step p e q) : Earliest first q := by
  cases taken with
  | reject | apiFixFirst | apiFixLast => exact h
  | @accept fix idle new =>
    refine ⟨h.answered, h.stored, h.least, h.reference, fun handled same => ?_⟩
    obtain rfl := Option.some.inj same
    obtain ⟨last, known, below⟩ := h.reference
    exact BitVec.le_trans below (BitVec.le_of_lt (Process.newer new last known))
  | @updateFix fix ahead =>
    have below := h.handling fix (by rw [ahead]; rfl)
    refine ⟨h.answered, h.stored, h.least, h.reference, fun handled same => ?_⟩
    obtain rfl := Option.some.inj same
    exact below
  | @insertFix fix ahead =>
    have below := h.handling fix (by rw [ahead]; rfl)
    refine ⟨h.answered, Process.subset_storeFix h.stored, fun x inside => ?_, h.reference,
      fun handled same => ?_⟩
    · rcases Process.mem_storeFix inside with ⟨rfl, _⟩ | old
      · rwa [rowOf_timestamp]
      · exact h.least x old
    · obtain rfl := Option.some.inj same
      exact below
  | @assign fix ahead =>
    refine ⟨h.answered, h.stored, h.least, ⟨fix, rfl, h.handling fix (by rw [ahead]; rfl)⟩, ?_⟩
    intro handled same
    cases same

theorem Earliest.answers {first : ZouiRow} {p : Process} (h : Earliest first p) : AnswersEarliest p := by
  unfold AnswersEarliest HTTPServer.apiFixFirst
  rw [h.answered]
  exact ⟨first, h.stored, rfl, h.least⟩

/-- A run keeps the cached fix. -/
theorem firstFix_run {file : Table} {trace : List Event} {p : Process}
    (run : Run Process.Step (Process.start file) trace p) :
    p.server.firstFix = file.first?.map ZouiRow.fix := by
  refine Run.invariant (fun p => p.server.firstFix = file.first?.map ZouiRow.fix) ?_ run
    (Process.start_firstFix file)
  intro p e q same taken
  cases taken <;> exact same

/-- No fix fast enough to be stored reaches the insertion. -/
def NothingStored (trace : List Event) : Prop := ∀ fix, .insertFix fix ∈ trace → ¬ 5 < fix.speed

/-- Until then an empty table stays empty. -/
theorem empty_run {file : Table} (empty : ∀ r, r ∉ file) {trace : List Event} {p : Process}
    (run : Run Process.Step (Process.start file) trace p) :
    NothingStored trace → ∀ r, r ∉ p.db.table := by
  refine Run.history (fun trace p => NothingStored trace → ∀ r, r ∉ p.db.table) ?_ run fun _ => ?_
  · intro trace p e q _ ih taken nothing r inside
    have before := ih fun fix member => nothing fix (List.mem_append_left _ member)
    cases taken with
    | insertFix ahead =>
      rcases Process.mem_storeFix inside with ⟨_, fast⟩ | old
      · exact nothing _ (by simp) fast
      · exact before r old
    | _ => exact before r inside
  · rwa [Process.start_table]

/-- The insertion of a moving fix leaves a row. -/
theorem storeFix_nonempty (db : Database) {fix : Fix} (fast : 5 < fix.speed) :
    ∃ r, r ∈ (Process.storeFix db fix).table := by
  cases inserted : db.table.insert (rowOf fix) with
  | none =>
    obtain ⟨r, inside, _⟩ := OrderedTable.insert_eq_none.mp inserted
    exact ⟨r, Process.subset_storeFix inside⟩
  | some table =>
    refine ⟨rowOf fix, ?_⟩
    rw [Process.storeFix_table, if_pos fast, inserted]
    exact (OrderedTable.mem_insert inserted).mpr (.inl rfl)

/-- What the start answers is right only with the earliest row in front. -/
theorem answersEarliest_start {file : Table} (right : AnswersEarliest (Process.start file)) :
    LeastFirst file ∨ ∀ r, r ∉ file := by
  unfold AnswersEarliest HTTPServer.apiFixFirst at right
  rw [Process.start_firstFix, Process.start_table] at right
  cases found : file.first? with
  | none => exact .inr (OrderedTable.first?_eq_none.mp found)
  | some first =>
    rw [found] at right
    obtain ⟨inside, below⟩ := OrderedTable.first?_eq_some.mp found
    obtain ⟨_, _, _, least⟩ := right
    exact .inl ⟨first, inside, fun x member => ⟨below x member, least x member⟩⟩

/-- **Every state of a run answers the earliest fix exactly when the process
started with the earliest row in front, or on an empty table that nothing was
stored in.** -/
theorem answersEarliest_iff (file : Table) (trace : List Event) (p : Process)
    (run : Run Process.Step (Process.start file) trace p) :
    (∀ earlier later q, trace = earlier ++ later → Run Process.Step (Process.start file) earlier q →
      Run Process.Step q later p → AnswersEarliest q) ↔
      LeastFirst file ∨ (∀ r, r ∉ file) ∧ NothingStored trace := by
  constructor
  · intro right
    rcases answersEarliest_start (right [] trace _ rfl (.refl _) run) with least | empty
    · exact .inl least
    · refine .inr ⟨empty, fun fix stored fast => ?_⟩
      obtain ⟨earlier, later, rfl⟩ := List.append_of_mem stored
      obtain ⟨m, before, after⟩ := run.split
      obtain ⟨q, inserted, rest⟩ := after.first
      have reached := before.snoc inserted
      have here := right (earlier ++ [.insertFix fix]) later q (by simp) reached rest
      unfold AnswersEarliest HTTPServer.apiFixFirst at here
      rw [firstFix_run reached, OrderedTable.first?_eq_none.mpr empty] at here
      cases inserted with
      | insertFix ahead =>
        obtain ⟨r, inside⟩ := storeFix_nonempty m.db fast
        exact here r inside
  · rintro (⟨first, inside, least⟩ | ⟨empty, nothing⟩) earlier later q rfl reached _
    · have start := Earliest.start inside least
      exact (reached.invariant (Earliest first) (fun _ _ _ h taken => h.step taken) start).answers
    · unfold AnswersEarliest HTTPServer.apiFixFirst
      rw [firstFix_run reached, OrderedTable.first?_eq_none.mpr empty]
      exact empty_run empty reached fun fix stored => nothing fix (List.mem_append_left _ stored)

/-- A file with one row. -/
def storedOnce : Table := (Process.storeFix (Process.start .empty).db ⟨5, 0, 0, 10⟩).table

theorem leastFirst_storedOnce : LeastFirst storedOnce := by
  obtain ⟨r, inside⟩ := storeFix_nonempty (Process.start .empty).db (by decide : 5 < (⟨5, 0, 0, 10⟩ : Fix).speed)
  refine ⟨r, inside, fun x there => ?_⟩
  rw [mem_storedOnce inside, mem_storedOnce there]
  exact ⟨Int.le_refl _, BitVec.le_refl _⟩

/-- After a fix too slow to be stored the empty table is still answered with 404, and
after a newer one the row in front with its fix. -/
theorem answersEarliest_slow :
    AnswersEarliest ⟨Process.storeFix (Process.start .empty).db ⟨7, 0, 0, 3⟩, some ⟨7, 0, 0, 3⟩,
      (Process.start .empty).server.updateFix ⟨7, 0, 0, 3⟩, .idle⟩ ∧
    AnswersEarliest ⟨Process.storeFix (Process.start storedOnce).db ⟨7, 0, 0, 10⟩, some ⟨7, 0, 0, 10⟩,
      (Process.start storedOnce).server.updateFix ⟨7, 0, 0, 10⟩, .idle⟩ := by
  constructor
  · have run := Process.accepted_run (.start .empty) ⟨7, 0, 0, 3⟩ rfl rfl
    refine (answersEarliest_iff .empty _ _ run).mpr (.inr ⟨fun r => OrderedTable.not_mem_empty, ?_⟩)
      _ [] _ (List.append_nil _).symm run (.refl _)
    intro fix stored
    simp only [List.mem_cons, Event.insertFix.injEq, List.not_mem_nil, reduceCtorEq, false_or,
      or_false] at stored
    rw [stored]
    decide
  · have run := Process.accepted_run (.start storedOnce) ⟨7, 0, 0, 10⟩ rfl (by decide)
    exact (answersEarliest_iff storedOnce _ _ run).mpr (.inl leastFirst_storedOnce)
      _ [] _ (List.append_nil _).symm run (.refl _)

/-- After the first moving fix it is still answered with 404. -/
theorem not_answersEarliest : ¬ ∀ file trace p, Run Process.Step (Process.start file) trace p →
    AnswersEarliest p := by
  intro always
  have run := Process.accepted_run (.start .empty) ⟨7, 0, 0, 10⟩ rfl rfl
  obtain ⟨r, inside⟩ := storeFix_nonempty (Process.start .empty).db
    (by decide : 5 < (⟨7, 0, 0, 10⟩ : Fix).speed)
  exact always _ _ _ run r inside

/-- Among the rows this server writes, that is a table with timestamps on one
side of 2^31. -/
theorem leastFirst_iff_oneHalf {file : Table} (built : Built file) {r : ZouiRow} (inside : r ∈ file) :
    LeastFirst file ↔ OneHalf file := by
  constructor
  · rintro ⟨first, stored, least⟩ a ha b hb up
    by_contra down
    obtain ⟨signed, unsigned⟩ := least a ha
    obtain ⟨signed', unsigned'⟩ := least b hb
    rw [built first stored, built a ha] at signed
    have below := (key_lt_of_upper up down).2
    by_cases high : Upper first.fix.timestamp
    · have under := (key_lt_of_upper high down).2
      rw [BitVec.lt_def] at under
      rw [BitVec.le_def] at unsigned'
      omega
    · have above := (key_lt_of_upper up high).1
      omega
  · intro one
    cases found : file.first? with
    | none => exact (OrderedTable.first?_eq_none.mp found r inside).elim
    | some first =>
      obtain ⟨stored, below⟩ := OrderedTable.first?_eq_some.mp found
      refine ⟨first, stored, fun x member => ⟨below x member, ?_⟩⟩
      have signed := below x member
      rw [built first stored, built x member] at signed
      exact (key_le_iff (one.same stored member)).mp signed

end Zouipocar
