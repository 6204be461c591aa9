import Zouipocar.Lib.SharedObject
import Zouipocar.Server.RoundTrip

/-!
# Concurrent handlers

The HTTP server answers requests from a pool of threads. Every `/api/fix`
handler works on one shared prepared statement, and so does every `/api/range`
handler, without a lock. A handler is cut into its calls of SQLite, each of
them atomic.

Handlers whose calls on a statement do not interleave answer what they answer
alone. A handler that begins while another has stepped the statement and not
reset it is refused its first bind and answers as if nothing were stored.
-/

namespace Zouipocar
set_option autoImplicit false
open Lib Lib.Sqlite SQLiteStatement

/-- A request that reaches the database, with its parsed arguments. -/
inductive Request
  | fix (date : BitVec 32)
  | range (start stop : BitVec 32)

/-- How `Database::get_fix` and `Database::get_fix_range` end. -/
inductive Answer
  | fix (found : Option Fix)
  | range (fixes : List Fix)
  | badAlloc
deriving DecidableEq

def Answer.ofRange : Except BadAlloc (List Fix) → Answer
  | .ok fixes => .range fixes
  | .error _ => .badAlloc

/-- The call a handler makes next, with what it holds by then. -/
inductive Handler
  | bindDate (date : BitVec 32)
  | step
  | column (res : Code) (read : List Value)
  | reset (res : Code) (fix : Fix)
  | bindStart (start stop : BitVec 32)
  | bindStop (start stop : BitVec 32)
  | stepRange (ret : List Fix)
  | columnRange (ret : List Fix) (read : List Value)
  | resetRange (ret : List Fix)

namespace Handler

/-- The columns in the order `fix_from_statement` reads them. -/
def columnOrder : List Nat := [0, 2, 3, 1]

/-- One more column of the current row. -/
def readColumn (read : List Value) (stmt : Stmt) : List Value :=
  read ++ [stmt.column (columnOrder.getD read.length 0)]

/-- `fix_from_statement` once all its columns are read. -/
def fixOfRead (read : List Value) : Fix where
  timestamp := (read.getD 0 .null).toInt
  latitude := doubleToFloat (read.getD 1 .null).toDouble
  longitude := doubleToFloat (read.getD 2 .null).toDouble
  speed := (read.getD 3 .null).toInt.truncate 8

/-- One call of SQLite on the shared statement. The two queries change nothing
in the table. -/
def access (table : Table) (memory : Memory) : Handler → Stmt → (Handler ⊕ Answer) × Stmt
  | .bindDate date, stmt =>
    match bindArg stmt 1 (.uint32 date) with
    | (false, stmt) => (.inr (.fix none), stmt)
    | (true, stmt) => (.inl .step, stmt)
  | .step, stmt =>
    let (res, stmt, _) := stmt.step selectFix table
    (.inl (.column res []), stmt)
  | .column res read, stmt =>
    let read := readColumn read stmt
    (.inl (if read.length < columnOrder.length then .column res read else .reset res (fixOfRead read)),
      stmt)
  | .reset res fix, stmt => (.inr (.fix (if res ≠ .row then none else some fix)), stmt.reset)
  | .bindStart start stop, stmt =>
    match bindArg stmt 1 (.uint32 start) with
    | (false, stmt) => (.inr (.range []), stmt)
    | (true, stmt) => (.inl (.bindStop start stop), stmt)
  | .bindStop start stop, stmt =>
    match bindArg stmt 2 (.uint32 stop) with
    | (false, stmt) => (.inr (.range []), stmt)
    | (true, stmt) => (if memory.Reserves (stop - start) then .inl (.stepRange []) else .inr .badAlloc, stmt)
  | .stepRange ret, stmt =>
    let (res, stmt, _) := stmt.step selectRange table
    (.inl (if res = .row then .columnRange ret [] else .resetRange ret), stmt)
  | .columnRange ret read, stmt =>
    let read := readColumn read stmt
    (.inl (if read.length < columnOrder.length then .columnRange ret read
      else .stepRange (ret ++ [fixOfRead read])), stmt)
  | .resetRange ret, stmt => (.inr (.range ret), stmt.reset)

end Handler

namespace Request

/-- The statement the handler shares with all others of its kind. -/
def statement : Request → Statements
  | .fix _ => .getFix
  | .range _ _ => .getFixRange

def handler (table : Table) (memory : Memory) (request : Request) : Client Stmt Handler Answer where
  init := match request with
    | .fix date => .bindDate date
    | .range start stop => .bindStart start stop
  access := Handler.access table memory

/-- The answer of a handler that runs alone: the one of the sequential call. -/
def alone (db : Database) (memory : Memory) : Request → Answer
  | .fix date => .fix (db.getFix date).1
  | .range start stop => .ofRange (db.getFixRange memory start stop).1

/-- The answer when there is nothing to return. -/
def nothing : Request → Answer
  | .fix _ => .fix none
  | .range _ _ => .range []

end Request

/-- The handlers of a server, each of its request, and the shared statements. -/
abbrev Serving (ι : Type) := Shared Statements ι Stmt Handler Answer

namespace Serving

-- each handler finds the memory it finds
variable {ι : Type} [DecidableEq ι] (db : Database) (memory : ι → Memory) (request : ι → Request)

def start : Serving ι := ⟨db.prepared, fun _ => .waiting⟩

/-- Some handler makes its next call. -/
def Step : Serving ι → ι → Serving ι → Prop :=
  Shared.Step (fun i => (request i).statement) fun i => (request i).handler db.table (memory i)

/-- A call that is no handler's first while another is between its first and
its last call on the same statement. -/
def ExclusiveStep : Serving ι → ι → Serving ι → Prop :=
  Shared.ExclusiveStep (fun i => (request i).statement) fun i => (request i).handler db.table (memory i)

end Serving

/-! ## A handler alone -/

namespace Handler

variable {table : Table} {memory : Memory} {stmt o : Stmt} {answer : Answer} {request : Request}

/-- The four column reads of `/api/fix`. -/
theorem finishes_column {res : Code}
    (h : (request.handler table memory).Finishes (.reset res (fixFromStatement stmt)) stmt answer o) :
    (request.handler table memory).Finishes (.column res []) stmt answer o :=
  .access rfl (.access rfl (.access rfl (.access rfl h)))

/-- The four column reads for one row of `/api/range`. -/
theorem finishes_columnRange {ret : List Fix}
    (h : (request.handler table memory).Finishes (.stepRange (ret ++ [fixFromStatement stmt])) stmt answer o) :
    (request.handler table memory).Finishes (.columnRange ret []) stmt answer o :=
  .access rfl (.access rfl (.access rfl (.access rfl h)))

/-- Reading a range leaves the table as it is. -/
theorem step_selectRange (stmt : Stmt) (w : Table) : (stmt.step selectRange w).2.2 = w := by
  rw [Stmt.step_eq]
  unfold Stmt.after
  split
  · rfl
  · unfold selectRange
    split <;> rfl

/-- Alone, the calls of `/api/fix` are those of `get_fix`. -/
theorem finishes_fix (date : BitVec 32) (ready : stmt.IsReset) :
    ((Request.fix date).handler table memory).Finishes (.bindDate date) stmt
      (.fix (getFixOn selectFix date stmt table).1) (getFixOn selectFix date stmt table).2.1 := by
  have bound : ((Request.fix date).handler table memory).access (.bindDate date) stmt =
      (.inl .step, ⟨boundParams stmt.params [(1, .uint32 date)], .reset⟩) := by
    simp only [Request.handler, access, bindArg_of_isReset ready]
    rfl
  simp only [getFixOn, bindArgs_of_isReset ready]
  exact .access bound (.access rfl (finishes_column (.last rfl)))

/-- What `get_fix_range` does with every row. -/
abbrev push (ret : List Fix) (stmt : Stmt) : List Fix := ret ++ [fixFromStatement stmt]

/-- Alone, the loop of `/api/range` is `step_until_done`. -/
theorem finishes_stepRange (ret : List Fix) (count : Nat) :
    (request.handler table memory).Finishes (.stepRange ret) stmt
      (.range (stepLoop selectRange push stmt table ret count).2.1)
      (stepLoop selectRange push stmt table ret count).2.2.1.reset := by
  generalize here : table = w
  induction stmt, w, ret, count using stepLoop.induct selectRange push with
  | case1 stmt w ret count more ih =>
    have kept : (stmt.step selectRange w).2.2 = w := step_selectRange stmt w
    rw [kept] at ih
    rw [stepLoop, dif_pos more, kept]
    have row : ((request.handler w memory).access (.stepRange ret) stmt).1 = .inl (.columnRange ret []) := by
      simp only [Request.handler, access, more, if_true]
    exact .access (Prod.ext row rfl) (finishes_columnRange (ih here))
  | case2 stmt w ret count done =>
    rw [stepLoop, dif_neg done]
    have last : ((request.handler w memory).access (.stepRange ret) stmt).1 = .inl (.resetRange ret) := by
      simp only [Request.handler, access, done, if_false]
    exact .access (Prod.ext last rfl) (.last rfl)

/-- Alone, the calls of `/api/range` are those of `get_fix_range`. -/
theorem finishes_range (start stop : BitVec 32) (ready : stmt.IsReset) :
    ((Request.range start stop).handler table memory).Finishes (.bindStart start stop) stmt
      (.ofRange (getFixRangeOn selectRange memory start stop stmt table).1)
      (getFixRangeOn selectRange memory start stop stmt table).2.1 := by
  have first : ((Request.range start stop).handler table memory).access (.bindStart start stop) stmt =
      (.inl (.bindStop start stop), ⟨boundParams stmt.params [(1, .uint32 start)], .reset⟩) := by
    simp only [Request.handler, access, bindArg_of_isReset ready]
    rfl
  have second : ((Request.range start stop).handler table memory).access (.bindStop start stop)
        ⟨boundParams stmt.params [(1, .uint32 start)], .reset⟩ =
      (if memory.Reserves (stop - start) then .inl (.stepRange []) else .inr .badAlloc,
        ⟨boundParams stmt.params [(1, .uint32 start), (2, .uint32 stop)], .reset⟩) := by
    simp only [Request.handler, access, bindArg_of_isReset (Stmt.isReset_mk _)]
    rfl
  simp only [getFixRangeOn, bindArgs_of_isReset ready]
  by_cases reserves : memory.Reserves (stop - start)
  · rw [if_pos reserves] at second ⊢
    exact .access first (.access second (finishes_stepRange [] 0))
  · rw [if_neg reserves] at second ⊢
    exact .access first (.last second)

end Handler

/-- **Alone, a handler ends, answers what the sequential call answers and leaves
the statement reset.** -/
theorem Request.finishes (db : Database) (memory : Memory) (request : Request) {stmt : Stmt}
    (ready : stmt.IsReset) : ∃ o, o.IsReset ∧ (request.handler db.table memory).Finishes
      (request.handler db.table memory).init stmt (request.alone db memory) o := by
  -- as the answer is the one of any database over this table and this statement
  let here : Database := ⟨db.table, fun _ => stmt, fun _ => ready⟩
  cases request with
  | fix date =>
    refine ⟨_, getFixOn_isReset selectFix date ready db.table, ?_⟩
    have same : (here.getFix date).1 = (db.getFix date).1 := by
      rw [(here.getFix_eq date).1, (db.getFix_eq date).1]
    rw [alone, ← same]
    exact Handler.finishes_fix date ready
  | range start stop =>
    refine ⟨_, getFixRangeOn_isReset selectRange memory start stop ready db.table, ?_⟩
    have same : (here.getFixRange memory start stop).1 = (db.getFixRange memory start stop).1 := by
      rw [(here.getFixRange_eq memory start stop).1, (db.getFixRange_eq memory start stop).1]
    rw [alone, ← same]
    exact Handler.finishes_range start stop ready

/-- A first bind that is refused ends the handler. -/
theorem Request.access_busy {table : Table} {memory : Memory} {request : Request} {stmt : Stmt}
    (busy : ¬ stmt.IsReset) :
    (request.handler table memory).access (request.handler table memory).init stmt = (.inr request.nothing, stmt) := by
  cases request <;> simp only [handler, Handler.access, bindArg_of_not_isReset busy, nothing]

/-! ## Handlers together -/

namespace Serving

variable {ι : Type} [DecidableEq ι] {db : Database} {memory : ι → Memory} {request : ι → Request}

/-- A handler that begins on a statement that is not reset answers nothing. -/
theorem begins_busy {s t : Serving ι} {i : ι} (begins : s.phase i = .waiting)
    (busy : ¬ (s.object (request i).statement).IsReset) (taken : Step db memory request s i t) :
    t.phase i = .returned (request i).nothing := by
  obtain ⟨l, out, o, next, access, rfl⟩ := Shared.step_iff.mp taken
  rw [begins] at next
  obtain rfl := Option.some.inj next
  rw [Request.access_busy busy] at access
  rw [Shared.put_phase, ← (Prod.mk.inj access).1]
  rfl

/-- **Handlers whose calls on a statement do not interleave answer what they
answer alone.** -/
theorem exclusive_answers (db : Database) (memory : ι → Memory) (request : ι → Request) (trace : List ι)
    (s : Serving ι) (run : Run (ExclusiveStep db memory request) (start db) trace s) :
    ∀ i answer, s.phase i = .returned answer → answer = (request i).alone db (memory i) := by
  have finishes : ∀ i o, o.IsReset → ∃ o', o'.IsReset ∧ ((request i).handler db.table (memory i)).Finishes
      ((request i).handler db.table (memory i)).init o ((request i).alone db (memory i)) o' :=
    fun i _ ready => (request i).finishes db (memory i) ready
  exact Shared.Run.exclusive finishes run db.ready fun _ => rfl

/-- Two handlers of one statement, one after the other. -/
theorem exclusive_answers_stored :
    ∃ (trace : List Bool) (s : Serving Bool),
      Run (ExclusiveStep (Database.fresh.insertAll [⟨7, 0, 0, 10⟩, ⟨8, 0, 0, 20⟩]) (fun _ _ => true)
        fun i => .fix (if i then 8 else 7)) (start (Database.fresh.insertAll [⟨7, 0, 0, 10⟩, ⟨8, 0, 0, 20⟩]))
        trace s ∧
      s.phase false = .returned (.fix (some ⟨7, 0, 0, 10⟩)) ∧
      s.phase true = .returned (.fix (some ⟨8, 0, 0, 20⟩)) := by
  let db := Database.fresh.insertAll [⟨7, 0, 0, 10⟩, ⟨8, 0, 0, 20⟩]
  let memory : Bool → Memory := fun _ _ => true
  let request : Bool → Request := fun i => .fix (if i then 8 else 7)
  let on : Bool → Statements := fun i => (request i).statement
  let client : Bool → Client Stmt Handler Answer := fun i => (request i).handler db.table (memory i)
  have finished : ∃ answer answer' trace s, Run (ExclusiveStep db memory request) (start db) trace s ∧
      s.phase false = .returned answer ∧ s.phase true = .returned answer' := by
    obtain ⟨o, ready, finish⟩ := (request false).finishes db (memory false) (db.ready .getFix)
    obtain ⟨first, s, run, done, left, others⟩ :=
      @Shared.finish_run _ _ _ _ _ (start db) false on client _ _ _ _ _ _ finish rfl rfl
        fun _ _ _ active => nomatch active
    have idle : ∀ j, ¬ (s.phase j).Active := by
      rintro j ⟨l, active⟩
      cases j with
      | false =>
        rw [done] at active
        cases active
      | true =>
        rw [others true (by decide)] at active
        cases active
    obtain ⟨o', -, finish'⟩ := (request true).finishes db (memory true) ready
    obtain ⟨second, t, run', done', -, others'⟩ :=
      @Shared.finish_run _ _ _ _ _ s true on client _ _ _ _ _ _ finish'
        (by rw [others true (by decide)]; rfl) left fun _ j _ => idle j
    exact ⟨_, _, _, t, run.trans run', (others' false (by decide)).trans done, done'⟩
  obtain ⟨answer, answer', trace, s, run, done, done'⟩ := finished
  have found : (request false).alone db (memory false) = .fix (some ⟨7, 0, 0, 10⟩) := by decide
  have found' : (request true).alone db (memory true) = .fix (some ⟨8, 0, 0, 20⟩) := by decide
  have alone := exclusive_answers db memory request trace s run
  refine ⟨trace, s, run, ?_, ?_⟩
  · rw [done, alone false answer done, found]
  · rw [done', alone true answer' done', found']

/-- A handler begins when another has stepped the statement, and misses the fix. -/
theorem not_answers_alone :
    ¬ ∀ (ι : Type) [DecidableEq ι] (db : Database) (memory : ι → Memory) (request : ι → Request)
      (trace : List ι) (s : Serving ι), Run (Step db memory request) (start db) trace s →
      ∀ i answer, s.phase i = .returned answer → answer = (request i).alone db (memory i) := by
  intro always
  let db := Database.fresh.insertAll [⟨7, 0, 0, 10⟩]
  let memory : Bool → Memory := fun _ _ => true
  let move : Serving Bool → Bool → Option (Serving Bool) :=
    Shared.move (fun _ => .getFix) fun i => (Request.fix 7).handler db.table (memory i)
  have moved : [false, false, true].foldlM move (start db) = some _ := rfl
  have run := Run.of_foldlM moved
  have answer := always Bool _ memory (fun _ => .fix 7) _ _ run true (.fix none) rfl
  revert answer
  decide

end Serving

end Zouipocar
