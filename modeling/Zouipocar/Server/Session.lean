import Zouipocar.Server.Database

/-!
# Calls one after another

The five statements live as long as the process, and every call steps one of
them. Here nothing is assumed of the statements a call finds; each call comes
with the engine that answers it, so SQLite may end an execution with any rows
and any code. A call on a reset statement executes it once, with parameters the
call itself has bound, and leaves it reset; a range query without the memory to
answer it ends before the execution.
-/

namespace Zouipocar
set_option autoImplicit false
open Lib Lib.Sqlite SQLiteStatement

variable {W : Type}

/-- `statements_sources` -/
def Statements.source : Statements → String
  | .getFix => "SELECT * FROM zoui WHERE timestamp=?;"
  | .getFirstFix => "SELECT * FROM zoui LIMIT 1;"
  | .getLastFix => "SELECT * FROM zoui ORDER BY timestamp DESC LIMIT 1;"
  | .getFixRange => "SELECT * FROM zoui WHERE timestamp BETWEEN ? AND ?;"
  | .insertFix => "INSERT INTO zoui VALUES(?, ?, ?, ?);"

/-- The parameters of a statement are numbered from 1 to their count. -/
def Statements.parameters (key : Statements) : Nat := key.source.toList.count '?'

theorem Statements.parameters_eq (key : Statements) :
    key.parameters = match key with
      | .getFix => 1
      | .getFirstFix | .getLastFix => 0
      | .getFixRange => 2
      | .insertFix => 4 := by
  cases key <;> decide

inductive DbCall
  | insertFix (fix : Fix)
  | getFix (date : BitVec 32)
  | getFirstFix
  | getLastFix
  | getFixRange (memory : Memory) (start stop : BitVec 32)

inductive DbReply
  | inserted (done : Bool)
  | fix (found : Option Fix)
  | range (fixes : List Fix)
  | badAlloc

/-- How `get_fix_range` ended. -/
def DbReply.ofRange : Except BadAlloc (List Fix) → DbReply
  | .ok fixes => .range fixes
  | .error _ => .badAlloc

/-- The prepared statements, and what SQLite keeps. -/
structure Session (W : Type) where
  prepared : Statements → Stmt
  world : W

namespace DbCall

/-- The statement a call steps. -/
def statement : DbCall → Statements
  | .insertFix _ => .insertFix
  | .getFix _ => .getFix
  | .getFirstFix => .getFirstFix
  | .getLastFix => .getLastFix
  | .getFixRange .. => .getFixRange

/-- The arguments of a call, under the numbers they are bound to. -/
def args : DbCall → List (Nat × Arg)
  | .insertFix fix =>
    [(1, .uint32 fix.timestamp), (2, .uint8 fix.speed), (3, .float fix.latitude), (4, .float fix.longitude)]
  | .getFix date => [(1, .uint32 date)]
  | .getFirstFix | .getLastFix => []
  | .getFixRange _ start stop => [(1, .uint32 start), (2, .uint32 stop)]

/-- The call ends in an exception. -/
def throws : DbCall → Bool
  | .getFixRange memory start stop => !decide (memory.Reserves (stop - start))
  | _ => false

/-- The body of the function called. -/
def perform (engine : Engine W) : DbCall → Stmt → W → DbReply × Stmt × W
  | .insertFix fix, stmt, w => ((insertFixOn engine fix stmt w).map DbReply.inserted id)
  | .getFix date, stmt, w => (getFixOn engine date stmt w).map DbReply.fix id
  | .getFirstFix, stmt, w => (getFirstFixOn engine stmt w).map DbReply.fix id
  | .getLastFix, stmt, w => (getLastFixOn engine stmt w).map DbReply.fix id
  | .getFixRange memory start stop, stmt, w =>
    (getFixRangeOn engine memory start stop stmt w).map DbReply.ofRange id

/-- What a call makes of its execution. -/
def reply : DbCall → Scan → DbReply
  | .insertFix _, scan => .inserted (scan.rows = [] ∧ scan.final = .done)
  | .getFixRange .., scan => .range (scan.rows.map fixOfColumns)
  | _, scan => .fix (scan.rows.head?.map fixOfColumns)

/-- An insertion succeeds when its one step is the last. -/
theorem insertFixOn_eq (engine : Engine W) (fix : Fix) {stmt : Stmt} (ready : stmt.IsReset) (w : W) :
    insertFixOn engine fix stmt w =
      let params := boundParams stmt.params (args (.insertFix fix))
      (((engine params w).1.rows = [] ∧ (engine params w).1.final = .done : Bool), ⟨params, .reset⟩,
        (engine params w).2) := by
  simp only [insertFixOn, bindArgs_of_isReset ready, Stmt.step_eq,
    Stmt.ahead_of_isReset (Stmt.isReset_mk _), Stmt.after_of_isReset (Stmt.isReset_mk _)]
  rw [show args (.insertFix fix) = [(1, .uint32 fix.timestamp), (2, .uint8 fix.speed),
    (3, .float fix.latitude), (4, .float fix.longitude)] from rfl]
  cases rows : (engine (boundParams stmt.params [(1, .uint32 fix.timestamp), (2, .uint8 fix.speed),
      (3, .float fix.latitude), (4, .float fix.longitude)]) w).1.rows with
  | nil =>
    rw [Stmt.advance_nil rows]
    simp [Stmt.reset, beq_eq_decide]
  | cons r rest =>
    rw [Stmt.advance_cons rows]
    simp [Stmt.reset]

/-- **A call on a reset statement executes it once, with its own arguments bound,
and leaves it reset.** -/
theorem perform_eq (engine : Engine W) (c : DbCall) {stmt : Stmt} (ready : stmt.IsReset) (w : W) :
    c.perform engine stmt w =
      let params := boundParams stmt.params c.args
      if c.throws then (.badAlloc, ⟨params, .reset⟩, w)
      else (c.reply (engine params w).1, ⟨params, .reset⟩, (engine params w).2) := by
  cases c with
  | insertFix fix =>
    rw [perform, insertFixOn_eq engine fix ready]
    rfl
  | getFix date =>
    simp only [perform, getFixOn, bindArgs_of_isReset ready, readOne_eq,
      Stmt.ahead_of_isReset (Stmt.isReset_mk _), Stmt.after_of_isReset (Stmt.isReset_mk _)]
    rfl
  | getFirstFix | getLastFix =>
    simp only [perform, getFirstFixOn, getLastFixOn, readOne_eq, Stmt.ahead_of_isReset ready,
      Stmt.after_of_isReset ready]
    rfl
  | getFixRange memory start stop =>
    rw [perform, getFixRangeOn_eq engine memory start stop ready]
    by_cases reserves : memory.Reserves (stop - start)
    · have returns : throws (.getFixRange memory start stop) = false := by simp [throws, reserves]
      simp only [if_pos reserves, returns]
      rfl
    · have throws : throws (.getFixRange memory start stop) = true := by simp [throws, reserves]
      simp only [if_neg reserves, throws]
      rfl

/-- A call binds every parameter of its statement, each once. -/
theorem args_indices (c : DbCall) : c.args.map Prod.fst = List.range' 1 c.statement.parameters := by
  rw [Statements.parameters_eq]
  cases c <;> rfl

end DbCall

/-! ## What is bound -/

theorem boundParams_of_not_mem {args : List (Nat × Arg)} {index : Nat}
    (other : index ∉ args.map Prod.fst) (params : Params) :
    boundParams params args index = params index := by
  induction args generalizing params with
  | nil => rfl
  | cons a rest ih =>
    rw [List.map_cons, List.mem_cons, not_or] at other
    show boundParams (Function.update params a.1 a.2.value) rest index = _
    rw [ih other.2, Function.update_of_ne other.1]

theorem boundParams_of_mem {args : List (Nat × Arg)} (distinct : (args.map Prod.fst).Nodup) {index : Nat}
    {arg : Arg} (given : (index, arg) ∈ args) (params : Params) :
    boundParams params args index = arg.value := by
  induction args generalizing params with
  | nil => cases given
  | cons a rest ih =>
    rw [List.map_cons, List.nodup_cons] at distinct
    show boundParams (Function.update params a.1 a.2.value) rest index = _
    rcases List.mem_cons.mp given with rfl | given
    · rw [boundParams_of_not_mem distinct.1, Function.update_self]
    · exact ih distinct.2 given _

namespace DbCall

/-- Whatever was bound before, a parameter is the argument of the call. -/
theorem bound (c : DbCall) {index : Nat} (positive : 1 ≤ index) (last : index ≤ c.statement.parameters) :
    ∃ arg, (index, arg) ∈ c.args ∧ ∀ params, boundParams params c.args index = arg.value := by
  have bound : index ∈ c.args.map Prod.fst := by
    rw [args_indices, List.mem_range'_1]
    omega
  obtain ⟨⟨_, arg⟩, given, rfl⟩ := List.mem_map.mp bound
  have distinct : (c.args.map Prod.fst).Nodup := by
    rw [args_indices]
    exact List.nodup_range'
  exact ⟨arg, given, boundParams_of_mem distinct given⟩

end DbCall

/-! ## Sequences of calls -/

namespace Session

/-- After `prepare_statements`. -/
def prepare (world : W) : Session W := ⟨fun _ => .prepared, world⟩

def call (s : Session W) (c : DbCall) (engine : Engine W) : DbReply × Session W :=
  let (reply, stmt, world) := c.perform engine (s.prepared c.statement) s.world
  (reply, ⟨Function.update s.prepared c.statement stmt, world⟩)

/-- Calls in order, each answered by an engine of its own. -/
def after (s : Session W) : List (DbCall × Engine W) → Session W
  | [] => s
  | (c, engine) :: rest => (s.call c engine).2.after rest

end Session

/-- An engine that keeps the parameters of every execution. -/
def recording (engine : Engine W) : Engine (W × List Params) := fun params w =>
  let (scan, world) := engine params w.1
  (scan, world, w.2 ++ [params])

/-- An engine that reads no parameter the statement does not have. -/
def ReadsOnly (key : Statements) (engine : Engine W) : Prop :=
  ∀ params other : Params,
    (∀ index, 1 ≤ index → index ≤ key.parameters → params index = other index) →
      engine params = engine other

/-- What the next call finds is as good as freshly prepared. -/
structure Fresh (s : Session W) : Prop where
  reset : ∀ key, (s.prepared key).IsReset
  /-- No bind is refused. -/
  accepted : ∀ c : DbCall, (bindArgs (s.prepared c.statement) c.args).1 = true
  /-- A call executes its statement once, on arguments of its own, unless it throws before. -/
  executed : ∀ (c : DbCall) (engine : Engine W), ∃ params,
    (c.perform (recording engine) (s.prepared c.statement) (s.world, [])).2.2.2 =
        (if c.throws then [] else [params]) ∧
      ∀ index, 1 ≤ index → index ≤ c.statement.parameters →
        ∃ arg, (index, arg) ∈ c.args ∧ params index = arg.value
  /-- Nothing but what SQLite keeps carries over from the calls before. -/
  alone : ∀ (c : DbCall) (engine : Engine W), ReadsOnly c.statement engine →
    (s.call c engine).1 = ((Session.prepare s.world).call c engine).1 ∧
      (s.call c engine).2.world = ((Session.prepare s.world).call c engine).2.world

namespace Session

/-- Every statement is reset. -/
def AllReset (s : Session W) : Prop := ∀ key, (s.prepared key).IsReset

theorem prepare_allReset (world : W) : (prepare world).AllReset := fun _ => rfl

theorem AllReset.call_eq {s : Session W} (reset : s.AllReset) (c : DbCall) (engine : Engine W) :
    s.call c engine =
      let params := boundParams (s.prepared c.statement).params c.args
      (if c.throws then .badAlloc else c.reply (engine params s.world).1,
        ⟨Function.update s.prepared c.statement ⟨params, .reset⟩,
          if c.throws then s.world else (engine params s.world).2⟩) := by
  rw [call, DbCall.perform_eq engine c (reset _)]
  by_cases throws : c.throws
  · simp only [if_pos throws]
  · simp only [if_neg throws]

/-- **Whatever SQLite answers, a call leaves every statement reset.** -/
theorem AllReset.call {s : Session W} (reset : s.AllReset) (c : DbCall) (engine : Engine W) :
    (s.call c engine).2.AllReset := by
  intro key
  simp only [reset.call_eq]
  by_cases same : key = c.statement
  · subst same
    rw [Function.update_self]
    rfl
  · rw [Function.update_of_ne same]
    exact reset key

theorem AllReset.after {s : Session W} (reset : s.AllReset) (calls : List (DbCall × Engine W)) :
    (s.after calls).AllReset := by
  induction calls generalizing s with
  | nil => exact reset
  | cons e rest ih => exact ih (reset.call e.1 e.2)

theorem AllReset.fresh {s : Session W} (reset : s.AllReset) : Fresh s := by
  constructor
  · exact reset
  · intro c
    rw [bindArgs_of_isReset (reset _)]
  · intro c engine
    refine ⟨boundParams (s.prepared c.statement).params c.args, ?_, ?_⟩
    · rw [DbCall.perform_eq _ c (reset _)]
      by_cases throws : c.throws
      · simp only [if_pos throws]
      · simp only [if_neg throws]
        rfl
    · intro index positive last
      obtain ⟨arg, given, bound⟩ := c.bound positive last
      exact ⟨arg, given, bound _⟩
  · intro c engine reads
    have same : engine (boundParams (s.prepared c.statement).params c.args) =
        engine (boundParams ((prepare s.world).prepared c.statement).params c.args) := by
      apply reads
      intro index positive last
      obtain ⟨arg, -, bound⟩ := c.bound positive last
      rw [bound, bound]
    rw [reset.call_eq, (prepare_allReset s.world).call_eq]
    simp only [same]
    exact ⟨rfl, rfl⟩

end Session

/-- **No call sees a cursor or an argument of an earlier one.** -/
theorem calls_fresh (world : W) (calls : List (DbCall × Engine W)) :
    Fresh ((Session.prepare world).after calls) :=
  ((Session.prepare_allReset world).after calls).fresh

/-! ## The class -/

namespace Database

def session (db : Database) : Session Table := ⟨db.prepared, db.table⟩

/-- A call of a member function. -/
def perform (db : Database) : DbCall → DbReply × Database
  | .insertFix fix => (db.insertFix fix).map .inserted id
  | .getFix date => (db.getFix date).map .fix id
  | .getFirstFix => db.getFirstFix.map .fix id
  | .getLastFix => db.getLastFix.map .fix id
  | .getFixRange memory start stop => (db.getFixRange memory start stop).map .ofRange id

/-- The member functions are the calls answered by the engines of the SQL texts. -/
theorem perform_session (db : Database) (c : DbCall) :
    db.session.call c (prepareStatements c.statement) =
      ((db.perform c).1, (db.perform c).2.session) := by
  cases c <;> rfl

end Database

end Zouipocar
