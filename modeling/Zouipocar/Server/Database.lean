import Zouipocar.Common.Fix
import Zouipocar.Lib.OrderedTable
import Zouipocar.Server.SQLiteStatement

/-!
# `Database`

The table `zoui` and the five prepared statements. Each member function of the
class is written twice over the same text: `…On` is the body, over any engine
that answers the statement; the function itself runs it with the engine of the
statement's SQL text. Between calls every statement is reset, which the
structure `Database` carries as a field.
-/

namespace Zouipocar
set_option autoImplicit false
open Lib Lib.Sqlite SQLiteStatement

/-- The keys of `_prepared_statements`. -/
inductive Statements
  | getFix | getFirstFix | getLastFix | getFixRange | insertFix
deriving DecidableEq, Repr

/-- A row of `zoui`, over the columns of `create_table`. -/
structure ZouiRow where
  timestamp : BitVec 64
  speed : Value
  latitude : Value
  longitude : Value
deriving DecidableEq, Repr

/-- What `SELECT *` yields. -/
def ZouiRow.columns (r : ZouiRow) : Row := [.integer r.timestamp, r.speed, r.latitude, r.longitude]

/-- `timestamp INTEGER PRIMARY KEY`: ordered as a signed 64-bit integer. -/
abbrev Table := OrderedTable fun r : ZouiRow => r.timestamp.toInt

/-- A parameter compared with the key; comparing with NULL finds nothing. The
server binds nothing but integers there. -/
def keyParam : Value → Option Int
  | .integer v => some v.toInt
  | _ => none

/-- `SELECT * FROM zoui WHERE timestamp=?;` -/
def selectFix : Engine Table := fun params table =>
  (.complete (((keyParam (params 1)).bind table.find?).toList.map ZouiRow.columns), table)

/-- `SELECT * FROM zoui LIMIT 1;` scans in key order. -/
def selectFirst : Engine Table := fun _ table =>
  (.complete (table.first?.toList.map ZouiRow.columns), table)

/-- `SELECT * FROM zoui ORDER BY timestamp DESC LIMIT 1;` -/
def selectLast : Engine Table := fun _ table =>
  (.complete (table.last?.toList.map ZouiRow.columns), table)

/-- `SELECT * FROM zoui WHERE timestamp BETWEEN ? AND ?;` -/
def selectRange : Engine Table := fun params table =>
  match keyParam (params 1), keyParam (params 2) with
  | some lo, some hi => (.complete ((table.between lo hi).map ZouiRow.columns), table)
  | _, _ => (.complete [], table)

/-- `INSERT INTO zoui VALUES(?, ?, ?, ?);` fails on a key conflict only. -/
def insertRow : Engine Table := fun params table =>
  match params 1 with
  | .integer v =>
    match table.insert ⟨v, params 2, params 3, params 4⟩ with
    | some table => (.complete [], table)
    | none => (⟨[], .constraint, by decide⟩, table)
  | _ => (⟨[], .constraint, by decide⟩, table)

/-- The statements of `prepare_statements`. -/
def prepareStatements : Statements → Engine Table
  | .getFix => selectFix
  | .getFirstFix => selectFirst
  | .getLastFix => selectLast
  | .getFixRange => selectRange
  | .insertFix => insertRow

def fixFromStatement (stmt : Stmt) : Fix where
  timestamp := (stmt.column 0).toInt
  latitude := doubleToFloat (stmt.column 2).toDouble
  longitude := doubleToFloat (stmt.column 3).toDouble
  speed := (stmt.column 1).toInt.truncate 8

/-! ## The bodies, over any engine -/

/-- What `operator new` throws. -/
inductive BadAlloc
  | badAlloc

/-- The blocks that `operator new` has, by their number of bytes. It is asked for
one in `reserve`, whose size the arguments alone decide; what else is allocated is
of the size of data at hand, and taken to be granted. -/
abbrev Memory := Nat → Bool

/-- `reserve(n)` on an empty vector of fixes gets its block, or needs none. -/
def Memory.Reserves (memory : Memory) (n : BitVec 32) : Prop := n = 0 ∨ memory (n.toNat * Fix.size) = true

instance (memory : Memory) (n : BitVec 32) : Decidable (memory.Reserves n) :=
  inferInstanceAs (Decidable (_ ∨ _))

section Bodies

variable {W : Type} (engine : Engine W)

def insertFixOn (fix : Fix) (stmt : Stmt) (w : W) : Bool × Stmt × W :=
  match bindArgs stmt [(1, .uint32 fix.timestamp), (2, .uint8 fix.speed),
      (3, .float fix.latitude), (4, .float fix.longitude)] with
  | (false, stmt) => (false, stmt, w)
  | (true, stmt) =>
    let (res, stmt, w) := stmt.step engine w
    (res == .done, stmt.reset, w)

/-- The part `get_fix`, `get_first_fix` and `get_last_fix` share: one step, the
columns read before its result is looked at, then the reset. -/
def readOne (stmt : Stmt) (w : W) : Option Fix × Stmt × W :=
  let (res, stmt, w) := stmt.step engine w
  let fix := fixFromStatement stmt
  (if res ≠ .row then none else some fix, stmt.reset, w)

def getFixOn (date : BitVec 32) (stmt : Stmt) (w : W) : Option Fix × Stmt × W :=
  match bindArgs stmt [(1, .uint32 date)] with
  | (false, stmt) => (none, stmt, w)
  | (true, stmt) => readOne engine stmt w

def getFirstFixOn (stmt : Stmt) (w : W) : Option Fix × Stmt × W := readOne engine stmt w

def getLastFixOn (stmt : Stmt) (w : W) : Option Fix × Stmt × W := readOne engine stmt w

/-- `end - start` is a `uint32_t`. When `reserve` throws, the statement is bound and
not stepped. -/
def getFixRangeOn (memory : Memory) (start stop : BitVec 32) (stmt : Stmt) (w : W) :
    Except BadAlloc (List Fix) × Stmt × W :=
  match bindArgs stmt [(1, .uint32 start), (2, .uint32 stop)] with
  | (false, stmt) => (.ok [], stmt, w)
  | (true, stmt) =>
    if memory.Reserves (stop - start) then
      let (_, ret, stmt, w) :=
        stepUntilDone engine (fun ret stmt => ret ++ [fixFromStatement stmt]) stmt w []
      (.ok ret, stmt.reset, w)
    else (.error .badAlloc, stmt, w)

theorem insertFixOn_isReset (fix : Fix) {stmt : Stmt} (ready : stmt.IsReset) (w : W) :
    (insertFixOn engine fix stmt w).2.1.IsReset := by
  simp only [insertFixOn, bindArgs_of_isReset ready, Stmt.reset_isReset]

theorem readOne_isReset (stmt : Stmt) (w : W) : (readOne engine stmt w).2.1.IsReset := rfl

theorem getFixOn_isReset (date : BitVec 32) {stmt : Stmt} (ready : stmt.IsReset) (w : W) :
    (getFixOn engine date stmt w).2.1.IsReset := by
  simp only [getFixOn, bindArgs_of_isReset ready, readOne_isReset]

theorem getFixRangeOn_isReset (memory : Memory) (start stop : BitVec 32) {stmt : Stmt} (ready : stmt.IsReset)
    (w : W) : (getFixRangeOn engine memory start stop stmt w).2.1.IsReset := by
  simp only [getFixRangeOn, bindArgs_of_isReset ready]
  split
  · exact Stmt.reset_isReset _
  · exact Stmt.isReset_mk _

end Bodies

/-! ## The class -/

/-- The open database: the table of the file and the prepared statements. -/
structure Database where
  table : Table
  prepared : Statements → Stmt
  ready : ∀ key, (prepared key).IsReset

namespace Database

/-- The constructor: the table of the file (created empty when it is not there)
and freshly prepared statements. -/
def «open» (file : Table) : Database := ⟨file, fun _ => .prepared, fun _ => rfl⟩

/-- A call of one prepared statement. -/
def call {α : Type} (db : Database) (key : Statements)
    (body : Engine Table → Stmt → Table → α × Stmt × Table)
    (resets : ∀ engine stmt table, stmt.IsReset → (body engine stmt table).2.1.IsReset) :
    α × Database :=
  let result := body (prepareStatements key) (db.prepared key) db.table
  (result.1, {
    table := result.2.2
    prepared := Function.update db.prepared key result.2.1
    ready := by
      intro other
      by_cases same : other = key
      · subst same
        rw [Function.update_self]
        exact resets _ _ _ (db.ready other)
      · rw [Function.update_of_ne same]
        exact db.ready other })

def insertFix (db : Database) (fix : Fix) : Bool × Database :=
  db.call .insertFix (fun engine => insertFixOn engine fix)
    fun engine _ table ready => insertFixOn_isReset engine fix ready table

def getFix (db : Database) (date : BitVec 32) : Option Fix × Database :=
  db.call .getFix (fun engine => getFixOn engine date)
    fun engine _ table ready => getFixOn_isReset engine date ready table

def getFirstFix (db : Database) : Option Fix × Database :=
  db.call .getFirstFix getFirstFixOn fun engine stmt table _ => readOne_isReset engine stmt table

def getLastFix (db : Database) : Option Fix × Database :=
  db.call .getLastFix getLastFixOn fun engine stmt table _ => readOne_isReset engine stmt table

def getFixRange (db : Database) (memory : Memory) (start stop : BitVec 32) :
    Except BadAlloc (List Fix) × Database :=
  db.call .getFixRange (fun engine => getFixRangeOn engine memory start stop)
    fun engine _ table ready => getFixRangeOn_isReset engine memory start stop ready table

end Database

/-! ## What the calls do to the table -/

/-- The key a timestamp is stored under: through `int`, signed, to 64 bits. -/
def keyOf (timestamp : BitVec 32) : BitVec 64 := timestamp.signExtend 64

/-- The row `insert_fix` builds. -/
def rowOf (fix : Fix) : ZouiRow where
  timestamp := keyOf fix.timestamp
  speed := .ofInt (fix.speed.zeroExtend 32)
  latitude := .ofDouble (floatToDouble fix.latitude)
  longitude := .ofDouble (floatToDouble fix.longitude)

/-- The fix read from a row. -/
def ZouiRow.fix (r : ZouiRow) : Fix where
  timestamp := r.timestamp.truncate 32
  latitude := doubleToFloat r.latitude.toDouble
  longitude := doubleToFloat r.longitude.toDouble
  speed := r.speed.toInt.truncate 8

/-- `fix_from_statement` on the columns of any row. -/
def fixOfColumns (r : Row) : Fix where
  timestamp := (r.getD 0 .null).toInt
  latitude := doubleToFloat (r.getD 2 .null).toDouble
  longitude := doubleToFloat (r.getD 3 .null).toDouble
  speed := (r.getD 1 .null).toInt.truncate 8

theorem fixFromStatement_row {stmt : Stmt} {r : Row} {rest : Scan} (onRow : stmt.cursor = .row r rest) :
    fixFromStatement stmt = fixOfColumns r := by
  simp only [fixFromStatement, Stmt.column, onRow, fixOfColumns]

/-- One step reads the first row ahead. -/
theorem readOne_eq {W : Type} (engine : Engine W) (stmt : Stmt) (w : W) :
    readOne engine stmt w =
      ((stmt.ahead engine w).rows.head?.map fixOfColumns, ⟨stmt.params, .reset⟩,
        stmt.after engine w) := by
  rw [readOne, Stmt.step_eq]
  cases rows : (stmt.ahead engine w).rows with
  | nil =>
    rw [Stmt.advance_nil rows]
    simp only [ne_eq, (stmt.ahead engine w).ends, not_false_eq_true, if_true]
    rfl
  | cons r rest =>
    rw [Stmt.advance_cons rows]
    simp only [ne_eq, not_true_eq_false, if_false]
    rw [fixFromStatement_row rfl]
    rfl

/-- The push of every row visited. -/
theorem foldl_push (rows : List Row) (acc : List Fix) :
    rows.foldl (fun acc r => acc ++ [fixOfColumns r]) acc = acc ++ rows.map fixOfColumns := by
  induction rows generalizing acc with
  | nil => simp
  | cons r rest ih => rw [List.foldl_cons, ih]; simp

/-- With its memory, the scan visits the rows ahead to the end. -/
theorem getFixRangeOn_eq {W : Type} (engine : Engine W) (memory : Memory) (start stop : BitVec 32) {stmt : Stmt}
    (ready : stmt.IsReset) (w : W) :
    getFixRangeOn engine memory start stop stmt w =
      let params := boundParams stmt.params [(1, .uint32 start), (2, .uint32 stop)]
      if memory.Reserves (stop - start) then
        (.ok ((engine params w).1.rows.map fixOfColumns), ⟨params, .reset⟩, (engine params w).2)
      else (.error .badAlloc, ⟨params, .reset⟩, w) := by
  have reads : ∀ (acc : List Fix) stmt r rest, stmt.cursor = .row r rest →
      acc ++ [fixFromStatement stmt] = acc ++ [fixOfColumns r] := by
    intro acc stmt r rest onRow
    rw [fixFromStatement_row onRow]
  simp only [getFixRangeOn, bindArgs_of_isReset ready, stepUntilDone_eq _ reads,
    Stmt.ahead_of_isReset (Stmt.isReset_mk _), Stmt.after_of_isReset (Stmt.isReset_mk _), foldl_push,
    List.nil_append]
  rfl

/-- The columns of the rows a query selects, read back. -/
theorem map_fixOfColumns (rows : List ZouiRow) :
    (rows.map ZouiRow.columns).map fixOfColumns = rows.map ZouiRow.fix := by
  rw [List.map_map]
  rfl

theorem head?_map_fixOfColumns (o : Option ZouiRow) :
    (o.toList.map ZouiRow.columns).head?.map fixOfColumns = o.map ZouiRow.fix := by
  cases o <;> rfl

namespace Database

variable (db : Database)

@[simp] theorem open_table (file : Table) : («open» file).table = file := rfl

/-- The engine's answer to the four bound members is the insertion of the row built. -/
theorem insertRow_bound (params : Params) (fix : Fix) (table : Table) :
    insertRow (boundParams params [(1, .uint32 fix.timestamp), (2, .uint8 fix.speed),
      (3, .float fix.latitude), (4, .float fix.longitude)]) table =
      match table.insert (rowOf fix) with
      | some table => (.complete [], table)
      | none => (⟨[], .constraint, by decide⟩, table) := by
  simp only [insertRow, boundParams, List.foldl, Function.update, Arg.value, Value.ofInt]
  rfl

theorem insertFix_eq (fix : Fix) :
    (db.insertFix fix).1 = (db.table.insert (rowOf fix)).isSome ∧
      (db.insertFix fix).2.table = (db.table.insert (rowOf fix)).getD db.table := by
  simp only [insertFix, call, insertFixOn, bindArgs_of_isReset (db.ready _), Stmt.step_eq,
    Stmt.ahead_of_isReset (Stmt.isReset_mk _), Stmt.after_of_isReset (Stmt.isReset_mk _),
    prepareStatements, insertRow_bound]
  cases db.table.insert (rowOf fix) <;> exact ⟨rfl, rfl⟩

theorem getFix_eq (date : BitVec 32) :
    (db.getFix date).1 = (db.table.find? (keyOf date).toInt).map ZouiRow.fix ∧
      (db.getFix date).2.table = db.table := by
  simp only [getFix, call, getFixOn, bindArgs_of_isReset (db.ready _), readOne_eq,
    Stmt.ahead_of_isReset (Stmt.isReset_mk _), Stmt.after_of_isReset (Stmt.isReset_mk _),
    prepareStatements, selectFix, Scan.complete, head?_map_fixOfColumns]
  exact ⟨rfl, trivial⟩

theorem getFirstFix_eq :
    (db.getFirstFix).1 = db.table.first?.map ZouiRow.fix ∧ (db.getFirstFix).2.table = db.table := by
  simp only [getFirstFix, call, getFirstFixOn, readOne_eq, Stmt.ahead_of_isReset (db.ready _),
    Stmt.after_of_isReset (db.ready _), prepareStatements, selectFirst, Scan.complete,
    head?_map_fixOfColumns]
  exact ⟨trivial, trivial⟩

theorem getLastFix_eq :
    (db.getLastFix).1 = db.table.last?.map ZouiRow.fix ∧ (db.getLastFix).2.table = db.table := by
  simp only [getLastFix, call, getLastFixOn, readOne_eq, Stmt.ahead_of_isReset (db.ready _),
    Stmt.after_of_isReset (db.ready _), prepareStatements, selectLast, Scan.complete,
    head?_map_fixOfColumns]
  exact ⟨trivial, trivial⟩

theorem getFixRange_eq (memory : Memory) (start stop : BitVec 32) :
    (db.getFixRange memory start stop).1 =
        (if memory.Reserves (stop - start) then
          .ok ((db.table.between (keyOf start).toInt (keyOf stop).toInt).map ZouiRow.fix)
        else .error .badAlloc) ∧
      (db.getFixRange memory start stop).2.table = db.table := by
  simp only [getFixRange, call, getFixRangeOn_eq _ _ _ _ (db.ready _), prepareStatements]
  rw [← map_fixOfColumns]
  split
  · exact ⟨rfl, rfl⟩
  · exact ⟨rfl, rfl⟩

end Database

end Zouipocar
