import Zouipocar.Lib.Ieee
import Mathlib.Logic.Function.Basic

/-!
# SQLite's prepared statements

The C interface a client sees: values with their conversions, result codes and
a prepared statement, which is a small state machine with bound parameters and
a cursor. What an execution yields is left to an `Engine`: it turns the bound
parameters and the database into a `Scan`, the rows the cursor will visit and
the code that ends them.
-/

namespace Lib.Sqlite

/-- The primary result codes. -/
inductive Code
  | ok | error | internal | perm | abort | busy | locked | nomem | readonly | interrupt | ioerr
  | corrupt | notfound | full | cantopen | protocol | empty | schema | toobig | constraint
  | mismatch | misuse | nolfs | auth | format | range | notadb | notice | warning | row | done
deriving DecidableEq, Repr

/-- A cell of a row or a bound parameter. Texts and blobs are left out. -/
inductive Value
  | null
  | integer (v : BitVec 64)
  | real (d : BitVec 64)
deriving DecidableEq, Repr

/-- `sqlite3_bind_int`: a signed 32-bit argument becomes a 64-bit integer. -/
def Value.ofInt (arg : BitVec 32) : Value := .integer (arg.signExtend 64)

/-- `sqlite3_bind_double`: a NaN becomes NULL. -/
def Value.ofDouble (arg : BitVec 64) : Value :=
  if doubleIsNaN arg then .null else .real arg

/-- `sqlite3_column_int`: the low 32 bits of the value as a 64-bit integer. -/
def Value.toInt : Value → BitVec 32
  | .null => 0
  | .integer v => v.truncate 32
  | .real d =>
    BitVec.ofInt 32 (FloatFormat.truncate (-2 ^ 63) (2 ^ 63 - 1) (FloatFormat.binary64.decode d.toNat))

/-- `sqlite3_column_double`: the value as a double. -/
def Value.toDouble : Value → BitVec 64
  | .null => 0
  | .integer v => BitVec.ofNat 64 (FloatFormat.binary64.encode (FloatFormat.ofInt v.toInt))
  | .real d => d

abbrev Row := List Value

abbrev Params := Nat → Value

/-- What one execution of a statement yields: its rows, then the code that ends it. -/
structure Scan where
  rows : List Row
  final : Code
  ends : final ≠ .row

/-- A scan that reaches its end. -/
def Scan.complete (rows : List Row) : Scan := ⟨rows, .done, by decide⟩

/-- How the database answers an execution, and what it changes. -/
abbrev Engine (W : Type) := Params → W → Scan × W

inductive Cursor
  | reset
  | row (current : Row) (rest : Scan)
  | halted

/-- A prepared statement. -/
structure Stmt where
  params : Params
  cursor : Cursor

namespace Stmt

variable {W : Type}

/-- The state `sqlite3_prepare_v2` leaves: nothing bound, not started. -/
def prepared : Stmt := ⟨fun _ => .null, .reset⟩

/-- `sqlite3_bind_*` is refused while the statement is not reset. -/
def bind (stmt : Stmt) (index : Nat) (v : Value) : Code × Stmt :=
  match stmt.cursor with
  | .reset => (.ok, { stmt with params := Function.update stmt.params index v })
  | _ => (.misuse, stmt)

/-- Move the cursor to the next row of a scan, or to its end. -/
def advance (stmt : Stmt) (scan : Scan) : Code × Stmt :=
  match scan.rows with
  | [] => (scan.final, { stmt with cursor := .halted })
  | r :: rest => (.row, { stmt with cursor := .row r { scan with rows := rest } })

/-- `sqlite3_step`: a statement that is not on a row executes from the start. -/
def step (engine : Engine W) (stmt : Stmt) (w : W) : Code × Stmt × W :=
  match stmt.cursor with
  | .row _ rest =>
    let (code, stmt) := stmt.advance rest
    (code, stmt, w)
  | _ =>
    let (scan, w) := engine stmt.params w
    let (code, stmt) := stmt.advance scan
    (code, stmt, w)

/-- The cell `sqlite3_column_*` reads: NULL when there is no current row. -/
def column (stmt : Stmt) (index : Nat) : Value :=
  match stmt.cursor with
  | .row r _ => r.getD index .null
  | _ => .null

/-- `sqlite3_reset`: back to the start, keeping what is bound. -/
def reset (stmt : Stmt) : Stmt := { stmt with cursor := .reset }

/-- The statement is ready to be bound. -/
def IsReset (stmt : Stmt) : Prop := stmt.cursor = .reset

@[simp] theorem reset_isReset (stmt : Stmt) : stmt.reset.IsReset := rfl

@[simp] theorem isReset_mk (params : Params) : IsReset ⟨params, .reset⟩ := rfl

theorem bind_of_isReset {stmt : Stmt} (ready : stmt.IsReset) (index : Nat) (v : Value) :
    stmt.bind index v = (.ok, ⟨Function.update stmt.params index v, .reset⟩) := by
  cases stmt
  cases ready
  rfl

theorem bind_of_not_isReset {stmt : Stmt} (active : ¬ stmt.IsReset) (index : Nat) (v : Value) :
    stmt.bind index v = (.misuse, stmt) := by
  unfold bind
  split
  · rename_i ready
    exact (active ready).elim
  · rfl

/-- The rows still ahead of the cursor, were the statement stepped on `w`. -/
def ahead (engine : Engine W) (stmt : Stmt) (w : W) : Scan :=
  match stmt.cursor with
  | .row _ rest => rest
  | _ => (engine stmt.params w).1

/-- The database after the next step. -/
def after (engine : Engine W) (stmt : Stmt) (w : W) : W :=
  match stmt.cursor with
  | .row _ _ => w
  | _ => (engine stmt.params w).2

@[simp] theorem ahead_row (engine : Engine W) (params : Params) (r : Row) (rest : Scan) (w : W) :
    ahead engine ⟨params, .row r rest⟩ w = rest := rfl

theorem ahead_of_isReset {stmt : Stmt} (ready : stmt.IsReset) (engine : Engine W) (w : W) :
    stmt.ahead engine w = (engine stmt.params w).1 := by
  rw [ahead, ready]

theorem after_of_isReset {stmt : Stmt} (ready : stmt.IsReset) (engine : Engine W) (w : W) :
    stmt.after engine w = (engine stmt.params w).2 := by
  rw [after, ready]

/-- A step moves the cursor over the rows ahead. -/
theorem step_eq (engine : Engine W) (stmt : Stmt) (w : W) :
    stmt.step engine w =
      ((stmt.advance (stmt.ahead engine w)).1, (stmt.advance (stmt.ahead engine w)).2,
        stmt.after engine w) := by
  obtain ⟨params, cursor⟩ := stmt
  cases cursor <;> rfl

theorem advance_nil {stmt : Stmt} {scan : Scan} (empty : scan.rows = []) :
    stmt.advance scan = (scan.final, ⟨stmt.params, .halted⟩) := by
  simp only [advance, empty]

theorem advance_cons {stmt : Stmt} {scan : Scan} {r : Row} {rest : List Row}
    (cons : scan.rows = r :: rest) :
    stmt.advance scan = (.row, ⟨stmt.params, .row r { scan with rows := rest }⟩) := by
  simp only [advance, cons]

/-- The cursor reports a row exactly when one is ahead. -/
theorem advance_row_iff {stmt : Stmt} {scan : Scan} :
    (stmt.advance scan).1 = .row ↔ scan.rows ≠ [] := by
  cases rows : scan.rows with
  | nil => simp [advance_nil rows, scan.ends]
  | cons r rest => simp [advance_cons rows]

end Stmt

end Lib.Sqlite
