import Zouipocar.Lib.Sqlite

/-!
# `SQLiteStatement`

The server's wrapper around a prepared statement. `bind_arg` is a template over
the argument's type; its two branches are `sqlite3_bind_int`, which takes a
signed 32-bit integer, and `sqlite3_bind_double`. `step_until_done` runs a
callback on every row; the loop ends because a scan has finitely many rows.
-/

namespace Zouipocar
set_option autoImplicit false
open Lib Lib.Sqlite

/-- The arguments `bind_arg` is instantiated at. -/
inductive Arg
  | uint32 (arg : BitVec 32)
  | uint8 (arg : BitVec 8)
  | float (arg : BitVec 32)

/-- The value bound: an integral argument goes through `int`, a float through `double`. -/
def Arg.value : Arg → Value
  | .uint32 arg => .ofInt arg
  | .uint8 arg => .ofInt (arg.zeroExtend 32)
  | .float arg => .ofDouble (floatToDouble arg)

namespace SQLiteStatement

variable {W β : Type}

def bindArg (stmt : Stmt) (index : Nat) (arg : Arg) : Bool × Stmt :=
  let (res, stmt) := stmt.bind index arg.value
  (res == .ok, stmt)

theorem bindArg_of_isReset {stmt : Stmt} (ready : stmt.IsReset) (index : Nat) (arg : Arg) :
    bindArg stmt index arg = (true, ⟨Function.update stmt.params index arg.value, .reset⟩) := by
  rw [bindArg, Stmt.bind_of_isReset ready]
  rfl

theorem bindArg_of_not_isReset {stmt : Stmt} (active : ¬ stmt.IsReset) (index : Nat) (arg : Arg) :
    bindArg stmt index arg = (false, stmt) := by
  rw [bindArg, Stmt.bind_of_not_isReset active]
  rfl

/-- Binds in order, up to the first that is refused: each caller's chain of
`if (!stmt.bind_arg(index, arg)) return`. -/
def bindArgs (stmt : Stmt) : List (Nat × Arg) → Bool × Stmt
  | [] => (true, stmt)
  | (index, arg) :: rest =>
    match bindArg stmt index arg with
    | (true, stmt) => bindArgs stmt rest
    | (false, stmt) => (false, stmt)

/-- The parameters after every bind went through. -/
def boundParams (params : Params) (args : List (Nat × Arg)) : Params :=
  args.foldl (fun params a => Function.update params a.1 a.2.value) params

/-- A reset statement takes every argument and stays reset. -/
theorem bindArgs_of_isReset {stmt : Stmt} (ready : stmt.IsReset) (args : List (Nat × Arg)) :
    bindArgs stmt args = (true, ⟨boundParams stmt.params args, .reset⟩) := by
  induction args generalizing stmt with
  | nil =>
    cases stmt
    cases ready
    rfl
  | cons a rest ih =>
    simp only [bindArgs, bindArg_of_isReset ready]
    rw [ih (Stmt.isReset_mk _)]
    rfl

/-- A step that reports a row leaves fewer rows ahead. -/
theorem ahead_lt {engine : Engine W} {stmt : Stmt} {w : W}
    (more : (stmt.step engine w).1 = .row) :
    ((stmt.step engine w).2.1.ahead engine (stmt.step engine w).2.2).rows.length <
      (stmt.ahead engine w).rows.length := by
  rw [Stmt.step_eq] at more ⊢
  cases rows : (stmt.ahead engine w).rows with
  | nil => exact (Stmt.advance_row_iff.mp more rows).elim
  | cons r rest => simp only [Stmt.advance_cons rows, Stmt.ahead_row, List.length_cons, Nat.lt_succ_self]

/-- The loop of `step_until_done` with `count` rows behind it. -/
def stepLoop (engine : Engine W) (callback : β → Stmt → β) (stmt : Stmt) (w : W) (acc : β)
    (count : Nat) : Int × β × Stmt × W :=
  if _more : (stmt.step engine w).1 = .row then
    stepLoop engine callback (stmt.step engine w).2.1 (stmt.step engine w).2.2
      (callback acc (stmt.step engine w).2.1) (count + 1)
  else
    (if (stmt.step engine w).1 ≠ .done then -1 else count, acc, (stmt.step engine w).2)
termination_by (stmt.ahead engine w).rows.length
decreasing_by exact ahead_lt _more

/-- The number of rows handed to the callback, or `-1` if an error ended the scan. -/
def stepUntilDone (engine : Engine W) (callback : β → Stmt → β) (stmt : Stmt) (w : W) (acc : β) :
    Int × β × Stmt × W :=
  stepLoop engine callback stmt w acc 0

/-- A callback that looks at nothing but the current row folds over the rows ahead. -/
theorem stepLoop_eq (engine : Engine W) {callback : β → Stmt → β} {f : β → Row → β}
    (reads : ∀ acc stmt r rest, stmt.cursor = .row r rest → callback acc stmt = f acc r) :
    ∀ (rows : List Row) (stmt : Stmt) (w : W) (acc : β) (count : Nat),
      (stmt.ahead engine w).rows = rows →
      stepLoop engine callback stmt w acc count =
        ((if (stmt.ahead engine w).final ≠ .done then -1 else (count + rows.length : Nat) : Int),
          rows.foldl f acc, ⟨stmt.params, .halted⟩, stmt.after engine w) := by
  intro rows
  induction rows with
  | nil =>
    intro stmt w acc count empty
    have stepped : stmt.step engine w =
        ((stmt.ahead engine w).final, ⟨stmt.params, .halted⟩, stmt.after engine w) := by
      rw [Stmt.step_eq, Stmt.advance_nil empty]
    rw [stepLoop, dif_neg (by rw [stepped]; exact (stmt.ahead engine w).ends), stepped]
    rfl
  | cons r rest ih =>
    intro stmt w acc count cons
    have stepped : stmt.step engine w =
        (.row, ⟨stmt.params, .row r { stmt.ahead engine w with rows := rest }⟩,
          stmt.after engine w) := by
      rw [Stmt.step_eq, Stmt.advance_cons cons]
    rw [stepLoop, dif_pos (by rw [stepped]), stepped]
    simp only
    rw [ih _ _ _ _ rfl, reads _ _ _ _ rfl]
    simp [Stmt.ahead, Stmt.after, Nat.add_right_comm, Nat.add_assoc]

theorem stepUntilDone_eq (engine : Engine W) {callback : β → Stmt → β} {f : β → Row → β}
    (reads : ∀ acc stmt r rest, stmt.cursor = .row r rest → callback acc stmt = f acc r)
    (stmt : Stmt) (w : W) (acc : β) :
    stepUntilDone engine callback stmt w acc =
      ((if (stmt.ahead engine w).final ≠ .done then -1 else (stmt.ahead engine w).rows.length : Int),
        (stmt.ahead engine w).rows.foldl f acc, ⟨stmt.params, .halted⟩, stmt.after engine w) := by
  rw [stepUntilDone, stepLoop_eq engine reads _ stmt w acc 0 rfl, Nat.zero_add]

end SQLiteStatement

end Zouipocar
