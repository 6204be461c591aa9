import Zouipocar.Lib.Transition
import Zouipocar.Server.RoundTrip

/-!
# The server process

`main` opens the database, keeps its own copy of the last fix, constructs the
HTTP server (which caches the first and the last fix) and then runs two
threads: the UDP listener, which delivers fixes to the callback one after the
other, and the HTTP server. The callback is cut into its four steps (guard,
`update_fix`, speed test with `insert_fix`, assignment of `last_fix`), and the
cached answers of the HTTP server may be read between any two of them.

Around a process the file remains: processes start on it and stop at any time.
-/

namespace Zouipocar
set_option autoImplicit false
open Lib

/-- The fixes `HTTPServer` caches. -/
structure HTTPServer where
  firstFix : Option Fix
  lastFix : Option Fix

namespace HTTPServer

/-- The constructor reads both from the database. -/
def new (db : Database) : HTTPServer × Database :=
  let (firstFix, db) := db.getFirstFix
  let (lastFix, db) := db.getLastFix
  (⟨firstFix, lastFix⟩, db)

def updateFix (server : HTTPServer) (fix : Fix) : HTTPServer := { server with lastFix := some fix }

/-- What `/api/fix/first` answers; `none` is the 404. -/
def apiFixFirst (server : HTTPServer) : Option Fix := server.firstFix

/-- What `/api/fix/last` answers; `none` is the 404. -/
def apiFixLast (server : HTTPServer) : Option Fix := server.lastFix

end HTTPServer

/-- Where the callback of the UDP listener stands. -/
inductive Callback
  | idle
  | updateFix (fix : Fix)
  | insertFix (fix : Fix)
  | assign (fix : Fix)

structure Process where
  db : Database
  lastFix : Option Fix
  server : HTTPServer
  callback : Callback

/-- What happens in a running process. -/
inductive Event
  | deliver (fix : Fix)
  | updateFix (fix : Fix)
  | insertFix (fix : Fix)
  | assign (fix : Fix)
  | apiFixFirst (answer : Option Fix)
  | apiFixLast (answer : Option Fix)

namespace Process

/-- `main` up to the listener. -/
def start (file : Table) : Process :=
  let db := Database.open file
  let (lastFix, db) := db.getLastFix
  let (server, db) := HTTPServer.new db
  ⟨db, lastFix, server, .idle⟩

/-- The guard: `last_fix.has_value() && fix.timestamp <= last_fix->timestamp`. -/
def rejects (p : Process) (fix : Fix) : Bool :=
  match p.lastFix with
  | some last => fix.timestamp ≤ last.timestamp
  | none => false

/-- `fix.speed > 5` -/
abbrev Fast (speed : BitVec 8) : Prop := 5 < speed

/-- `if (fix.speed > 5) db.insert_fix(fix);` -/
def storeFix (db : Database) (fix : Fix) : Database :=
  if Fast fix.speed then (db.insertFix fix).2 else db

inductive Step : Process → Event → Process → Prop
  | reject {p : Process} {fix : Fix} : p.callback = .idle → p.rejects fix = true →
      Step p (.deliver fix) p
  | accept {p : Process} {fix : Fix} : p.callback = .idle → p.rejects fix = false →
      Step p (.deliver fix) { p with callback := .updateFix fix }
  | updateFix {p : Process} {fix : Fix} : p.callback = .updateFix fix →
      Step p (.updateFix fix) { p with server := p.server.updateFix fix, callback := .insertFix fix }
  | insertFix {p : Process} {fix : Fix} : p.callback = .insertFix fix →
      Step p (.insertFix fix) { p with db := storeFix p.db fix, callback := .assign fix }
  | assign {p : Process} {fix : Fix} : p.callback = .assign fix →
      Step p (.assign fix) { p with lastFix := some fix, callback := .idle }
  | apiFixFirst {p : Process} : Step p (.apiFixFirst p.server.apiFixFirst) p
  | apiFixLast {p : Process} : Step p (.apiFixLast p.server.apiFixLast) p

/-- The last fix in the database of a file. -/
def lastStored (file : Table) : Option Fix := file.last?.map ZouiRow.fix

theorem start_table (file : Table) : (start file).db.table = file := by
  simp only [start, HTTPServer.new, (Database.getFirstFix_eq _).2, (Database.getLastFix_eq _).2,
    Database.open_table]

/-- Both copies start as the last fix of the file. -/
theorem start_lastFix (file : Table) :
    (start file).lastFix = lastStored file ∧ (start file).server.lastFix = lastStored file := by
  simp only [start, HTTPServer.new, (Database.getFirstFix_eq _).2, (Database.getLastFix_eq _).1,
    (Database.getLastFix_eq _).2, Database.open_table, lastStored]
  exact ⟨trivial, trivial⟩

@[simp] theorem start_callback (file : Table) : (start file).callback = .idle := rfl

theorem storeFix_table (db : Database) (fix : Fix) :
    (storeFix db fix).table =
      if 5 < fix.speed then (db.table.insert (rowOf fix)).getD db.table else db.table := by
  unfold storeFix
  split
  · exact (db.insertFix_eq fix).2
  · rfl

/-- What the guard lets through is newer than the last fix. -/
theorem newer {p : Process} {fix : Fix} (accepted : p.rejects fix = false) :
    ∀ old, p.lastFix = some old → old.timestamp < fix.timestamp := by
  intro old last
  simp only [rejects, last, decide_eq_false_iff_not, BitVec.not_le] at accepted
  exact accepted

/-- The speed test and the insertion add at most the row of the fix. -/
theorem mem_storeFix {db : Database} {fix : Fix} {r : ZouiRow} (h : r ∈ (storeFix db fix).table) :
    (r = rowOf fix ∧ 5 < fix.speed) ∨ r ∈ db.table := by
  rw [storeFix_table] at h
  split at h
  · rename_i fast
    exact (OrderedTable.insert_subset _ _ h).imp_left fun built => ⟨built, fast⟩
  · exact .inr h

/-- They remove and change nothing. -/
theorem subset_storeFix {db : Database} {fix : Fix} {r : ZouiRow} (h : r ∈ db.table) :
    r ∈ (storeFix db fix).table := by
  rw [storeFix_table]
  split
  · exact OrderedTable.subset_insert _ _ h
  · exact h

end Process

/-! ## Starting and stopping -/

inductive System
  | stopped (file : Table)
  | running (p : Process)

/-- The table in the file. -/
def System.file : System → Table
  | .stopped file => file
  | .running p => p.db.table

inductive SystemEvent
  | start
  | stop
  | event (e : Event)

inductive System.Step : System → SystemEvent → System → Prop
  | start {file : Table} : System.Step (.stopped file) .start (.running (Process.start file))
  | stop {p : Process} : System.Step (.running p) .stop (.stopped p.db.table)
  | event {p q : Process} {e : Event} : Process.Step p e q →
      System.Step (.running p) (.event e) (.running q)

/-- A step of a process lifts to the system. -/
theorem Process.Run.lift {p q : Process} {trace : List Event} (h : Run Process.Step p trace q) :
    Run System.Step (.running p) (trace.map .event) (.running q) := by
  induction h with
  | refl => exact .refl _
  | snoc _ last ih =>
    rw [List.map_append]
    exact ih.snoc (.event last)

/-- The four steps of an accepted fix. -/
theorem Process.accepted_run (p : Process) (fix : Fix) (idle : p.callback = .idle)
    (newer : p.rejects fix = false) :
    Run Process.Step p [.deliver fix, .updateFix fix, .insertFix fix, .assign fix]
      ⟨storeFix p.db fix, some fix, p.server.updateFix fix, .idle⟩ :=
  .cons (.accept idle newer) (.cons (.updateFix rfl) (.cons (.insertFix rfl) (.single (.assign rfl))))

end Zouipocar
