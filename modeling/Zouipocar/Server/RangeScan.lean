import Zouipocar.Server.Requests

/-!
# Scans cut short

The scan of a range query ends with `SQLITE_DONE`, or earlier with an error
such as `SQLITE_BUSY` or `SQLITE_IOERR`. `step_until_done` tells the two apart
by its result; `get_fix_range` drops that result and returns the fixes read so
far, so what `/api/range` serves does not depend on how the scan ended. Without
memory for the range there is no scan, and the answer is an error.
-/

namespace Zouipocar
set_option autoImplicit false
open Lib Lib.Sqlite SQLiteStatement

variable {W : Type}

/-- The rest of a handler, whatever answers the statements, which are reset. -/
def Outcome.respond (engines : Statements → Engine W) (bound : Statements → Params) (memory : Memory) (w : W) :
    Outcome → HttpResponse
  | .returns response => response
  | .queries (.fix date) => (Answer.fix (getFixOn (engines .getFix) date ⟨bound .getFix, .reset⟩ w).1).response
  | .queries (.range start stop) =>
    (Answer.ofRange
      (getFixRangeOn (engines .getFixRange) memory start stop ⟨bound .getFixRange, .reset⟩ w).1).response

/-- The handlers of the server are those over its own statements. -/
theorem Outcome.complete_eq_respond (db : Database) (memory : Memory) (outcome : Outcome) :
    (outcome.complete db memory).1 =
      outcome.respond prepareStatements (fun key => (db.prepared key).params) memory db.table := by
  have reset : ∀ key, db.prepared key = ⟨(db.prepared key).params, .reset⟩ := by
    intro key
    rw [← show (db.prepared key).cursor = .reset from db.ready key]
  match outcome with
  | .returns _ => rfl
  | .queries (.fix date) =>
    rw [Outcome.respond, ← reset]
    rfl
  | .queries (.range start stop) =>
    rw [Outcome.respond, ← reset]
    rfl

/-- `api_range` gets as far as the database, and asks for this range. -/
def Queried (params : QueryParams) (start stop : BitVec 32) : Prop :=
  ∃ startParam stopParam, params "start" = some startParam ∧ params "stop" = some stopParam ∧
    rangeParams startParam stopParam = .ok (start, stop) ∧ start < stop

theorem apiRange_queried {params : QueryParams} {start stop : BitVec 32}
    (queried : Queried params start stop) : apiRange params = .queries (.range start stop) := by
  obtain ⟨startParam, stopParam, givenStart, givenStop, read, ordered⟩ := queried
  simp only [apiRange, givenStart, givenStop, read]
  rw [if_neg (BitVec.not_le.mpr ordered)]

/-- What is not refused is queried. -/
theorem apiRange_cases (params : QueryParams) :
    (∃ response, apiRange params = .returns response) ∨ ∃ start stop, Queried params start stop := by
  unfold apiRange
  split
  · rename_i startParam stopParam givenStart givenStop
    split
    · exact .inl ⟨_, rfl⟩
    · exact .inl ⟨_, rfl⟩
    · rename_i start stop read
      split
      · exact .inl ⟨_, rfl⟩
      · rename_i ordered
        exact .inr ⟨start, stop, startParam, stopParam, givenStart, givenStop, read, BitVec.not_le.mp ordered⟩
  · exact .inl ⟨_, rfl⟩

/-! ## What is served -/

section

variable (engines : Statements → Engine W) (bound : Statements → Params) (memory : Memory) (w : W)

/-- The scan a range query runs. -/
def rangeScan (start stop : BitVec 32) : Scan :=
  (engines .getFixRange (boundParams (bound .getFixRange) [(1, .uint32 start), (2, .uint32 stop)]) w).1

/-- The answer to a request for a range. -/
def served (params : QueryParams) : HttpResponse := (apiRange params).respond engines bound memory w

/-- A track is served only when the scan of its range reached the end. -/
def ServesComplete (params : QueryParams) : Prop :=
  (served engines bound memory w params).status = 200 →
    ∃ start stop, Queried params start stop ∧ (rangeScan engines bound w start stop).final = .done

/-- Whatever ended the scan, its rows are served. -/
theorem served_queried {params : QueryParams} {start stop : BitVec 32} (queried : Queried params start stop)
    (reserves : memory.Reserves (stop - start)) :
    served engines bound memory w params = ⟨200,
      apiRangeContent ((rangeScan engines bound w start stop).rows.map fixOfColumns),
      "application/octet-stream"⟩ := by
  rw [served, apiRange_queried queried, Outcome.respond, getFixRangeOn_eq _ _ _ _ (Stmt.isReset_mk _)]
  simp only [if_pos reserves]
  rfl

theorem served_badAlloc {params : QueryParams} {start stop : BitVec 32} (queried : Queried params start stop)
    (refused : ¬ memory.Reserves (stop - start)) : served engines bound memory w params = ⟨500, [], ""⟩ := by
  rw [served, apiRange_queried queried, Outcome.respond, getFixRangeOn_eq _ _ _ _ (Stmt.isReset_mk _)]
  simp only [if_neg refused]
  rfl

theorem Queried.unique {params : QueryParams} {start stop start' stop' : BitVec 32}
    (one : Queried params start stop) (other : Queried params start' stop') :
    start = start' ∧ stop = stop' := by
  have same := (apiRange_queried one).symm.trans (apiRange_queried other)
  cases same
  exact ⟨rfl, rfl⟩

/-- **What is served is complete just when the request is refused, finds no
memory, or its scan reaches the end.** -/
theorem servesComplete_iff (params : QueryParams) :
    ServesComplete engines bound memory w params ↔
      ∀ start stop, Queried params start stop → memory ((stop - start).toNat * 13) = true →
        (rangeScan engines bound w start stop).final = .done := by
  -- an ordered range asks for memory
  have asks : ∀ start stop, Queried params start stop →
      (memory.Reserves (stop - start) ↔ memory ((stop - start).toNat * 13) = true) := by
    rintro start stop ⟨-, -, -, -, -, ordered⟩
    refine or_iff_right ?_
    rw [BitVec.sub_eq_iff_eq_add]
    bv_omega
  constructor
  · intro complete start stop queried granted
    have ok : (served engines bound memory w params).status = 200 := by
      rw [served_queried _ _ _ _ queried ((asks start stop queried).mpr granted)]
    obtain ⟨start', stop', queried', ended⟩ := complete ok
    obtain ⟨rfl, rfl⟩ := queried.unique queried'
    exact ended
  · intro ends ok
    rcases apiRange_cases params with ⟨response, returned⟩ | ⟨start, stop, queried⟩
    · have refused := apiRange_returns returned
      rw [served, returned] at ok
      change response.status = 200 at ok
      rw [refused] at ok
      cases ok
    · by_cases reserves : memory.Reserves (stop - start)
      · exact ⟨start, stop, queried, ends start stop queried ((asks start stop queried).mp reserves)⟩
      · rw [served_badAlloc _ _ _ _ queried reserves] at ok
        cases ok

end

/-- A scan that yields one row of the day and then an I/O error. -/
theorem not_servesComplete : ¬ ∀ (engines : Statements → Engine Table) bound w params,
    ServesComplete engines bound (fun _ => true) w params := by
  intro always
  let params : QueryParams := fun name =>
    if name = "start" then some (ascii "1700000000") else some (ascii "1700086399")
  let scan : Scan := ⟨[(rowOf ⟨1700000060, 0, 0, 6⟩).columns], .ioerr, by decide⟩
  have queried : Queried params 1700000000 1700086399 :=
    ⟨ascii "1700000000", ascii "1700086399", by decide, by decide, by decide, by decide⟩
  have ok := served_queried (fun _ _ table => (scan, table)) (fun _ _ => .null) (fun _ => true)
    (.empty : Table) queried (.inr rfl)
  obtain ⟨_, _, _, ended⟩ := always (fun _ _ table => (scan, table)) (fun _ _ => .null) .empty params
    (by rw [ok])
  cases ended

end Zouipocar
