import Zouipocar.Common.CString
import Zouipocar.Server.Handlers
import Mathlib.Data.Set.Insert

/-!
# The parameters of a request

`/api/fix` and `/api/range` read their parameters with `std::stoul` and keep
the low 32 bits of what it returns. `stoul` refuses what does not fit 64 bits
and reads a minus sign as a negation modulo `2 ^ 64`, so an integer outside
`uint32_t` is refused when it is outside 64 bits too; otherwise the database is
asked for another integer, unless the two bounds of a range happen to be
narrowed out of order.
-/

namespace Zouipocar
set_option autoImplicit false
open Lib Lib.Sqlite

/-! ## `std::stoul` -/

/-- What `std::stoul` throws. -/
inductive StoulError
  | invalidArgument
  | outOfRange
deriving DecidableEq

/-- `std::stoul` in base ten, with an `unsigned long` of 64 bits: `strtoul` and
the two checks on what it leaves. A negated magnitude wraps around. -/
def stoul (s : CString) : Except StoulError (BitVec 64) :=
  let (negative, rest) := takeSign (s.dropWhile isSpace)
  let digits := rest.takeWhile isDigit
  let magnitude := digitsValue digits
  if digits = [] then .error .invalidArgument
  else if 2 ^ 64 ≤ magnitude then .error .outOfRange
  else .ok (if negative then -BitVec.ofNat 64 magnitude else BitVec.ofNat 64 magnitude)

/-! ## The handlers -/

/-- The parameters of a request, by name: the first value each was given. -/
abbrev QueryParams := String → Option CString

structure HttpResponse where
  status : Nat
  content : List Byte
  contentType : String
deriving DecidableEq

namespace ErrorMessages

def apiFixMissingParameter : String := "Missing date parameter"

def apiFixInvalidParameter : String := "Invalid date parameter"

def apiFixOutOfRangeParameter : String := "Out of range date parameter"

def apiRangeMissingParameter : String := "Missing start and/or stop parameters"

def apiRangeInvalidParameter : String := "Invalid start and/or stop parameter"

def apiRangeOutOfRangeParameter : String := "Out of range start and/or stop parameter"

def apiRangeInvalidRange : String := "start parameter must be strictly less than stop parameter"

end ErrorMessages

/-- What the early returns set. -/
def badRequest (message : String) : HttpResponse := ⟨400, ascii message, "text/plain"⟩

/-- The content `api_range` sets: `sizeof(Fix) * fixes.size()` bytes from `fixes.data()`. -/
def apiRangeContent (fixes : List Fix) : List Byte := fixes.flatMap Fix.bytes

/-- What a handler sets once the database has answered. A status it leaves
alone is 200, and the library answers 500 for an exception. -/
def Answer.response : Answer → HttpResponse
  | .fix none => ⟨404, [], ""⟩
  | .fix (some found) => ⟨200, found.bytes, "application/octet-stream"⟩
  | .range fixes => ⟨200, apiRangeContent fixes, "application/octet-stream"⟩
  | .badAlloc => ⟨500, [], ""⟩

deriving instance DecidableEq for Request

/-- A handler returns early, or makes one query and responds with its answer. -/
inductive Outcome
  | returns (response : HttpResponse)
  | queries (request : Request)
deriving DecidableEq

def apiFix (params : QueryParams) : Outcome :=
  match params "date" with
  | none => .returns (badRequest ErrorMessages.apiFixMissingParameter)
  | some dateParam =>
    match stoul dateParam with
    | .error .invalidArgument => .returns (badRequest ErrorMessages.apiFixInvalidParameter)
    | .error .outOfRange => .returns (badRequest ErrorMessages.apiFixOutOfRangeParameter)
    | .ok date => .queries (.fix (date.truncate 32))

/-- The `try` block of `api_range`: `start` is read first. -/
def rangeParams (startParam stopParam : CString) : Except StoulError (BitVec 32 × BitVec 32) := do
  let start ← stoul startParam
  let stop ← stoul stopParam
  return (start.truncate 32, stop.truncate 32)

def apiRange (params : QueryParams) : Outcome :=
  match params "start", params "stop" with
  | some startParam, some stopParam =>
    match rangeParams startParam stopParam with
    | .error .invalidArgument => .returns (badRequest ErrorMessages.apiRangeInvalidParameter)
    | .error .outOfRange => .returns (badRequest ErrorMessages.apiRangeOutOfRangeParameter)
    | .ok (start, stop) =>
      if stop ≤ start then .returns (badRequest ErrorMessages.apiRangeInvalidRange)
      else .queries (.range start stop)
  | _, _ => .returns (badRequest ErrorMessages.apiRangeMissingParameter)

/-- The rest of a handler, with the database it leaves. -/
def Outcome.complete (db : Database) (memory : Memory) : Outcome → HttpResponse × Database
  | .returns response => (response, db)
  | .queries (.fix date) =>
    let (fix, db) := db.getFix date
    ((Answer.fix fix).response, db)
  | .queries (.range start stop) =>
    let (fixes, db) := db.getFixRange memory start stop
    ((Answer.ofRange fixes).response, db)

/-- A response is the early one, or made of the answer a handler alone gets. -/
theorem Outcome.complete_fst (db : Database) (memory : Memory) (outcome : Outcome) :
    (outcome.complete db memory).1 = match outcome with
      | .returns response => response
      | .queries request => (request.alone db memory).response := by
  match outcome with
  | .returns _ => rfl
  | .queries (.fix _) => rfl
  | .queries (.range _ _) => rfl

/-- No request of the page changes what is stored. -/
theorem Outcome.complete_table (db : Database) (memory : Memory) (outcome : Outcome) :
    (outcome.complete db memory).2.table = db.table := by
  match outcome with
  | .returns _ => rfl
  | .queries (.fix date) => exact (db.getFix_eq date).2
  | .queries (.range start stop) => exact (db.getFixRange_eq memory start stop).2

/-- A handler that returns early refuses the request. -/
theorem apiFix_returns {params : QueryParams} {response : HttpResponse}
    (returned : apiFix params = .returns response) : response.status = 400 := by
  unfold apiFix at returned
  split at returned
  · cases returned
    rfl
  · split at returned <;> cases returned <;> rfl

theorem apiRange_returns {params : QueryParams} {response : HttpResponse}
    (returned : apiRange params = .returns response) : response.status = 400 := by
  unfold apiRange at returned
  split at returned
  · split at returned
    · cases returned
      rfl
    · cases returned
      rfl
    · split at returned <;> cases returned
      rfl
  · cases returned
    rfl

/-! ## Decimal numerals -/

/-- A non-empty digit string, optionally preceded by a minus sign. -/
structure Numeral where
  negative : Bool
  digits : CString
  isDigits : Digits digits
  nonempty : digits ≠ []

namespace Numeral

def text (n : Numeral) : CString := if n.negative then 45 :: n.digits else n.digits

/-- The integer denoted. -/
def value (n : Numeral) : Int := if n.negative then -digitsValue n.digits else digitsValue n.digits

variable (n : Numeral)

/-- Both signs are read off, and all the digits behind. -/
theorem takeSign_text : takeSign (n.text.dropWhile isSpace) = (n.negative, n.digits) := by
  unfold text
  cases n.negative with
  | true => rfl
  | false =>
    have scanned := takeSign_digits (t := []) n.isDigits n.nonempty
    rwa [List.append_nil] at scanned

theorem natAbs_value : n.value.natAbs = digitsValue n.digits := by
  unfold value
  split <;> omega

/-- **A numeral is refused from `2 ^ 64` on, and otherwise read modulo `2 ^ 64`.** -/
theorem stoul_text :
    stoul n.text = if 2 ^ 64 ≤ n.value.natAbs then .error .outOfRange else .ok (.ofInt 64 n.value) := by
  have all : n.digits.takeWhile isDigit = n.digits := List.takeWhile_eq_self_iff.mpr n.isDigits
  rw [natAbs_value, stoul, takeSign_text]
  simp only [all, if_neg n.nonempty]
  congr 2
  unfold value
  cases n.negative with
  | true =>
    show -BitVec.ofNat 64 _ = BitVec.ofInt 64 (-_)
    rw [BitVec.ofInt_neg, BitVec.ofInt_natCast]
  | false => exact (BitVec.ofInt_natCast ..).symm

end Numeral

-- a minus sign is no error, and the handler keeps the low half
example : apiFix (fun _ => some (ascii "-1")) = .queries (.fix 0xFFFFFFFF) := by decide

/-- What the narrowing keeps of an integer. -/
theorem truncate_ofInt (value : Int) :
    (((BitVec.ofInt 64 value).truncate 32).toNat : Int) = value % 2 ^ 32 := by
  rw [BitVec.truncate, BitVec.toNat_setWidth, BitVec.toNat_ofInt]
  omega

/-! ## Requests with numerals -/

/-- A request whose parameters are numerals, whatever other parameters it has. -/
inductive Call
  | fix (params : QueryParams) (date : Numeral) (given : params "date" = some date.text)
  | range (params : QueryParams) (start stop : Numeral)
      (givenStart : params "start" = some start.text) (givenStop : params "stop" = some stop.text)

/-- The integers a query is made with. -/
def Request.integers : Request → List Int
  | .fix date => [(date.toNat : Int)]
  | .range start stop => [(start.toNat : Int), (stop.toNat : Int)]

/-- A value of `uint32_t`. -/
def InRange (value : Int) : Prop := 0 ≤ value ∧ value < 2 ^ 32

instance : DecidablePred InRange := fun _ => inferInstanceAs (Decidable (_ ∧ _))

namespace Call

def outcome : Call → Outcome
  | .fix params _ _ => apiFix params
  | .range params _ _ _ _ => apiRange params

/-- The integers the parameters denote. -/
def integers : Call → List Int
  | .fix _ date _ => [date.value]
  | .range _ start stop _ _ => [start.value, stop.value]

/-- A range is given in order. -/
def Ordered : Call → Prop
  | .fix .. => True
  | .range _ start stop _ _ => start.value < stop.value

/-- The narrowing does no harm: every integer is in range, or one is refused by
`stoul`, or the bounds of the range are narrowed out of order. -/
def Harmless : Call → Prop
  | .fix _ date _ => InRange date.value ∨ 2 ^ 64 ≤ date.value.natAbs
  | .range _ start stop _ _ =>
    InRange start.value ∧ InRange stop.value ∨
      2 ^ 64 ≤ start.value.natAbs ∨ 2 ^ 64 ≤ stop.value.natAbs ∨
      stop.value % 2 ^ 32 ≤ start.value % 2 ^ 32

end Call

/-- Each request is queried with exactly its integers or refused, and no two
are confused. -/
structure Exact (calls : Set Call) : Prop where
  queried : ∀ c ∈ calls, (∀ value ∈ c.integers, InRange value) → c.Ordered →
    ∃ request, c.outcome = .queries request ∧ request.integers = c.integers
  refused : ∀ c ∈ calls, (∃ value ∈ c.integers, ¬ InRange value) →
    ∃ response, c.outcome = .returns response ∧ response.status = 400
  injective : ∀ c ∈ calls, ∀ d ∈ calls, ∀ request,
    c.outcome = .queries request → d.outcome = .queries request → c.integers = d.integers

/-- `api_fix` on a numeral. -/
theorem apiFix_numeral {params : QueryParams} {date : Numeral} (given : params "date" = some date.text) :
    apiFix params =
      if 2 ^ 64 ≤ date.value.natAbs then .returns (badRequest ErrorMessages.apiFixOutOfRangeParameter)
      else .queries (.fix ((BitVec.ofInt 64 date.value).truncate 32)) := by
  simp only [apiFix, given, date.stoul_text]
  by_cases large : 2 ^ 64 ≤ date.value.natAbs
  · simp only [if_pos large]
  · simp only [if_neg large]

/-- Two numerals are read unless one is out of range. -/
theorem rangeParams_text (start stop : Numeral) :
    rangeParams start.text stop.text =
      if 2 ^ 64 ≤ start.value.natAbs ∨ 2 ^ 64 ≤ stop.value.natAbs then .error .outOfRange
      else .ok ((BitVec.ofInt 64 start.value).truncate 32, (BitVec.ofInt 64 stop.value).truncate 32) := by
  by_cases large : 2 ^ 64 ≤ start.value.natAbs
  · rw [if_pos (Or.inl large), rangeParams, start.stoul_text, if_pos large]
    rfl
  · have startRead := start.stoul_text.trans (if_neg large)
    by_cases large' : 2 ^ 64 ≤ stop.value.natAbs
    · have stopRead := stop.stoul_text.trans (if_pos large')
      rw [if_pos (Or.inr large'), rangeParams, startRead, stopRead]
      rfl
    · have stopRead := stop.stoul_text.trans (if_neg large')
      rw [if_neg (not_or.mpr ⟨large, large'⟩), rangeParams, startRead, stopRead]
      rfl

/-- `api_range` on two numerals. -/
theorem apiRange_numeral {params : QueryParams} {start stop : Numeral}
    (givenStart : params "start" = some start.text) (givenStop : params "stop" = some stop.text) :
    apiRange params =
      if 2 ^ 64 ≤ start.value.natAbs ∨ 2 ^ 64 ≤ stop.value.natAbs then
        .returns (badRequest ErrorMessages.apiRangeOutOfRangeParameter)
      else if stop.value % 2 ^ 32 ≤ start.value % 2 ^ 32 then
        .returns (badRequest ErrorMessages.apiRangeInvalidRange)
      else .queries (.range ((BitVec.ofInt 64 start.value).truncate 32)
        ((BitVec.ofInt 64 stop.value).truncate 32)) := by
  have narrowed : (BitVec.ofInt 64 stop.value).truncate 32 ≤ (BitVec.ofInt 64 start.value).truncate 32 ↔
      stop.value % 2 ^ 32 ≤ start.value % 2 ^ 32 := by
    rw [← truncate_ofInt, ← truncate_ofInt, BitVec.le_def, Int.ofNat_le]
  simp only [apiRange, givenStart, givenStop, rangeParams_text]
  by_cases large : 2 ^ 64 ≤ start.value.natAbs ∨ 2 ^ 64 ≤ stop.value.natAbs
  · simp only [if_pos large]
  · simp only [if_neg large, narrowed]

theorem InRange.emod {value : Int} (h : InRange value) : value % 2 ^ 32 = value :=
  Int.emod_eq_of_lt h.1 h.2

theorem InRange.small {value : Int} (h : InRange value) : ¬ 2 ^ 64 ≤ value.natAbs := by
  obtain ⟨low, high⟩ := h
  omega

/-- Two bounds in range are compared as they are. -/
theorem apiRange_inRange {params : QueryParams} {start stop : Numeral}
    (givenStart : params "start" = some start.text) (givenStop : params "stop" = some stop.text)
    (inStart : InRange start.value) (inStop : InRange stop.value) :
    apiRange params =
      if stop.value ≤ start.value then .returns (badRequest ErrorMessages.apiRangeInvalidRange)
      else .queries (.range ((BitVec.ofInt 64 start.value).truncate 32)
        ((BitVec.ofInt 64 stop.value).truncate 32)) := by
  rw [apiRange_numeral givenStart givenStop, if_neg (not_or.mpr ⟨inStart.small, inStop.small⟩),
    inStart.emod, inStop.emod]

namespace Call

/-- Both integers of a range. -/
theorem inRange_range {params : QueryParams} {start stop : Numeral}
    {givenStart : params "start" = some start.text} {givenStop : params "stop" = some stop.text}
    (inside : ∀ value ∈ (range params start stop givenStart givenStop).integers, InRange value) :
    InRange start.value ∧ InRange stop.value :=
  ⟨inside _ (List.mem_cons_self ..), inside _ (List.mem_cons_of_mem _ (List.mem_singleton.mpr rfl))⟩

/-- A request in range is queried as it is. -/
theorem queried {c : Call} (inside : ∀ value ∈ c.integers, InRange value) (ordered : c.Ordered) :
    ∃ request, c.outcome = .queries request ∧ request.integers = c.integers := by
  cases c with
  | fix params date given =>
    have inDate := inside date.value (List.mem_singleton.mpr rfl)
    refine ⟨_, (apiFix_numeral given).trans (if_neg inDate.small), ?_⟩
    rw [Request.integers, integers, truncate_ofInt, inDate.emod]
  | range params start stop givenStart givenStop =>
    obtain ⟨inStart, inStop⟩ := inRange_range inside
    have ahead := (apiRange_inRange givenStart givenStop inStart inStop).trans
      (if_neg (Int.not_le.mpr ordered))
    refine ⟨_, ahead, ?_⟩
    rw [Request.integers, integers, truncate_ofInt, truncate_ofInt, inStart.emod, inStop.emod]

/-- **Without harm, an integer outside is refused.** -/
theorem refused {c : Call} (harmless : c.Harmless) (outside : ∃ value ∈ c.integers, ¬ InRange value) :
    ∃ response, c.outcome = .returns response ∧ response.status = 400 := by
  obtain ⟨value, given, outside⟩ := outside
  cases c with
  | fix params date given' =>
    obtain rfl := List.mem_singleton.mp given
    have large := harmless.resolve_left outside
    exact ⟨_, (apiFix_numeral given').trans (if_pos large), rfl⟩
  | range params start stop givenStart givenStop =>
    have out : ¬ (InRange start.value ∧ InRange stop.value) := by
      rintro ⟨inStart, inStop⟩
      rcases List.mem_pair.mp given with rfl | rfl
      · exact outside inStart
      · exact outside inStop
    have caught := or_assoc.mpr (harmless.resolve_left out)
    show ∃ response, apiRange params = _ ∧ _
    rw [apiRange_numeral givenStart givenStop]
    by_cases large : 2 ^ 64 ≤ start.value.natAbs ∨ 2 ^ 64 ≤ stop.value.natAbs
    · exact ⟨_, if_pos large, rfl⟩
    · rw [if_neg large, if_pos (caught.resolve_left large)]
      exact ⟨_, rfl, rfl⟩

/-- Refusing every integer outside takes a harmless narrowing. -/
theorem harmless_of_refused {c : Call} (refused : (∃ value ∈ c.integers, ¬ InRange value) →
    ∃ response, c.outcome = .returns response ∧ response.status = 400) : c.Harmless := by
  by_contra harm
  cases c with
  | fix params date given =>
    obtain ⟨out, small⟩ := not_or.mp harm
    obtain ⟨response, returned, -⟩ := refused ⟨date.value, List.mem_singleton.mpr rfl, out⟩
    rw [outcome, apiFix_numeral given, if_neg small] at returned
    cases returned
  | range params start stop givenStart givenStop =>
    obtain ⟨out, caught⟩ := not_or.mp harm
    rw [← or_assoc] at caught
    obtain ⟨small, ahead⟩ := not_or.mp caught
    have outside : ∃ value ∈ (range params start stop givenStart givenStop).integers, ¬ InRange value := by
      by_contra inside
      push Not at inside
      exact out (inRange_range inside)
    obtain ⟨response, returned, -⟩ := refused outside
    rw [outcome, apiRange_numeral givenStart givenStop, if_neg small, if_neg ahead] at returned
    cases returned

/-- A range that is queried was given in order, if it was in range at all. -/
theorem ordered_of_queries {c : Call} {request : Request} (inside : ∀ value ∈ c.integers, InRange value)
    (made : c.outcome = .queries request) : c.Ordered := by
  cases c with
  | fix => trivial
  | range params start stop givenStart givenStop =>
    obtain ⟨inStart, inStop⟩ := inRange_range inside
    rw [outcome, apiRange_inRange givenStart givenStop inStart inStop] at made
    split at made
    · cases made
    · rename_i ahead
      exact Int.not_le.mp ahead

/-- Without harm, what is queried is what was given. -/
theorem integers_of_queries {c : Call} {request : Request} (harmless : c.Harmless)
    (made : c.outcome = .queries request) : request.integers = c.integers := by
  by_cases inside : ∀ value ∈ c.integers, InRange value
  · obtain ⟨request', made', same⟩ := queried inside (ordered_of_queries inside made)
    rw [made] at made'
    cases made'
    exact same
  · push Not at inside
    obtain ⟨response, returned, -⟩ := refused harmless inside
    rw [made] at returned
    cases returned

end Call

/-- **Requests are exact just when the narrowing does none of them harm.** -/
theorem exact_iff (calls : Set Call) : Exact calls ↔ ∀ c ∈ calls, c.Harmless := by
  constructor
  · intro exact c member
    exact Call.harmless_of_refused (exact.refused c member)
  · intro harmless
    constructor
    · intro c _ inside ordered
      exact Call.queried inside ordered
    · intro c member outside
      exact Call.refused (harmless c member) outside
    · intro c member d member' request made made'
      rw [← Call.integers_of_queries (harmless c member) made,
        Call.integers_of_queries (harmless d member') made']

/-- Asked for `4294967303`, the database is queried for 7. -/
theorem not_exact : ¬ Exact Set.univ := by
  intro exact
  let date : Numeral := ⟨false, ascii "4294967303", by decide, by decide⟩
  let params : QueryParams := fun _ => some date.text
  obtain ⟨response, returned, -⟩ :=
    exact.refused (.fix params date rfl) (Set.mem_univ _) ⟨date.value, List.mem_singleton.mpr rfl, by decide⟩
  have queried : apiFix params = .queries (.fix 7) := by decide
  rw [Call.outcome, queried] at returned
  cases returned

end Zouipocar
