import Zouipocar.Lib.Infix
import Zouipocar.Tracker.CLib
import Zouipocar.Tracker.Uart

/-!
# Waiting for a reply

`get_response` reads line after line into the response until one of the
command's stop words shows up in it or the line falls silent.
-/

namespace Zouipocar
set_option autoImplicit false
open Lib

/-- The C string at `data`: a terminator may be looked for behind its end, in
the bytes of `data_length`. -/
def Response.text (r : Response) : CString :=
  (r.data ++ [BitVec.ofNat 8 r.dataLength, BitVec.ofNat 8 (r.dataLength / 256)]).takeWhile (· ≠ 0)

def indexOf (str search : CString) : Int :=
  match position search str with
  | none => -1
  | some addr => addr

/-- `search_stop_words` from its `i`-th word on. -/
def searchFrom (str : CString) : List CString → Nat → Int
  | [], _ => -1
  | word :: rest, i => if indexOf str word ≠ -1 then i else searchFrom str rest (i + 1)

def searchStopWords (str : CString) (stopWords : List CString) : Int := searchFrom str stopWords 0

/-- The conversion to `int8_t`. -/
def int8 (i : Int) : Int := (BitVec.ofInt 8 i).toInt

/-- What `reset_response` leaves. -/
def Response.cleared : Response where
  retCode := -1
  data := List.replicate maxPacketSize 0
  dataLength := 0
  size := List.length_replicate

/-- `reset_response` stores to the whole buffer. -/
def resetResponse (p : Port) : Port :=
  { p with res := .cleared, writes := p.writes ++ List.range maxPacketSize }

/-- `response->ret_code = search_stop_words(…);` -/
def Port.search (p : Port) (stopWords : List CString) : Port :=
  { p with
    res := { p.res with retCode := int8 (searchStopWords p.res.text stopWords) }
    looks := p.looks ++ [p.res.data] }

/-- The loop of `get_response`, for at most `fuel` turns. -/
def responseLoop (stopWords : List CString) : Nat → Port → Option Port
  | 0, _ => none
  | fuel + 1, p =>
    if p.res.retCode = -1 then
      match uartReadString 10 maxPacketSize p with
      | (.timeout, p) => some { p with res := { p.res with retCode := -1 } }
      | (.ok, p) => responseLoop stopWords fuel (p.search stopWords)
    else some p

/-- It resets the one global response, which every caller also passes. -/
def getResponse (stopWords : List CString) (fuel : Nat) (p : Port) : Option Port :=
  responseLoop stopWords fuel (resetResponse p)

/-- The first stop word that occurs. -/
def firstWord (stopWords : List CString) (str : CString) : Option Nat :=
  stopWords.findIdx? (· <:+: str)

theorem firstWord_getElem {stopWords : List CString} {str : CString} {k : Nat}
    (first : firstWord stopWords str = some k) :
    ∃ word, stopWords[k]? = some word ∧ word <:+: str := by
  obtain ⟨less, occurs, -⟩ := List.findIdx?_eq_some_iff_getElem.mp first
  exact ⟨stopWords[k], List.getElem?_eq_getElem less, of_decide_eq_true occurs⟩

theorem indexOf_ne (str search : CString) : indexOf str search ≠ -1 ↔ search <:+: str := by
  rw [← position_isSome, indexOf]
  cases position search str with
  | none => simp
  | some addr => simp

theorem searchStopWords_eq (str : CString) (stopWords : List CString) :
    searchStopWords str stopWords = ((firstWord stopWords str).map Int.ofNat).getD (-1) := by
  have from_ : ∀ i, searchFrom str stopWords i =
      ((firstWord stopWords str).map fun k => Int.ofNat (k + i)).getD (-1) := by
    induction stopWords with
    | nil => exact fun _ => rfl
    | cons word rest ih =>
      intro i
      rw [searchFrom, firstWord, List.findIdx?_cons]
      by_cases found : word <:+: str
      · rw [if_pos ((indexOf_ne str word).mpr found), decide_eq_true found]
        simp
      · rw [if_neg (mt (indexOf_ne str word).mp found), ih, decide_eq_false found, firstWord]
        simp [Function.comp_def, Int.add_assoc, Int.add_comm 1]
  exact from_ 0

/-- The code of a stop word fits its type while there are at most 127. -/
theorem int8_firstWord {stopWords : List CString} (few : stopWords.length ≤ 127) (str : CString) :
    int8 (searchStopWords str stopWords) = ((firstWord stopWords str).map Int.ofNat).getD (-1) := by
  rw [searchStopWords_eq]
  cases found : firstWord stopWords str with
  | none => decide
  | some k =>
    have less : k < stopWords.length := (List.findIdx?_eq_some_iff_findIdx_eq.mp found).1
    show (BitVec.ofInt 8 (k : Int)).toInt = k
    rw [BitVec.toInt_ofInt_eq_self (by decide) (by omega) (by omega)]

end Zouipocar
