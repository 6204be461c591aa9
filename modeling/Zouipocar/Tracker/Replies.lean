import Zouipocar.Tracker.At
import Zouipocar.Tracker.ReturnCodes

/-!
# Cutting texts out of replies

Three functions copy a part of `res.data` into a buffer of their caller. Each
takes the start and the length from where `index_of` finds its delimiters, and
none of them makes sure of both: a delimiter that is missing, that stands before
the other or too far behind it makes them read or write outside.
-/

namespace Zouipocar
set_option autoImplicit false
open Lib

/-- A copy of `length` bytes from `res.data + start`, with a terminator behind it. -/
structure Copy where
  start : Int
  length : Int
deriving DecidableEq

/-- The states `get_ip_status` knows. -/
def ipStates : List (String × ATRetCode) :=
  [("IP INITIAL", .ipstateInitial), ("IP START", .ipstateStart), ("IP CONFIG", .ipstateConfig),
    ("IP IND", .ipstateInd), ("IP GPRSACT", .ipstateGprsact), ("IP STATUS", .ipstateStatus),
    ("TCP CONNECTING", .ipstateTcpConnecting), ("UDP CONNECTING", .ipstateUdpConnecting),
    ("IP CLOSE", .ipstateClose), ("CONNECT OK", .ipstateConnectOk), ("PDP DEACT", .ipstatePdpDeact)]

def ipState (status : CString) : ATRetCode :=
  ((ipStates.find? fun s => status = ascii s.1).map Prod.snd).getD .error

/-- `get_ip_status` behind its command: the code, and the copy it makes. -/
def getIpStatus (retCode : Int) (data : CString) : ATRetCode × Option Copy :=
  if retCode = 1 then (.error, none)
  else
    let startPos := indexOf data (ascii ": ")
    if startPos = -1 then (.error, none)
    else
      let startPos := startPos + 2
      let behind := data.drop startPos.toNat
      let endPos := indexOf behind (ascii "\r") + startPos
      if endPos = -1 then (.error, none)
      else
        let statusLength := endPos - startPos
        (ipState (behind.take statusLength.toNat), some ⟨startPos, statusLength⟩)

/-- `get_epo_validity` behind its command. -/
def getEpoValidity (retCode : Int) (data : CString) : ATRetCode × Option Copy :=
  if retCode ≠ ATRetCode.ok.value then (.error, none)
  else
    let pos := indexOf data (ascii ": ") + 2
    if pos = -1 then (.error, none)
    else (.ok, some ⟨pos, 19⟩)

/-- `gps_get_nmea_sentence` behind its command. -/
def gpsGetNmeaSentence (retCode : Int) (data : CString) : ATRetCode × Option Copy :=
  if retCode ≠ ATRetCode.ok.value then (.error, none)
  else
    let start := indexOf data (ascii "$")
    let length := indexOf data (ascii "*") - start
    if length > nmeaSentenceMaxSize then (.error, none)
    else (.ok, some ⟨start, length⟩)

/-- The functions that cut a text out of a reply. -/
inductive Cutter
  | ipStatus
  | epoValidity
  | nmeaSentence

/-- A reply in `res.data`, up to its terminator. -/
structure ReplyText where
  text : CString
  size : text.length < maxPacketSize
  noTerminator : ∀ c ∈ text, c ≠ 0

/-- Inside `res.data`, and inside a buffer with the terminator. -/
structure Copy.Inside (c : Copy) (size : Nat) : Prop where
  start_nonneg : 0 ≤ c.start
  length_nonneg : 0 ≤ c.length
  source : c.start + c.length ≤ maxPacketSize
  destination : c.length < size

namespace Cutter

def run : Cutter → Int → CString → ATRetCode × Option Copy
  | ipStatus => getIpStatus
  | epoValidity => getEpoValidity
  | nmeaSentence => gpsGetNmeaSentence

/-- The size of the buffer copied to. -/
def size : Cutter → Nat
  | ipStatus => 50
  | epoValidity => 20
  | nmeaSentence => nmeaSentenceMaxSize

/-- The reply has the delimiters of the text. -/
def Delimited : Cutter → CString → Prop
  | ipStatus, data => indexOf data (ascii ": ") ≠ -1 ∧
      indexOf (data.drop (indexOf data (ascii ": ") + 2).toNat) (ascii "\r") ≠ -1
  | epoValidity, data => indexOf data (ascii ": ") ≠ -1
  | nmeaSentence, data => indexOf data (ascii "$") ≠ -1 ∧ indexOf data (ascii "*") ≠ -1

/-- Nothing is copied from or to the outside, and without the delimiters nothing at all. -/
structure Safe (f : Cutter) (retCode : Int) (data : CString) : Prop where
  inside : ∀ c, (f.run retCode data).2 = some c → c.Inside f.size
  undelimited : ¬ f.Delimited data → f.run retCode data = (.error, none)

/-- The replies a function can deal with. -/
def Manages : Cutter → Int → CString → Prop
  | ipStatus, retCode, data => retCode = 1 ∨ indexOf data (ascii ": ") = -1 ∨
      let status := indexOf (data.drop (indexOf data (ascii ": ") + 2).toNat) (ascii "\r")
      0 ≤ status ∧ status < 50
  | epoValidity, retCode, data => retCode ≠ ATRetCode.ok.value ∨
      0 ≤ indexOf data (ascii ": ") ∧ indexOf data (ascii ": ") ≤ 479
  | nmeaSentence, retCode, data => retCode ≠ ATRetCode.ok.value ∨
      nmeaSentenceMaxSize < indexOf data (ascii "*") - indexOf data (ascii "$") ∨
      0 ≤ indexOf data (ascii "$") ∧ indexOf data (ascii "$") ≤ indexOf data (ascii "*") ∧
        indexOf data (ascii "*") - indexOf data (ascii "$") < nmeaSentenceMaxSize

end Cutter

/-- `index_of` gives `-1` or a position from which the word fits. -/
theorem indexOf_bounds (str search : CString) : indexOf str search = -1 ∨
    0 ≤ indexOf str search ∧ indexOf str search + search.length ≤ str.length := by
  unfold indexOf
  cases found : position search str with
  | none => exact .inl rfl
  | some p =>
    have fits := position_le found
    right
    simp only
    omega

/-- Whether nothing, or one copy, is made decides whether it is safe. -/
theorem safe_copy {f : Cutter} {retCode : Int} {data : CString} {code : ATRetCode} {c : Copy}
    (ran : f.run retCode data = (code, some c)) :
    f.Safe retCode data ↔ c.Inside f.size ∧ f.Delimited data := by
  constructor
  · rintro ⟨inside, undelimited⟩
    refine ⟨inside c (by rw [ran]), ?_⟩
    by_contra missing
    rw [undelimited missing] at ran
    cases ran
  · rintro ⟨inside, delimited⟩
    refine ⟨fun d made => ?_, fun missing => (missing delimited).elim⟩
    rw [ran] at made
    rwa [← Option.some.inj made]

theorem safe_error {f : Cutter} {retCode : Int} {data : CString}
    (ran : f.run retCode data = (.error, none)) : f.Safe retCode data := by
  refine ⟨fun c made => ?_, fun _ => ran⟩
  rw [ran] at made
  cases made

section

variable (retCode : Int) (r : ReplyText)

theorem safe_ipStatus : Cutter.ipStatus.Safe retCode r.text ↔ Cutter.ipStatus.Manages retCode r.text := by
  by_cases refused : retCode = 1
  · exact iff_of_true (safe_error (if_pos refused)) (.inl refused)
  · by_cases missing : indexOf r.text (ascii ": ") = -1
    · refine iff_of_true (safe_error ?_) (.inr (.inl missing))
      rw [Cutter.run, getIpStatus, if_neg refused, if_pos missing]
    · have start := (indexOf_bounds r.text (ascii ": ")).resolve_left missing
      have separator : (ascii ": ").length = 2 := rfl
      have return_ : (ascii "\r").length = 1 := rfl
      have size := r.size
      simp only [Cutter.Manages, or_iff_right refused, or_iff_right missing]
      generalize behind : r.text.drop (indexOf r.text (ascii ": ") + 2).toNat = rest
      have rest_length : rest.length = r.text.length - (indexOf r.text (ascii ": ") + 2).toNat := by
        rw [← behind, List.length_drop]
      have stop := indexOf_bounds rest (ascii "\r")
      have ran : Cutter.ipStatus.run retCode r.text =
          (ipState (rest.take (indexOf rest (ascii "\r")).toNat),
            some ⟨indexOf r.text (ascii ": ") + 2, indexOf rest (ascii "\r")⟩) := by
        rw [Cutter.run, getIpStatus, if_neg refused]
        simp only [if_neg missing, behind]
        -- the end is never -1: the start was added before the test
        rw [if_neg (by omega), Int.add_sub_cancel]
      rw [safe_copy ran]
      constructor
      · rintro ⟨⟨_, nonneg, _, fits⟩, _⟩
        exact ⟨nonneg, fits⟩
      · rintro ⟨nonneg, fits⟩
        refine ⟨⟨?_, nonneg, ?_, fits⟩, missing, ?_⟩
        · show 0 ≤ indexOf r.text (ascii ": ") + 2
          omega
        · show indexOf r.text (ascii ": ") + 2 + indexOf rest (ascii "\r") ≤ maxPacketSize
          omega
        · rw [behind]
          omega

theorem safe_epoValidity :
    Cutter.epoValidity.Safe retCode r.text ↔ Cutter.epoValidity.Manages retCode r.text := by
  by_cases refused : retCode ≠ ATRetCode.ok.value
  · exact iff_of_true (safe_error (if_pos refused)) (.inl refused)
  · have bounds := indexOf_bounds r.text (ascii ": ")
    have ran : Cutter.epoValidity.run retCode r.text = (.ok, some ⟨indexOf r.text (ascii ": ") + 2, 19⟩) := by
      rw [Cutter.run, getEpoValidity, if_neg refused]
      -- nor is the position: 2 was added before the test
      apply if_neg
      omega
    rw [safe_copy ran, Cutter.Manages, or_iff_right refused, Cutter.Delimited]
    constructor
    · rintro ⟨⟨_, _, source, _⟩, found⟩
      change indexOf r.text (ascii ": ") + 2 + 19 ≤ (500 : Nat) at source
      omega
    · rintro ⟨found, room⟩
      refine ⟨⟨?_, ?_, ?_, ?_⟩, by omega⟩
      · show 0 ≤ indexOf r.text (ascii ": ") + 2
        omega
      · show (0 : Int) ≤ 19
        decide
      · show indexOf r.text (ascii ": ") + 2 + 19 ≤ (500 : Nat)
        omega
      · show (19 : Int) < (20 : Nat)
        decide

theorem safe_nmeaSentence :
    Cutter.nmeaSentence.Safe retCode r.text ↔ Cutter.nmeaSentence.Manages retCode r.text := by
  by_cases refused : retCode ≠ ATRetCode.ok.value
  · exact iff_of_true (safe_error (if_pos refused)) (.inl refused)
  · have first := indexOf_bounds r.text (ascii "$")
    have last := indexOf_bounds r.text (ascii "*")
    have size := r.size
    rw [maxPacketSize] at size
    rw [Cutter.Manages, or_iff_right refused]
    by_cases long : nmeaSentenceMaxSize < indexOf r.text (ascii "*") - indexOf r.text (ascii "$")
    · refine iff_of_true (safe_error ?_) (.inl long)
      rw [Cutter.run, gpsGetNmeaSentence, if_neg refused]
      exact if_pos long
    · have ran : Cutter.nmeaSentence.run retCode r.text = (.ok, some ⟨indexOf r.text (ascii "$"),
          indexOf r.text (ascii "*") - indexOf r.text (ascii "$")⟩) := by
        rw [Cutter.run, gpsGetNmeaSentence, if_neg refused]
        exact if_neg long
      rw [safe_copy ran, Cutter.Delimited, or_iff_right long]
      constructor
      · rintro ⟨⟨start, length, _, fits⟩, _⟩
        change 0 ≤ indexOf r.text (ascii "$") at start
        change 0 ≤ indexOf r.text (ascii "*") - indexOf r.text (ascii "$") at length
        exact ⟨start, by omega, fits⟩
      · rintro ⟨start, order, fits⟩
        refine ⟨⟨start, ?_, ?_, fits⟩, by omega, by omega⟩
        · show 0 ≤ indexOf r.text (ascii "*") - indexOf r.text (ascii "$")
          omega
        · show indexOf r.text (ascii "$") + (indexOf r.text (ascii "*") - indexOf r.text (ascii "$")) ≤
            (500 : Nat)
          omega

/-- **Each function stays inside its buffers, and refuses a reply without the
delimiters, exactly on the replies it manages.** -/
theorem cutter_safe_iff (f : Cutter) : f.Safe retCode r.text ↔ f.Manages retCode r.text := by
  cases f with
  | ipStatus => exact safe_ipStatus retCode r
  | epoValidity => exact safe_epoValidity retCode r
  | nmeaSentence => exact safe_nmeaSentence retCode r

end

/-- A status cut off by a timeout is copied with the length -1. -/
theorem not_cutter_safe : ¬ ∀ (f : Cutter) (retCode : Int) (r : ReplyText), f.Safe retCode r.text := by
  intro always
  have nonneg := ((always .ipStatus (-1) ⟨ascii "STATE: IP INITIAL", by decide, by decide⟩).inside _ rfl).length_nonneg
  revert nonneg
  decide

end Zouipocar
