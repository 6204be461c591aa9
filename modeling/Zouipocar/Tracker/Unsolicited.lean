import Zouipocar.Tracker.Heard
import Zouipocar.Tracker.Replies
import Zouipocar.Tracker.Transmit

/-!
# Unsolicited lines in a reply

The modem may send a line of its own, such as the notice of a message, at any
time. What stands in the buffer when a stop word has been found is all that
arrived since the command, and `check_network_status`, `check_time_sync_status`
and `get_ip_status` look for the first delimiter in all of it. No line is told
from another, so a notice with the delimiter in it is taken for the answer.
-/

namespace Zouipocar
set_option autoImplicit false
open Lib

/-! ## The status commands -/

/-- `check_network_status` behind its command. -/
def networkStatus (retCode : Int) (data : CString) : ATRetCode :=
  if retCode ≠ ATRetCode.ok.value then .error
  else
    let pos := indexOf data (ascii ",")
    if pos = -1 then .error
    else
      match data.getD (pos + 1).toNat 0 with
      | 48 => .netstateNotRegisteredNotSearching
      | 49 => .netstateRegistered
      | 50 => .netstateNotRegisteredSearching
      | 51 => .netstateRegistrationDenied
      | 52 => .netstateUnknown
      | 53 => .netstateRegistered
      | _ => .error

/-- `check_time_sync_status` behind its command. -/
def timeSyncStatus (retCode : Int) (data : CString) : ATRetCode :=
  if retCode ≠ ATRetCode.ok.value then .error
  else
    let pos := indexOf data (ascii ": ")
    if pos = -1 then .error
    else if data.getD (pos + 2).toNat 0 = 48 then .gpsTimeNotSynced
    else if data.getD (pos + 2).toNat 0 = 49 then .gpsTimeSynced
    else .error

/-- A command, and what its caller makes of the reply in the response. -/
def ask (uart : Nat → Wait) (command : CString) (stopWords : List CString)
    (evaluate : Int → CString → ATRetCode) (fuel : Nat) : Driver ATRetCode := do
  cmd uart command stopWords fuel
  let res := (← get).port.res
  return evaluate res.retCode res.text

/-- The functions that ask for a status. -/
inductive StatusQuery
  | checkNetworkStatus
  | checkTimeSyncStatus
  | getIpStatus

namespace StatusQuery

def command : StatusQuery → CString
  | checkNetworkStatus => ascii "AT+CGREG?\r"
  | checkTimeSyncStatus => ascii "AT+QGNSSTS?\r"
  | getIpStatus => ascii "AT+QISTATE\r"

/-- `simple_cmd` waits for `OK` and `ERROR`. -/
def stopWords : StatusQuery → List CString
  | checkNetworkStatus | checkTimeSyncStatus => [ascii "OK", ascii "ERROR"]
  | getIpStatus => [ascii "STATE", ascii "ERROR"]

def evaluate : StatusQuery → Int → CString → ATRetCode
  | checkNetworkStatus => networkStatus
  | checkTimeSyncStatus => timeSyncStatus
  | getIpStatus => fun retCode data => (Zouipocar.getIpStatus retCode data).1

/-- What is looked for in the reply. -/
def delimiter : StatusQuery → CString
  | checkNetworkStatus => ascii ","
  | checkTimeSyncStatus | getIpStatus => ascii ": "

/-- The function itself. -/
def call (uart : Nat → Wait) (q : StatusQuery) (fuel : Nat) : Driver ATRetCode :=
  ask uart q.command q.stopWords q.evaluate fuel

end StatusQuery

/-! ## Lines before the answer -/

/-- What a list of complete lines puts on the wire. -/
def linesText (lines : List Line) : List Byte := (lines.map Line.text).flatten

section Lines

variable {lines : List Line} {stopWords : List CString} {word : CString}

theorem linesText_ended (c : Byte) (last : (linesText lines).getLast? = some c) : c = 10 := by
  induction lines with
  | nil => cases last
  | cons line rest ih =>
    have whole : linesText (line :: rest) = line.body ++ ([10] ++ linesText rest) := by
      simp [linesText, Line.text]
    rw [whole, List.getLast?_append_of_ne_nil _ (by simp)] at last
    cases behind : linesText rest with
    | nil =>
      rw [behind] at last
      exact (Option.some.inj last).symm
    | cons b more =>
      rw [List.getLast?_append_of_ne_nil _ (by simp [behind])] at last
      exact ih last

/-- A word in none of the lines is not in their text. -/
theorem linesText_absent (plain : 10 ∉ word) (nonempty : word ≠ [])
    (absent : ∀ line ∈ lines, ¬ word <:+: line.text) : ¬ word <:+: linesText lines := by
  intro inside
  have ended : ∀ text ∈ lines.map Line.text, text.getLast? = some 10 := by
    intro text among
    obtain ⟨line, -, rfl⟩ := List.mem_map.mp among
    exact List.getLast?_concat
  obtain ⟨text, among, there⟩ := infix_flatten plain nonempty ended inside
  obtain ⟨line, member, rfl⟩ := List.mem_map.mp among
  exact absent line member there

/-- Stop words are not found in the lines. -/
structure Silent (stopWords : List CString) (lines : List Line) : Prop where
  oneLine : ∀ word ∈ stopWords, 10 ∉ word
  nonempty : ∀ word ∈ stopWords, word ≠ []
  absent : ∀ line ∈ lines, ∀ word ∈ stopWords, ¬ word <:+: line.text

theorem firstWord_congr {s t : CString} (same : ∀ word ∈ stopWords, word <:+: s ↔ word <:+: t) :
    firstWord stopWords s = firstWord stopWords t := by
  induction stopWords with
  | nil => rfl
  | cons word rest ih =>
    have here : decide (word <:+: s) = decide (word <:+: t) :=
      decide_eq_decide.mpr (same word (List.mem_cons_self ..))
    have there : firstWord rest s = firstWord rest t := ih fun w inside => same w (List.mem_cons_of_mem _ inside)
    unfold firstWord at there ⊢
    rw [List.findIdx?_cons, List.findIdx?_cons, here, there]

/-- Behind silent lines the same stop word is found. -/
theorem Silent.firstWord_behind (h : Silent stopWords lines) (t : List Byte) :
    firstWord stopWords (linesText lines ++ t) = firstWord stopWords t := by
  apply firstWord_congr
  intro word listed
  apply infix_behind (h.oneLine word listed) linesText_ended
  apply linesText_absent (h.oneLine word listed) (h.nonempty word listed)
  exact fun line member => h.absent line member word listed

/-- Within silent lines none is found. -/
theorem Silent.firstWord_within (h : Silent stopWords lines) {P : List Byte} (within : P <+: linesText lines) :
    firstWord stopWords P = none := by
  rw [firstWord, List.findIdx?_eq_none_iff]
  intro word listed
  apply decide_eq_false
  intro inside
  apply linesText_absent (h.oneLine word listed) (h.nonempty word listed)
    (fun line member => h.absent line member word listed)
  exact inside.trans within.isInfix

/-- The lines are read to their end. -/
theorem heard_through {U : List Byte} (nonzero : 0 ∉ U) (stream : List Byte) :
    ∀ {acc : List Byte}, (∀ P, P <+: acc ++ U → firstWord stopWords P = none) →
      heard stopWords acc (U ++ stream) = heard stopWords (acc ++ U) stream := by
  induction U with
  | nil => simp
  | cons b rest ih =>
    intro acc silent
    have whole : acc ++ [b] ++ rest = acc ++ b :: rest := by simp
    have other : b ≠ 0 := fun zero => nonzero (zero ▸ List.mem_cons_self ..)
    have here : (if b = 10 then firstWord stopWords (acc ++ [b]) else none) = none := by
      rw [silent (acc ++ [b]) (prefix_next acc rest b), ite_self]
    rw [List.cons_append, heard, if_neg other, here, ← whole]
    apply ih (fun inside => nonzero (List.mem_cons_of_mem _ inside))
    rw [whole]
    exact silent

/-- What is read behind them is found as if it stood alone. -/
theorem heard_behind {U : List Byte} (behind : ∀ t, firstWord stopWords (U ++ t) = firstWord stopWords t)
    (stream acc : List Byte) :
    heard stopWords (U ++ acc) stream =
      ((heard stopWords acc stream).1, U ++ (heard stopWords acc stream).2) := by
  induction stream generalizing acc with
  | nil => rfl
  | cons b rest ih =>
    rw [heard, heard, List.append_assoc, behind]
    by_cases zero : b = 0
    · rw [if_pos zero, if_pos zero]
    · rw [if_neg zero, if_neg zero]
      split
      · rfl
      · exact ih (acc ++ [b])

/-- **Silent lines stand before the text of the answer and change nothing else.** -/
theorem Silent.heard (h : Silent stopWords lines) (nonzero : 0 ∉ linesText lines) (answer : List Byte) :
    heard stopWords [] (linesText lines ++ answer) =
      ((heard stopWords [] answer).1, linesText lines ++ (heard stopWords [] answer).2) := by
  rw [heard_through nonzero answer fun P within => h.firstWord_within within]
  have moved := heard_behind h.firstWord_behind answer []
  rwa [List.append_nil] at moved

end Lines

/-! ## Where the delimiter is found -/

section Delimiter

variable {U data word : CString}

variable (U data) in
theorem drop_behind {pos : Int} (found : 0 ≤ pos) :
    (U ++ data).drop (pos + U.length).toNat = data.drop pos.toNat := by
  obtain ⟨k, rfl⟩ := Int.eq_ofNat_of_zero_le found
  rw [show ((k : Int) + U.length).toNat = U.length + k by omega, List.drop_length_add_append]
  rfl

/-- What follows the word is the same with the lines in front. -/
theorem indexOf_behind (plain : 10 ∉ word) (ended : ∀ c, U.getLast? = some c → c = 10)
    (absent : ¬ word <:+: U) (data : CString) :
    indexOf data word = -1 ∧ indexOf (U ++ data) word = -1 ∨
      0 ≤ indexOf data word ∧ 0 ≤ indexOf (U ++ data) word ∧ ∀ k : Int, 0 ≤ k →
        (U ++ data).drop (indexOf (U ++ data) word + k).toNat = data.drop (indexOf data word + k).toNat := by
  rw [indexOf, indexOf, position_behind plain ended absent]
  cases position word data with
  | none => exact .inl ⟨rfl, rfl⟩
  | some pos =>
    refine .inr ⟨Int.natCast_nonneg _, Int.natCast_nonneg _, ?_⟩
    intro k positive
    show (U ++ data).drop (((pos + U.length : Nat) : Int) + k).toNat = data.drop ((pos : Int) + k).toNat
    rw [← drop_behind U data (by omega : 0 ≤ (pos : Int) + k), Int.natCast_add, Int.add_right_comm]

theorem getD_of_drop {s t : CString} {i j : Nat} (same : s.drop i = t.drop j) : s.getD i 0 = t.getD j 0 := by
  have first := congrArg List.head? same
  rw [List.head?_drop, List.head?_drop] at first
  rw [List.getD_eq_getElem?_getD, List.getD_eq_getElem?_getD, first]

theorem networkStatus_behind (ended : ∀ c, U.getLast? = some c → c = 10) (absent : ¬ ascii "," <:+: U)
    (retCode : Int) (data : CString) : networkStatus retCode (U ++ data) = networkStatus retCode data := by
  unfold networkStatus
  rcases indexOf_behind (by decide) ended absent data with ⟨missing, missing'⟩ | ⟨found, found', same⟩
  · simp only [missing, missing', if_true]
  · have there : indexOf data (ascii ",") ≠ -1 := by omega
    have there' : indexOf (U ++ data) (ascii ",") ≠ -1 := by omega
    have byte := getD_of_drop (same 1 (by decide))
    simp only [if_neg there, if_neg there', byte]

theorem timeSyncStatus_behind (ended : ∀ c, U.getLast? = some c → c = 10) (absent : ¬ ascii ": " <:+: U)
    (retCode : Int) (data : CString) : timeSyncStatus retCode (U ++ data) = timeSyncStatus retCode data := by
  unfold timeSyncStatus
  rcases indexOf_behind (by decide) ended absent data with ⟨missing, missing'⟩ | ⟨found, found', same⟩
  · simp only [missing, missing', if_true]
  · have there : indexOf data (ascii ": ") ≠ -1 := by omega
    have there' : indexOf (U ++ data) (ascii ": ") ≠ -1 := by omega
    have byte := getD_of_drop (same 2 (by decide))
    simp only [if_neg there, if_neg there', byte]

theorem getIpStatus_behind (ended : ∀ c, U.getLast? = some c → c = 10) (absent : ¬ ascii ": " <:+: U)
    (retCode : Int) (data : CString) :
    (getIpStatus retCode (U ++ data)).1 = (getIpStatus retCode data).1 := by
  unfold getIpStatus
  rcases indexOf_behind (by decide) ended absent data with ⟨missing, missing'⟩ | ⟨found, found', same⟩
  · simp only [missing, missing', if_true]
  · have there : indexOf data (ascii ": ") ≠ -1 := by omega
    have there' : indexOf (U ++ data) (ascii ": ") ≠ -1 := by omega
    simp only [if_neg there, if_neg there', same 2 (by decide)]
    -- the line ends at the same place behind the delimiter
    have line := indexOf_bounds (data.drop (indexOf data (ascii ": ") + 2).toNat) (ascii "\r")
    generalize indexOf (data.drop (indexOf data (ascii ": ") + 2).toNat) (ascii "\r") = ending at line ⊢
    have ends : ending + (indexOf data (ascii ": ") + 2) ≠ -1 := by omega
    have ends' : ending + (indexOf (U ++ data) (ascii ": ") + 2) ≠ -1 := by omega
    simp only [if_neg ends, if_neg ends', Int.add_sub_cancel]
    split <;> rfl

end Delimiter

namespace StatusQuery

/-- Lines without the delimiter change nothing in front of the text that is evaluated. -/
theorem evaluate_behind (q : StatusQuery) {U : CString} (ended : ∀ c, U.getLast? = some c → c = 10)
    (absent : ¬ q.delimiter <:+: U) (retCode : Int) (data : CString) :
    q.evaluate retCode (U ++ data) = q.evaluate retCode data := by
  cases q with
  | checkNetworkStatus => exact networkStatus_behind ended absent retCode data
  | checkTimeSyncStatus => exact timeSyncStatus_behind ended absent retCode data
  | getIpStatus => exact getIpStatus_behind ended absent retCode data

end StatusQuery

/-! ## A call -/

/-- The line, where this arrives after the next flush. -/
def Serial.awaiting (s : Serial) (stream : List Byte) : Serial := { s with later := stream :: s.later }

/-- With fuel enough the call returns this code. -/
def ReturnsCode (x : Nat → Driver ATRetCode) (s : Serial) (code : ATRetCode) : Prop :=
  ∃ enough, ∀ fuel, enough ≤ fuel → (Action.result (x fuel) s).1 = .ok code

/-- A command whose reply fits is evaluated on what was heard. -/
theorem ask_returns (uart : Nat → Wait) {command : CString} (short : command.length < 256)
    {stopWords : List CString} (few : stopWords.length ≤ 127) (evaluate : Int → CString → ATRetCode)
    (s : Serial) (stream : List Byte) (fits : stream.length < maxPacketSize) :
    ReturnsCode (ask uart command stopWords evaluate) (s.awaiting stream)
      (evaluate (heard stopWords [] stream).1 (heard stopWords [] stream).2) := by
  refine ⟨command.length + stream.length + 2, ?_⟩
  intro fuel enough
  have size := dataSize_toNat command
  obtain ⟨t, ran, code, text, -⟩ := result_cmdRawData_heard uart few command ((strlen command).truncate 8)
    (s.awaiting stream) fits fuel (by omega) (show stream.length + 2 ≤ fuel by omega)
  rw [ask, cmd, Action.result_bind_ok ran]
  show Except.ok (evaluate t.port.res.retCode t.port.res.text) = _
  rw [code, text]
  rfl

/-- **Complete lines with no stop word and no delimiter, in front of an answer
that fits with them, make no difference.** -/
theorem status_unsolicited (uart : Nat → Wait) (q : StatusQuery) (lines : List Line) (answer : List Byte)
    (s : Serial) (silent : ∀ line ∈ lines, ∀ word ∈ q.stopWords, ¬ word <:+: line.text)
    (undelimited : ∀ line ∈ lines, ¬ q.delimiter <:+: line.text) (plain : 0 ∉ linesText lines)
    (fits : (linesText lines ++ answer).length < maxPacketSize) :
    ∃ code, ReturnsCode (q.call uart) (s.awaiting answer) code ∧
      ReturnsCode (q.call uart) (s.awaiting (linesText lines ++ answer)) code := by
  have oneLine : ∀ word ∈ q.stopWords, 10 ∉ word := by cases q <;> decide
  have nonempty : ∀ word ∈ q.stopWords, word ≠ [] := by cases q <;> decide
  have few : q.stopWords.length ≤ 127 := by cases q <;> decide
  have short : q.command.length < 256 := by cases q <;> decide
  have absent : ¬ q.delimiter <:+: linesText lines := by
    apply linesText_absent _ _ undelimited
    · cases q <;> decide
    · cases q <;> decide
  have text := Silent.heard ⟨oneLine, nonempty, silent⟩ plain answer
  rw [List.length_append] at fits
  have alone := ask_returns uart short few q.evaluate s answer (by omega)
  have behind := ask_returns uart short few q.evaluate s (linesText lines ++ answer)
    (by rw [List.length_append]; exact fits)
  rw [text, q.evaluate_behind linesText_ended absent] at behind
  exact ⟨_, alone, behind⟩

/-- A call while the answer to `AT+CGREG?` is `0,1`. -/
theorem status_unsolicited_ring : ∃ code,
    ReturnsCode (StatusQuery.checkNetworkStatus.call fun _ => .sent)
        (Serial.awaiting ⟨.listening [] .cleared, [], [], 0⟩ (ascii "\r\n+CGREG: 0,1\r\n\r\nOK\r\n")) code ∧
      ReturnsCode (StatusQuery.checkNetworkStatus.call fun _ => .sent)
        (Serial.awaiting ⟨.listening [] .cleared, [], [], 0⟩
          (linesText [⟨ascii "RING\r", by decide⟩] ++ ascii "\r\n+CGREG: 0,1\r\n\r\nOK\r\n")) code :=
  status_unsolicited (fun _ => .sent) .checkNetworkStatus [⟨ascii "RING\r", by decide⟩] _ _
    (by decide) (by decide) (by decide) (by decide)

/-- The notice of the third message: a registered tracker is told that it was denied. -/
theorem status_unsolicited_message :
    (∀ word ∈ StatusQuery.checkNetworkStatus.stopWords, ¬ word <:+: ascii "+CMTI: \"SM\",3\r\n") ∧
      ReturnsCode (StatusQuery.checkNetworkStatus.call fun _ => .sent)
        (Serial.awaiting ⟨.listening [] .cleared, [], [], 0⟩ (ascii "\r\n+CGREG: 0,1\r\n\r\nOK\r\n"))
        .netstateRegistered ∧
      ReturnsCode (StatusQuery.checkNetworkStatus.call fun _ => .sent)
        (Serial.awaiting ⟨.listening [] .cleared, [], [], 0⟩
          (ascii "+CMTI: \"SM\",3\r\n" ++ ascii "\r\n+CGREG: 0,1\r\n\r\nOK\r\n"))
        .netstateRegistrationDenied := by
  refine ⟨by decide, ?_, ?_⟩
  · exact ask_returns (fun _ => .sent) (by decide) (by decide) networkStatus _
      (ascii "\r\n+CGREG: 0,1\r\n\r\nOK\r\n") (by decide)
  · exact ask_returns (fun _ => .sent) (by decide) (by decide) networkStatus _
      (ascii "+CMTI: \"SM\",3\r\n" ++ ascii "\r\n+CGREG: 0,1\r\n\r\nOK\r\n") (by decide)

end Zouipocar
