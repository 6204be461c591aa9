import Zouipocar.Lib.Emits
import Zouipocar.Tracker.Prompt
import Zouipocar.Tracker.Unsolicited

/-!
# The commands of `at.c`

Every function of `at.c` that talks to the modem, as a driver of the line. Those
with an argument put their command together in an array of their own; those
that cut a text out of the reply copy it to an array of their caller. A write
behind the end of either is undefined, and the model stops there, as it does
when its fuel is spent. The timeouts of the readers are in the stream.
-/

namespace Zouipocar
set_option autoImplicit false
open Lib

/-! ## Arrays for a string -/

/-- A string in a `char` array, with its terminator. -/
structure Buffer (size : Nat) where
  text : CString
  fits : text.length < size

/-- `char str[size] = "…";` -/
def Buffer.init (size : Nat) (text : CString) : Option (Buffer size) :=
  if fits : text.length < size then some ⟨text, fits⟩ else none

/-- `strcat`, which has to find room behind the string. -/
def Buffer.strcat {size : Nat} (b : Buffer size) (text : CString) : Option (Buffer size) :=
  Buffer.init size (b.text ++ text)

/-- An array, and what is appended to it one after the other. -/
def Buffer.build (size : Nat) (first : CString) (parts : List CString) : Option (Buffer size) :=
  parts.foldl (fun b text => b.bind (·.strcat text)) (init size first)

/-- The program stops where its behaviour is undefined. -/
def defined {α : Type} : Option α → Driver α
  | none => throw ()
  | some a => return a

/-- `sprintf(…, "%d", …)`. -/
def formatInt (n : Int) : CString := ascii (toString n)

/-- What `enable_ntp` makes of the reply. -/
def ntpStatus (retCode : Int) (data : CString) : ATRetCode :=
  if retCode = ATRetCode.ok.value then .ok
  else
    let pos := indexOf data (ascii ": ")
    if pos = -1 then .error
    else
      match data.getD (pos + 2).toNat 0 with
      | 48 => .ok
      | 49 => .ntpUnknownFail
      | 50 => .ntpNoResponse
      | 51 => .ntpTcpStackBusy
      | 52 => .ntpServerNotFound
      | 53 => .ntpPdpContextFailed
      | _ => .error

/-- What `udp_open` makes of it. -/
def udpOpenCode (ret : Int) (_ : CString) : ATRetCode :=
  if ret = 0 ∨ ret = 1 then .ok
  else if ret = 2 then .udpConnectFail
  else .error

/-- What `enable_gps` makes of it: a timeout passes for success. -/
def enableGpsCode (retCode : Int) (_ : CString) : ATRetCode := if retCode = 2 then .error else .ok

instance (c : Copy) (size : Nat) : Decidable (c.Inside size) :=
  decidable_of_iff (0 ≤ c.start ∧ 0 ≤ c.length ∧ c.start + c.length ≤ maxPacketSize ∧ c.length < size)
    ⟨fun ⟨start, length, source, destination⟩ => ⟨start, length, source, destination⟩,
      fun h => ⟨h.start_nonneg, h.length_nonneg, h.source, h.destination⟩⟩

/-- The bytes of a copy. -/
def Copy.slice (c : Copy) (data : CString) : CString := (data.drop c.start.toNat).take c.length.toNat

namespace Cutter

/-- What each waits for. -/
def stopWords : Cutter → List CString
  | ipStatus => [ascii "STATE", ascii "ERROR"]
  | epoValidity | nmeaSentence => okError

end Cutter

section Commands

variable (uart : Nat → Wait)

/-- A command whose result is the code of its reply. -/
def simpleCmd (cmdstr : CString) (fuel : Nat) : Driver Int := do
  cmd uart cmdstr okError fuel
  return (← get).port.res.retCode

/-- A command put together in an array, for `simple_cmd`. -/
def simpleCmdIn (size : Nat) (first : CString) (parts : List CString) (fuel : Nat) : Driver Int := do
  let str ← defined (Buffer.build size first parts)
  simpleCmd uart str.text fuel

/-- A command, and the text that is cut out of its reply. -/
def cut (f : Cutter) (cmdstr : CString) (fuel : Nat) : Driver (ATRetCode × Option CString) := do
  cmd uart cmdstr f.stopWords fuel
  let res := (← get).port.res
  match f.run res.retCode res.text with
  | (code, none) => return (code, none)
  | (code, some c) =>
    if c.Inside f.size then return (code, some (c.slice res.text))
    else throw ()

def disableEcho (fuel : Nat) : Driver Int := simpleCmd uart (ascii "ATE0\r") fuel

def setApn (apnUrl : CString) (fuel : Nat) : Driver Int :=
  simpleCmdIn uart 50 (ascii "AT+QICSGP=1,\"") [apnUrl, ascii "\",,\r"] fuel

def setDnsServer (addr : CString) (fuel : Nat) : Driver Int :=
  simpleCmdIn uart 50 (ascii "AT+QIDNSCFG=\"") [addr, ascii "\"\r"] fuel

def dnsResolve (domain : CString) (fuel : Nat) : Driver Int :=
  simpleCmdIn uart 50 (ascii "AT+QIDNSGIP=\"") [domain, ascii "\"\r"] fuel

def setPdpContext (context : BitVec 16) (fuel : Nat) : Driver Int :=
  simpleCmdIn uart 20 (ascii "AT+QIFGCNT=") [formatInt context.toInt, ascii "\r"] fuel

def enableNtp (fuel : Nat) : Driver ATRetCode :=
  ask uart (ascii "AT+QNTP=\"time.nist.gov\"\r") [ascii "+QNTP: 0", ascii "ERROR"] ntpStatus fuel

def setIpMultiplexing (state : BitVec 8) (fuel : Nat) : Driver Int :=
  let state := if 1 < state then 1 else state
  simpleCmdIn uart 30 (ascii "AT+QIMUX=") [formatInt state.toNat, ascii "\r"] fuel

def getIpStatusCmd (fuel : Nat) : Driver ATRetCode := do
  let (code, _) ← cut uart .ipStatus (ascii "AT+QISTATE\r") fuel
  return code

def udpUseDomain (fuel : Nat) : Driver Int := simpleCmd uart (ascii "AT+QIDNSIP=1\r") fuel

def udpOpen (addr port : CString) (fuel : Nat) : Driver ATRetCode := do
  let str ← defined (Buffer.build 50 (ascii "AT+QIOPEN=\"UDP\",\"") [addr, ascii "\",", port, ascii "\r"])
  ask uart str.text [ascii "ALREADY CONNECT", ascii "CONNECT OK", ascii "CONNECT FAIL", ascii "ERROR"]
    udpOpenCode fuel

def udpClose (fuel : Nat) : Driver Int := simpleCmd uart (ascii "AT+QICLOSE\r") fuel

/-- With the stop words of `simple_cmd`, and a longer timeout. -/
def udpDeact (fuel : Nat) : Driver Int := simpleCmd uart (ascii "AT+QIDEACT\r") fuel

def enableGps (fuel : Nat) : Driver ATRetCode :=
  ask uart (ascii "AT+QGNSSC=1\r") [ascii "OK", ascii "7103", ascii "ERROR"] enableGpsCode fuel

def setSmsReceptionMode (fuel : Nat) : Driver Int := simpleCmd uart (ascii "AT+CNMI=2,2\r") fuel

def setSmsTextMode (fuel : Nat) : Driver Int := simpleCmd uart (ascii "AT+CMGF=1\r") fuel

/-- The one command without a carriage return. -/
def clearSmsMemory (fuel : Nat) : Driver Int := simpleCmd uart (ascii "AT+QMGDA=\"DEL ALL\"") fuel

def enableEpo (fuel : Nat) : Driver Int := simpleCmd uart (ascii "AT+QGNSSEPO=1\r") fuel

def removeEpoData (fuel : Nat) : Driver Int := simpleCmd uart (ascii "AT+QGEPOF=1,255\r") fuel

def getEpoValidityCmd (fuel : Nat) : Driver (ATRetCode × Option CString) :=
  cut uart .epoValidity (ascii "AT+QGEPOF=2\r") fuel

def gpsGetNmeaSentenceCmd (sentence : CString) (fuel : Nat) : Driver (ATRetCode × Option CString) := do
  let cmdstr ← defined (Buffer.build 30 (ascii "AT+QGNSSRD=\"NMEA/") [sentence, ascii "\"\r"])
  cut uart .nmeaSentence cmdstr.text fuel

def gpsGetRmc (fuel : Nat) : Driver (ATRetCode × Option CString) :=
  gpsGetNmeaSentenceCmd uart (ascii "RMC") fuel

end Commands

/-! ## All of them -/

/-- The functions of `at.h` with their arguments; `stack` is what `send_sms` finds
behind its `termination`. -/
inductive AtCommand
  | disableEcho
  | setApn (apnUrl : CString)
  | setDnsServer (addr : CString)
  | dnsResolve (domain : CString)
  | setPdpContext (context : BitVec 16)
  | checkNetworkStatus
  | checkTimeSyncStatus
  | enableNtp
  | setIpMultiplexing (state : BitVec 8)
  | getIpStatus
  | udpUseDomain
  | udpOpen (addr port : CString)
  | udpClose
  | udpSend (data : { bytes : List Byte // bytes.length < 256 })
  | udpDeact
  | setSmsReceptionMode
  | setSmsTextMode
  | sendSms (phoneNumber text stack : CString)
  | clearSmsMemory
  | enableGps
  | enableEpo
  | removeEpoData
  | getEpoValidity
  | gpsGetRmc
deriving DecidableEq

namespace AtCommand

/-- The line a command puts on the wire, without what goes behind a prompt. -/
def text : AtCommand → CString
  | disableEcho => ascii "ATE0\r"
  | setApn apnUrl => ascii "AT+QICSGP=1,\"" ++ apnUrl ++ ascii "\",,\r"
  | setDnsServer addr => ascii "AT+QIDNSCFG=\"" ++ addr ++ ascii "\"\r"
  | dnsResolve domain => ascii "AT+QIDNSGIP=\"" ++ domain ++ ascii "\"\r"
  | setPdpContext context => ascii "AT+QIFGCNT=" ++ formatInt context.toInt ++ ascii "\r"
  | checkNetworkStatus => ascii "AT+CGREG?\r"
  | checkTimeSyncStatus => ascii "AT+QGNSSTS?\r"
  | enableNtp => ascii "AT+QNTP=\"time.nist.gov\"\r"
  | setIpMultiplexing state =>
    ascii "AT+QIMUX=" ++ formatInt (if 1 < state then 1 else state : BitVec 8).toNat ++ ascii "\r"
  | getIpStatus => ascii "AT+QISTATE\r"
  | udpUseDomain => ascii "AT+QIDNSIP=1\r"
  | udpOpen addr port => ascii "AT+QIOPEN=\"UDP\",\"" ++ addr ++ ascii "\"," ++ port ++ ascii "\r"
  | udpClose => ascii "AT+QICLOSE\r"
  | udpSend data => ascii "AT+QISEND=" ++ ascii (toString data.val.length) ++ ascii "\r"
  | udpDeact => ascii "AT+QIDEACT\r"
  | setSmsReceptionMode => ascii "AT+CNMI=2,2\r"
  | setSmsTextMode => ascii "AT+CMGF=1\r"
  | sendSms phoneNumber _ _ => ascii "AT+CMGS=\"" ++ phoneNumber ++ ascii "\"\r"
  | clearSmsMemory => ascii "AT+QMGDA=\"DEL ALL\""
  | enableGps => ascii "AT+QGNSSC=1\r"
  | enableEpo => ascii "AT+QGNSSEPO=1\r"
  | removeEpoData => ascii "AT+QGEPOF=1,255\r"
  | getEpoValidity => ascii "AT+QGEPOF=2\r"
  | gpsGetRmc => ascii "AT+QGNSSRD=\"NMEA/RMC\"\r"

/-- What goes behind the prompt, one write after the other. The size of the last of
`send_sms` is a `uint8_t`. -/
def payload : AtCommand → List (List Byte)
  | udpSend data => [data.val]
  | sendSms _ text stack => [text, (26 :: stack).take ((stack.length + 1) % 256)]
  | _ => []

/-- The function, with the code it returns. -/
def run (uart : Nat → Wait) (fuel : Nat) : AtCommand → Driver Int
  | disableEcho => Zouipocar.disableEcho uart fuel
  | setApn apnUrl => Zouipocar.setApn uart apnUrl fuel
  | setDnsServer addr => Zouipocar.setDnsServer uart addr fuel
  | dnsResolve domain => Zouipocar.dnsResolve uart domain fuel
  | setPdpContext context => Zouipocar.setPdpContext uart context fuel
  | checkNetworkStatus => return (← StatusQuery.checkNetworkStatus.call uart fuel).value
  | checkTimeSyncStatus => return (← StatusQuery.checkTimeSyncStatus.call uart fuel).value
  | enableNtp => return (← Zouipocar.enableNtp uart fuel).value
  | setIpMultiplexing state => Zouipocar.setIpMultiplexing uart state fuel
  | getIpStatus => return (← getIpStatusCmd uart fuel).value
  | udpUseDomain => Zouipocar.udpUseDomain uart fuel
  | udpOpen addr port => return (← Zouipocar.udpOpen uart addr port fuel).value
  | udpClose => Zouipocar.udpClose uart fuel
  | udpSend data => return (← Zouipocar.udpSend uart data.val (BitVec.ofNat 8 data.val.length) fuel).value
  | udpDeact => Zouipocar.udpDeact uart fuel
  | setSmsReceptionMode => Zouipocar.setSmsReceptionMode uart fuel
  | setSmsTextMode => Zouipocar.setSmsTextMode uart fuel
  | sendSms phoneNumber text stack => do
    let _ ← defined (Buffer.build 50 (ascii "AT+CMGS=\"") [phoneNumber, ascii "\"\r"])
    return (← Zouipocar.sendSms uart phoneNumber text stack fuel).value
  | clearSmsMemory => Zouipocar.clearSmsMemory uart fuel
  | enableGps => return (← Zouipocar.enableGps uart fuel).value
  | enableEpo => Zouipocar.enableEpo uart fuel
  | removeEpoData => Zouipocar.removeEpoData uart fuel
  | getEpoValidity => return (← getEpoValidityCmd uart fuel).1.value
  | gpsGetRmc => return (← Zouipocar.gpsGetRmc uart fuel).1.value

end AtCommand

end Zouipocar
