import Zouipocar.Lib.Stages
import Zouipocar.Tracker.Dialogue
import Zouipocar.Tracker.Main
import Zouipocar.Tracker.RmcFields

/-!
# The program of the tracker

`main` from the reset on, call after call: the set-up, which tries most of its
commands again until they succeed, and the endless loop. Between two calls the
program is in one of its places; a call runs on the line, and `get_gps_data`
also on the C library and the one fix of `main`. The delays change nothing.
-/

namespace Zouipocar
set_option autoImplicit false
open Lib Action

/-- What the calls of `main` work on. -/
structure Board where
  line : Serial
  lib : CLib
  fix : FixOf CFloat

/-- A driver of the line. -/
def onLine {α : Type} (x : Driver α) : Action Board Unit α := zoom Board.line (fun b line => { b with line }) x

/-- `get_nmea_data`: its array is zeroed, so it holds no sentence before one is copied to it. -/
def getNmeaData (getFunc : Driver (ATRetCode × Option CString))
    (processFunc : CString → FixOf CFloat → CLib → ATRetCode × FixOf CFloat × CLib) :
    Action Board Unit ATRetCode := do
  let (res, nmea) ← onLine getFunc
  if res ≠ .ok then return res
  else
    let b ← get
    let (code, fix, lib) := processFunc (nmea.getD []) b.fix b.lib
    set { b with fix, lib }
    return code

def getGpsData (uart : Nat → Wait) (fuel : Nat) : Action Board Unit ATRetCode :=
  getNmeaData (gpsGetRmc uart fuel) processRmc

/-- The fix in memory, given the pattern of each float. -/
def image (float : CFloat → BitVec 32) (fix : FixOf CFloat) : Fix where
  timestamp := fix.timestamp
  latitude := float fix.latitude
  longitude := float fix.longitude
  speed := fix.speed

/-- `(uint8_t *)&fix` and `sizeof(Fix)`. -/
def datagram (float : CFloat → BitVec 32) (fix : FixOf CFloat) : { bytes : List Byte // bytes.length < 256 } :=
  ⟨(image float fix).bytes, by rw [Fix.bytes_length, Fix.size]; omega⟩

deriving instance DecidableEq for Main

/-- The next call of `main`. -/
inductive Place
  | disableEcho
  | setIpMultiplexing
  | setSmsTextMode
  | udpUseDomain
  | setApn
  | checkNetworkStatus
  | enableNtp
  | closeNtp -- udp_deact, behind a successful enable_ntp
  | enableEpo
  | enableGps
  | loop (m : Main)
deriving DecidableEq

/-! The constants of the calls; `PHONE` is used by none. -/

def Constants.apn : CString := ascii "apn.com"

def Constants.server : CString := ascii "example.com"

/-- `snprintf(port, 5, "%d", ZOUIPOCAR_PORT)`. -/
def Constants.port : CString := formatInt 1234

/-- The function of `at.c` that the loop calls, with the fix of `main` as it is. -/
def Point.command (float : CFloat → BitVec 32) (fix : FixOf CFloat) : Point → AtCommand
  | getIpStatus => .getIpStatus
  | udpDeact => .udpDeact
  | udpOpen => .udpOpen Constants.server Constants.port
  | getGpsData => .gpsGetRmc
  | udpSend => .udpSend (datagram float fix)

namespace Place

/-- `LOOP_UNTIL_VALUE`. -/
def untilValue (here next : Place) (expected : ATRetCode) (code : Int) : Place :=
  if code ≠ expected.value then here else next

/-- Where `main` goes on with the code of the call. -/
def next : Place → Int → Place
  | disableEcho => untilValue disableEcho setIpMultiplexing .ok
  | setIpMultiplexing => untilValue setIpMultiplexing setSmsTextMode .ok
  | setSmsTextMode => untilValue setSmsTextMode udpUseDomain .ok
  | udpUseDomain => untilValue udpUseDomain setApn .ok
  | setApn => untilValue setApn checkNetworkStatus .ok
  | checkNetworkStatus => untilValue checkNetworkStatus enableNtp .netstateRegistered
  | enableNtp => fun code => if code = ATRetCode.ok.value then closeNtp else enableEpo
  | closeNtp => untilValue closeNtp enableEpo .ok
  | enableEpo => fun _ => enableGps
  | enableGps => untilValue enableGps (loop .start) .ok
  | loop m => fun code => loop (m.step code).1

/-- The call takes `main` to the head of its endless loop. -/
def atHead : Place → Int → Bool
  | enableGps, code => code = ATRetCode.ok.value
  | loop m, code => m.point = .udpSend ∨ m.point = .getGpsData ∧ code ≠ ATRetCode.ok.value
  | _, _ => false

def command (float : CFloat → BitVec 32) (fix : FixOf CFloat) : Place → AtCommand
  | disableEcho => .disableEcho
  | setIpMultiplexing => .setIpMultiplexing 0
  | setSmsTextMode => .setSmsTextMode
  | udpUseDomain => .udpUseDomain
  | setApn => .setApn Constants.apn
  | checkNetworkStatus => .checkNetworkStatus
  | enableNtp => .enableNtp
  | closeNtp => .udpDeact
  | enableEpo => .enableEpo
  | enableGps => .enableGps
  | loop m => m.point.command float fix

/-- The call of `get_gps_data`. -/
def parses : Place → Bool
  | loop m => m.point = .getGpsData
  | _ => false

/-- The call itself. -/
def call (float : CFloat → BitVec 32) (uart : Nat → Wait) (fuel : Nat) (p : Place) : Action Board Unit Int := do
  if p.parses then return (← getGpsData uart fuel).value
  else onLine ((p.command float (← get).fix).run uart fuel)

end Place

/-- `main` between two calls. -/
structure Program where
  board : Board
  place : Place

/-- A call: where it was made, the command behind it, the code it returned, what
the modem replied and what was written to it. -/
structure Turn where
  place : Place
  command : AtCommand
  code : Int
  reply : CString
  wrote : List Byte

namespace Program

/-- After the reset, whatever the line brings; `main` has not set its fix yet. -/
def reset (line : Serial) (fix : FixOf CFloat) : Program := ⟨⟨line, .start, fix⟩, .disableEcho⟩

/-- The state behind a call; the head of the endless loop clears the fix. -/
def after (board : Board) (place : Place) (code : Int) : Program where
  board := if place.atHead code then { board with fix := zeroed } else board
  place := place.next code

section Calls

variable (float : CFloat → BitVec 32) (uart : Nat → Wait)

/-- The next call, if it returns within the fuel. -/
def turn (fuel : Nat) (p : Program) : Option (Turn × Program) :=
  match result (p.place.call float uart fuel) p.board with
  | (.error (), _) => none
  | (.ok code, board) => some
    ({ place := p.place
       command := p.place.command float p.board.fix
       code
       reply := board.line.port.res.text
       wrote := board.line.tx.drop p.board.line.tx.length }, after board p.place code)

/-- A call that returns. -/
def Step (p : Program) (e : Turn) (q : Program) : Prop := ∃ fuel, p.turn float uart fuel = some (e, q)

/-- One call after the other, each within the fuel. -/
def turns (fuel : Nat) : Nat → Program → Option (List Turn × Program)
  | 0, p => some ([], p)
  | n + 1, p => do
    let (e, q) ← p.turn float uart fuel
    let (rest, q) ← turns fuel n q
    return (e :: rest, q)

variable {float uart} {p q : Program} {e : Turn}

/-- **What a call that returned has done.** -/
theorem step_cases (taken : Step float uart p e q) :
    ∃ fuel board, result (p.place.call float uart fuel) p.board = (.ok e.code, board) ∧
      e.place = p.place ∧ e.command = p.place.command float p.board.fix ∧
      e.reply = board.line.port.res.text ∧ e.wrote = board.line.tx.drop p.board.line.tx.length ∧
      q = after board p.place e.code := by
  obtain ⟨fuel, taken⟩ := taken
  unfold turn at taken
  cases ran : result (p.place.call float uart fuel) p.board with
  | mk outcome board =>
    rw [ran] at taken
    cases outcome with
    | error => cases taken
    | ok code =>
      cases taken
      exact ⟨fuel, board, ran, rfl, rfl, rfl, rfl, rfl⟩

theorem step_of_result {fuel : Nat} {code : Int} {board : Board}
    (ran : result (p.place.call float uart fuel) p.board = (.ok code, board)) :
    ∃ e, Step float uart p e (after board p.place code) := by
  refine ⟨⟨p.place, p.place.command float p.board.fix, code, board.line.port.res.text,
    board.line.tx.drop p.board.line.tx.length⟩, fuel, ?_⟩
  rw [turn, ran]

theorem turns_run {fuel n : Nat} {trace : List Turn} (ran : turns float uart fuel n p = some (trace, q)) :
    Run (Step float uart) p trace q := by
  induction n generalizing p trace with
  | zero =>
    cases ran
    exact .refl _
  | succ n ih =>
    obtain ⟨⟨e, m⟩, first, onward⟩ := Option.bind_eq_some_iff.mp ran
    obtain ⟨⟨rest, q'⟩, others, same⟩ := Option.bind_eq_some_iff.mp onward
    cases same
    exact .cons ⟨fuel, first⟩ (ih others)

end Calls

end Program

/-- The modem's replies of a drive: the set-up without a time server, a
connection that is open, and a sentence. -/
def drive : Program :=
  .reset ⟨.listening [] .cleared, [ascii "OK\r\n", ascii "OK\r\n", ascii "OK\r\n", ascii "OK\r\n",
    ascii "OK\r\n", ascii "+CGREG: 0,1\r\nOK\r\n", ascii "ERROR\r\n", ascii "OK\r\n", ascii "OK\r\n",
    ascii "STATE: CONNECT OK\r\n",
    ascii "+QGNSSRD: $GNRMC,100302.000,A,4717.114,N,00831.54,E,12.5,0,170324,,,A*6B\r\nOK\r\n",
    ascii "\r\n> ", [], ascii "OK\r\n"], [], 0⟩ zeroed

def driven : Option (List Turn × Program) := drive.turns (fun _ => 0) (fun _ => .sent) 600 12

theorem driven_isSome : driven.isSome = true := by decide +kernel

theorem driven_run : Run (Program.Step (fun _ => 0) fun _ => .sent) drive (driven.get driven_isSome).1
    (driven.get driven_isSome).2 := Program.turns_run (Option.some_get driven_isSome).symm

end Zouipocar
