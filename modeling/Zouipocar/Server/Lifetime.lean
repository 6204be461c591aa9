import Zouipocar.Lib.Records
import Zouipocar.Lib.Transition
import Zouipocar.Server.Udp

/-!
# The listener thread and the objects it uses

`main` constructs the database, the HTTP server and the UDP listener, serves
until it is stopped, and destroys the three the other way round. The thread of
the listener runs next to it and calls back into the other two. The flag
`_listen_thread_running` keeps them apart: the constructor waits until the
thread has set it, and the destructor clears it, wakes the thread up and joins
it. Without the wait the thread may set the flag after
the destructor has cleared it, and the join never ends.
-/

namespace Zouipocar
set_option autoImplicit false
open Lib

/-- Where `main` stands. -/
inductive MainPlace
  | database -- about to construct it, and so on
  | httpServer
  | udpSocket
  | udpThread
  | udpWait -- `while (!_listen_thread_running);`
  | serving -- `svr.listen`
  | clearFlag -- `~UDP` from here
  | shutdownSocket
  | closeSocket
  | join
  | dropServer
  | dropDatabase
  | returned
  | terminated -- a constructor threw
deriving DecidableEq

/-- Before there is a thread. -/
def MainPlace.before : MainPlace → Bool
  | .database | .httpServer | .udpSocket | .udpThread | .terminated => true
  | _ => false

/-- The database, the HTTP server and the listener exist. -/
def MainPlace.alive : MainPlace → Bool
  | .udpWait | .serving | .clearFlag | .shutdownSocket | .closeSocket | .join => true
  | _ => false

/-- The flag has been cleared. -/
def MainPlace.cleared : MainPlace → Bool
  | .shutdownSocket | .closeSocket | .join | .dropServer | .dropDatabase | .returned => true
  | _ => false

/-- The steps from there to the end. -/
def MainPlace.left : MainPlace → Nat
  | .shutdownSocket => 5
  | .closeSocket => 4
  | .join => 3
  | .dropServer => 2
  | .dropDatabase => 1
  | _ => 0

theorem MainPlace.after_of_cleared {p : MainPlace} (cleared : p.cleared = true) :
    p.before = false ∧ p ≠ .udpWait := by
  cases p with
  | shutdownSocket | closeSocket | join | dropServer | dropDatabase | returned => exact ⟨rfl, by decide⟩
  | _ => cases cleared

/-- Where the listener thread stands. -/
inductive ThreadPlace
  | unborn
  | start -- about to set the flag
  | loop -- about to read it
  | receive
  | judge (size : Int) -- the tests of the size
  | offer -- the last test of the flag
  | callback
  | ended
deriving DecidableEq

/-- The steps of a thread that finds the flag cleared. -/
def ThreadPlace.left : ThreadPlace → Nat
  | .receive => 4
  | .judge _ => 3
  | .offer | .callback => 2
  | .loop => 1
  | .unborn | .start | .ended => 0

inductive UdpSocket
  | opened | shut | closed
deriving DecidableEq

/-- Both threads and what they share. -/
structure Lifetime where
  main : MainPlace
  thread : ThreadPlace
  /-- `_listen_thread_running` -/
  running : Bool
  socket : UdpSocket
  buffer : ListenBuffer
  /-- The fixes given to the callback. -/
  calls : List Fix

/-- Who takes a step. `recvfrom` returns a datagram or an error. -/
inductive Move
  | main
  | thread
  | receive (datagram : Option Datagram)

namespace Lifetime

def boot (buffer : ListenBuffer) : Lifetime := ⟨.database, .unborn, false, .opened, buffer, []⟩

/-- What may return from `recvfrom`. It need not return at all on an open socket;
on the others it does. -/
def Returns : UdpSocket → Option Datagram → Prop
  | .closed, d => d = none
  | _, _ => True

/-- What a step of `main` does; `none` while it is blocked. `waits` is the loop at
the end of the constructor of `UDP`. -/
def mainStep (waits : Bool) (s : Lifetime) : Option Lifetime :=
  match s.main with
  | .database => some { s with main := .httpServer }
  | .httpServer => some { s with main := .udpSocket }
  | .udpSocket => some { s with main := .udpThread }
  | .udpThread => some { s with main := if waits then .udpWait else .serving, thread := .start }
  | .udpWait => some (if s.running then { s with main := .serving } else s)
  | .serving => some { s with main := .clearFlag }
  | .clearFlag => some { s with main := .shutdownSocket, running := false }
  | .shutdownSocket => some { s with main := .closeSocket, socket := .shut }
  | .closeSocket => some { s with main := .join, socket := .closed }
  | .join => if s.thread = .ended then some { s with main := .dropServer } else none
  | .dropServer => some { s with main := .dropDatabase }
  | .dropDatabase => some { s with main := .returned }
  | .returned | .terminated => none

/-- What a step of the thread does; `recvfrom` is left to `Step`. -/
def threadStep (s : Lifetime) : Option Lifetime :=
  match s.thread with
  | .unborn | .receive | .ended => none
  | .start => some { s with running := true, thread := .loop }
  | .loop => some { s with thread := if s.running then .receive else .ended }
  | .judge size =>
    some { s with
      thread := if size = -1 then .loop
        else if size ≠ Fix.size ∧ s.running = true then .loop
        else .offer }
  | .offer =>
    some (if s.running then { s with thread := .callback, calls := s.calls ++ [Fix.ofBytes s.buffer.val] }
      else { s with thread := .loop })
  | .callback => some { s with thread := .loop }

inductive Step (waits : Bool) : Lifetime → Move → Lifetime → Prop
  | main {s t : Lifetime} : s.mainStep waits = some t → Step waits s .main t
  /-- A constructor may throw, of `UDP` before there is a thread. -/
  | throws {s : Lifetime} : s.main = .database ∨ s.main = .httpServer ∨ s.main = .udpSocket →
      Step waits s .main { s with main := .terminated }
  | thread {s t : Lifetime} : s.threadStep = some t → Step waits s .thread t
  | receive {s : Lifetime} {d : Option Datagram} : s.thread = .receive → Returns s.socket d →
      Step waits s (.receive d) { s with
        buffer := (Udp.recvfrom s.buffer d).2
        thread := .judge (Udp.recvfrom s.buffer d).1 }

/-! ## No callback without the objects it uses -/

variable {waits : Bool} {s t : Lifetime} {e : Move} {trace : List Move} {buffer : ListenBuffer}

/-- What `main` leaves to the thread. -/
theorem mainStep_cases (taken : s.mainStep waits = some t) :
    t.calls = s.calls ∧ t.buffer = s.buffer ∧ (t.running = s.running ∨ t.running = false) ∧
      (t.thread = s.thread ∨ s.main = .udpThread ∧ t.thread = .start) := by
  unfold mainStep at taken
  cases place : s.main with
  | udpThread =>
    rw [place] at taken
    cases taken
    exact ⟨rfl, rfl, .inl rfl, .inr ⟨rfl, rfl⟩⟩
  | udpWait =>
    rw [place] at taken
    dsimp only at taken
    split at taken <;> (cases taken; exact ⟨rfl, rfl, .inl rfl, .inl rfl⟩)
  | clearFlag =>
    rw [place] at taken
    cases taken
    exact ⟨rfl, rfl, .inr rfl, .inl rfl⟩
  | join =>
    rw [place] at taken
    dsimp only at taken
    split at taken <;> cases taken
    exact ⟨rfl, rfl, .inl rfl, .inl rfl⟩
  | _ =>
    rw [place] at taken
    cases taken <;> exact ⟨rfl, rfl, .inl rfl, .inl rfl⟩

/-- The two threads stand together. -/
structure Placed (s : Lifetime) : Prop where
  unborn : s.thread = .unborn ↔ s.main.before = true
  ended : s.main.before = false → s.main.alive = false → s.thread = .ended

/-- What the thread leaves to `main`. -/
theorem threadStep_cases (taken : s.threadStep = some t) :
    t.main = s.main ∧ t.socket = s.socket ∧ (t.running = s.running ∨ s.thread = .start) ∧
      s.thread ≠ .unborn ∧ s.thread ≠ .ended ∧ t.thread ≠ .unborn ∧ t.thread ≠ .start := by
  unfold threadStep at taken
  cases place : s.thread with
  | unborn | receive | ended =>
    rw [place] at taken
    cases taken
  | loop | judge | offer =>
    rw [place] at taken
    cases taken
    split <;> (try split) <;> simp
  | start | callback =>
    rw [place] at taken
    cases taken
    simp

theorem Placed.boot (buffer : ListenBuffer) : Placed (boot buffer) := ⟨by simp [Lifetime.boot, MainPlace.before], by
  simp [Lifetime.boot, MainPlace.before]⟩

theorem Placed.step (h : Placed s) (taken : Step waits s e t) : Placed t := by
  obtain ⟨unborn, ended⟩ := h
  cases taken with
  | main taken =>
    unfold mainStep at taken
    cases place : s.main with
    | udpThread =>
      rw [place] at taken
      cases taken
      cases waits <;> exact ⟨by simp [MainPlace.before], by simp [MainPlace.alive]⟩
    | udpWait =>
      rw [place] at taken unborn ended
      dsimp only at taken
      split at taken <;> cases taken
      · exact ⟨unborn, ended⟩
      · exact ⟨place ▸ unborn, place ▸ ended⟩
    | join =>
      rw [place] at taken unborn
      dsimp only at taken
      split at taken <;> cases taken
      rename_i gone
      exact ⟨unborn, fun _ _ => gone⟩
    | _ =>
      rw [place] at taken unborn ended
      cases taken <;> exact ⟨unborn, ended⟩
  | throws place =>
    have before : s.main.before = true := by rcases place with here | here | here <;> rw [here] <;> rfl
    exact ⟨⟨fun _ => rfl, fun _ => unborn.mpr before⟩, nofun⟩
  | thread taken =>
    obtain ⟨main, -, -, born, running, born', -⟩ := threadStep_cases taken
    have after : s.main.before = false := by simpa [born] using unborn
    constructor
    · rw [main, after]
      simp [born']
    · rw [main]
      exact fun before dead => absurd (ended before dead) running
  | receive place =>
    have after : s.main.before = false := by simpa [place] using unborn
    constructor
    · simp [after]
    · intro before dead
      rw [place] at ended
      cases ended before dead

theorem Placed.run (run : Run (Step waits) (Lifetime.boot buffer) trace s) : Placed s :=
  run.invariant Placed (fun _ _ _ h taken => h.step taken) (.boot buffer)

/-- While the thread runs, the objects are there. -/
theorem Placed.alive (h : Placed s) (born : s.thread ≠ .unborn) (running : s.thread ≠ .ended) :
    s.main.alive = true := by
  have after : s.main.before = false := by simpa [born] using h.unborn
  by_contra dead
  exact running (h.ended after (by simpa using dead))

/-! ## What the callback gets -/

/-- What `recvfrom` returned so far. -/
def receipts (trace : List Move) : List (Option Datagram) :=
  trace.filterMap fun | .receive d => some d | _ => none

/-- The fixes `listen` passes on, had the flag been set all the time. -/
def heeded (buffer : ListenBuffer) (handled : List (Option Datagram)) : List Fix :=
  Udp.listen buffer (handled.map fun d => ⟨d, true⟩)

theorem heeded_snoc (handled : List (Option Datagram)) (d : Option Datagram) :
    heeded buffer (handled ++ [d]) = heeded buffer handled ++ (d.bind Udp.passed).toList := by
  have all : ∀ ds : List (Option Datagram), Udp.received (ds.map fun d => ⟨d, true⟩) = ds.filterMap id := by
    intro ds
    rw [Udp.received]
    induction ds with
    | nil => rfl
    | cons d rest ih => cases d <;> simpa using ih
  rw [heeded, heeded, Udp.listen_eq, Udp.listen_eq, all, all, List.filterMap_append, List.filterMap_append]
  congr 1
  cases d with
  | none => rfl
  | some d => cases passes : Udp.passed d <;> simp [passes]

/-- What was received was passed on as `listen` does, up to the datagram at hand. -/
def Listened (buffer : ListenBuffer) (got : List (Option Datagram)) (s : Lifetime) : Prop :=
  ∃ handled, s.calls = heeded buffer handled ∧
    match s.thread with
    | .judge size => ∃ d before, got = handled ++ [d] ∧
        size = (Udp.recvfrom before d).1 ∧ s.buffer = (Udp.recvfrom before d).2
    | .offer => ∃ d, got = handled ++ [d] ∧
        (d.bind Udp.passed = some (Fix.ofBytes s.buffer.val) ∨ d.bind Udp.passed = none ∧ s.running = false)
    | .loop | .ended => got = handled ∨ s.running = false ∧ ∃ d, got = handled ++ [d]
    | _ => got = handled

variable {got : List (Option Datagram)}

/-- `main` may clear the flag, whatever the thread is doing. -/
theorem Listened.mainStep (h : Listened buffer got s) (placed : Placed s) (taken : s.mainStep waits = some t) :
    Listened buffer got t := by
  obtain ⟨handled, calls, h⟩ := h
  obtain ⟨calls', buffer', running, thread⟩ := mainStep_cases taken
  refine ⟨handled, calls'.trans calls, ?_⟩
  have cleared : s.running = false → t.running = false := fun off => running.elim (·.trans off) id
  rcases thread with same | ⟨here, starts⟩
  · rw [same]
    cases place : s.thread with
    | judge size =>
      rw [place] at h
      rw [buffer']
      exact h
    | offer =>
      rw [place] at h
      obtain ⟨d, whole, fate⟩ := h
      rw [buffer']
      exact ⟨d, whole, fate.imp_right fun dropped => ⟨dropped.1, cleared dropped.2⟩⟩
    | loop | ended =>
      rw [place] at h
      exact h.imp_right fun dropped => ⟨cleared dropped.1, dropped.2⟩
    | _ =>
      rw [place] at h
      exact h
  · have unborn : s.thread = .unborn := placed.unborn.mpr (by rw [here]; rfl)
    rw [unborn] at h
    rw [starts]
    exact h

/-- **A step of the thread does what `listen` does.** -/
theorem Listened.threadStep (h : Listened buffer got s) (taken : s.threadStep = some t) :
    Listened buffer got t := by
  obtain ⟨handled, calls, h⟩ := h
  unfold Lifetime.threadStep at taken
  cases place : s.thread with
  | unborn | receive | ended =>
    rw [place] at taken
    cases taken
  | start | callback =>
    rw [place] at taken h
    cases taken
    exact ⟨handled, calls, .inl h⟩
  | loop =>
    rw [place] at taken h
    obtain rfl := Option.some.inj taken
    refine ⟨handled, calls, ?_⟩
    cases on : s.running with
    | true => exact h.resolve_right fun dropped => by simp [on] at dropped
    | false => exact h.imp_right fun dropped => ⟨rfl, dropped.2⟩
  | judge size =>
    rw [place] at taken h
    obtain rfl := Option.some.inj taken
    obtain ⟨d, before, rfl, returned, content⟩ := h
    have silent : d.bind Udp.passed = none → s.calls = heeded buffer (handled ++ [d]) := by
      intro nothing
      rw [heeded_snoc, nothing, calls]
      exact (List.append_nil _).symm
    cases d with
    | none =>
      obtain rfl : size = -1 := returned
      exact ⟨_, silent rfl, .inl rfl⟩
    | some d =>
      by_cases full : Fix.size ≤ d.length
      · obtain ⟨fits, memory⟩ := Udp.recvfrom_full before full
        rw [fits] at returned
        subst returned
        refine ⟨handled, calls, some d, rfl, .inl ?_⟩
        rw [Option.bind_some, Udp.passed, if_pos full, content, memory]
      · have short := Udp.recvfrom_short before (Nat.lt_of_not_le full)
        have nothing : (some d).bind Udp.passed = none := if_neg full
        have other : size ≠ -1 ∧ size ≠ (Fix.size : Int) := by omega
        by_cases on : s.running = true
        · rw [if_neg other.1, if_pos ⟨other.2, on⟩]
          exact ⟨_, silent nothing, .inl rfl⟩
        · rw [if_neg other.1, if_neg fun both => on both.2]
          exact ⟨handled, calls, some d, rfl, .inr ⟨nothing, by simpa using on⟩⟩
  | offer =>
    rw [place] at taken h
    cases taken
    obtain ⟨d, rfl, fate⟩ := h
    split
    · rename_i on
      rcases fate with passes | ⟨-, off⟩
      · refine ⟨handled ++ [d], ?_, rfl⟩
        rw [heeded_snoc, passes, calls]
        rfl
      · rw [on] at off
        cases off
    · rename_i off
      exact ⟨handled, calls, .inr ⟨by simpa using off, d, rfl⟩⟩

theorem receipts_snoc (trace : List Move) (e : Move) : receipts (trace ++ [e]) = receipts trace ++ receipts [e] :=
  List.filterMap_append

theorem Listened.run (run : Run (Step waits) (Lifetime.boot buffer) trace s) : Listened buffer (receipts trace) s := by
  refine run.history (fun trace s => Listened buffer (receipts trace) s) ?_ ⟨[], rfl, rfl⟩
  intro trace m e t before h taken
  rw [receipts_snoc]
  cases taken with
  | main taken =>
    rw [show receipts [Move.main] = [] from rfl, List.append_nil]
    exact h.mainStep (.run before) taken
  | throws =>
    rw [show receipts [Move.main] = [] from rfl, List.append_nil]
    exact h
  | thread taken =>
    rw [show receipts [Move.thread] = [] from rfl, List.append_nil]
    exact h.threadStep taken
  | @receive d place =>
    obtain ⟨handled, calls, h⟩ := h
    rw [place] at h
    exact ⟨handled, calls, d, m.buffer, by rw [h]; rfl, rfl, rfl⟩

/-- **No callback runs without the database and the servers, and the callbacks are
those of `listen` on what was received, but for at most the last.** -/
theorem callback_safe (run : Run (Step waits) (Lifetime.boot buffer) trace s) :
    (s.thread = .callback → s.main.alive = true) ∧
      ∃ handled, Cut handled (receipts trace) ∧
        s.calls = Udp.listen buffer (handled.map fun d => ⟨d, true⟩) := by
  constructor
  · intro calling
    exact (Placed.run run).alive (by simp [calling]) (by simp [calling])
  · obtain ⟨handled, calls, h⟩ := Listened.run run
    refine ⟨handled, ?_, calls⟩
    cases place : s.thread with
    | judge =>
      rw [place] at h
      obtain ⟨d, _, whole, _⟩ := h
      exact .inr ⟨d, whole⟩
    | offer =>
      rw [place] at h
      obtain ⟨d, whole, _⟩ := h
      exact .inr ⟨d, whole⟩
    | loop | ended =>
      rw [place] at h
      exact h.imp_right And.right
    | _ =>
      rw [place] at h
      exact .inl h

/-- A datagram that arrives before the HTTP server serves. -/
theorem callback_safe_one : ∃ s : Lifetime, s.main = .udpWait ∧ s.main.alive = true ∧
    ∃ handled, Cut handled [some (Fix.bytes ⟨7, 0, 0, 10⟩)] ∧
      s.calls = Udp.listen ⟨List.replicate 13 0, rfl⟩ (handled.map fun d => ⟨d, true⟩) := by
  have run : Run (Step true) (Lifetime.boot ⟨List.replicate 13 0, rfl⟩) [.main, .main, .main, .main, .thread,
      .thread, .receive (some (Fix.bytes ⟨7, 0, 0, 10⟩)), .thread, .thread] _ :=
    .cons (.main rfl) (.cons (.main rfl) (.cons (.main rfl) (.cons (.main rfl) (.cons (.thread rfl)
      (.cons (.thread rfl) (.cons (.receive rfl trivial) (.cons (.thread rfl) (.single (.thread rfl)))))))))
  obtain ⟨safe, heard⟩ := callback_safe run
  exact ⟨_, rfl, safe rfl, heard⟩

/-! ## The destructor ends -/

/-- The move does not wait for a datagram. -/
def Ready (s : Lifetime) : Move → Prop
  | .receive _ => s.socket ≠ .opened
  | _ => True

/-- With the wait, a cleared flag stays cleared. -/
structure Settled (s : Lifetime) : Prop where
  fresh : s.thread = .unborn ∨ s.thread = .start → s.running = false
  started : s.main.before = false → s.main ≠ .udpWait → s.thread ≠ .start
  cleared : s.main.cleared = true → s.running = false
  closed : s.main = .join → s.socket = .closed

theorem Settled.boot (buffer : ListenBuffer) : Settled (boot buffer) :=
  ⟨fun _ => rfl, nofun, nofun, nofun⟩

theorem Settled.mainStep (h : Settled s) (placed : Placed s) (taken : s.mainStep true = some t) : Settled t := by
  obtain ⟨fresh, started, cleared, closed⟩ := h
  unfold Lifetime.mainStep at taken
  cases place : s.main with
  | udpThread =>
    rw [place] at taken
    cases taken
    exact ⟨fun _ => fresh (.inl (placed.unborn.mpr (by rw [place]; rfl))), fun _ other => absurd rfl other, nofun, nofun⟩
  | udpWait =>
    rw [place] at taken
    dsimp only at taken
    split at taken <;> cases taken
    · rename_i on
      refine ⟨fresh, fun _ _ starting => ?_, nofun, nofun⟩
      rw [fresh (.inr starting)] at on
      cases on
    · exact ⟨fresh, started, cleared, closed⟩
  | clearFlag =>
    rw [place] at taken started
    cases taken
    exact ⟨fun _ => rfl, fun _ _ => started rfl (by decide), fun _ => rfl, nofun⟩
  | join =>
    rw [place] at taken started cleared
    dsimp only at taken
    split at taken <;> cases taken
    exact ⟨fresh, fun _ _ => started rfl (by decide), fun _ => cleared rfl, nofun⟩
  | closeSocket =>
    rw [place] at taken started cleared
    cases taken
    exact ⟨fresh, fun _ _ => started rfl (by decide), fun _ => cleared rfl, fun _ => rfl⟩
  | serving | shutdownSocket | dropServer | dropDatabase =>
    rw [place] at taken started cleared
    cases taken
    exact ⟨fresh, fun _ _ => started rfl (by decide), cleared, nofun⟩
  | returned | terminated =>
    rw [place] at taken
    cases taken
  | _ =>
    rw [place] at taken
    cases taken
    exact ⟨fresh, nofun, nofun, nofun⟩

theorem Settled.step (h : Settled s) (placed : Placed s) (taken : Step true s e t) : Settled t := by
  cases taken with
  | main taken => exact h.mainStep placed taken
  | throws => exact ⟨h.fresh, nofun, nofun, nofun⟩
  | thread taken =>
    obtain ⟨main, socket, flag, born, running, born', started⟩ := threadStep_cases taken
    refine ⟨fun fresh => (fresh.elim born' started).elim, fun _ _ => started, fun cleared => ?_, ?_⟩
    · rw [main] at cleared
      rcases flag with same | starting
      · rw [same]
        exact h.cleared cleared
      · obtain ⟨after, waited⟩ := MainPlace.after_of_cleared cleared
        exact absurd starting (h.started after waited)
    · rw [main, socket]
      exact h.closed
  | receive place => exact ⟨fun fresh => by simp at fresh, fun _ _ => by simp, h.cleared, h.closed⟩

theorem Settled.run (run : Run (Step true) (Lifetime.boot buffer) trace s) : Settled s :=
  run.history (fun _ => Settled) (fun _ _ _ _ before h taken => h.step (.run before) taken) (.boot buffer)

/-- The steps both threads have left. -/
def remaining (s : Lifetime) : Nat := s.main.left + s.thread.left

/-- **Once the flag is cleared every step comes closer to the end.** -/
theorem Settled.decreases (h : Settled s) (cleared : s.main.cleared = true) (taken : Step waits s e t) :
    t.main.cleared = true ∧ t.remaining < s.remaining := by
  obtain ⟨after, waited⟩ := MainPlace.after_of_cleared cleared
  have off := h.cleared cleared
  have started := h.started after waited
  cases taken with
  | main taken =>
    unfold Lifetime.mainStep at taken
    cases place : s.main with
    | shutdownSocket | closeSocket | dropServer | dropDatabase =>
      rw [place] at taken
      cases taken
      simp [remaining, place, MainPlace.left, MainPlace.cleared]
    | join =>
      rw [place] at taken
      dsimp only at taken
      split at taken <;> cases taken
      simp [remaining, place, MainPlace.left, MainPlace.cleared]
    | returned =>
      rw [place] at taken
      cases taken
    | _ =>
      rw [place] at cleared
      cases cleared
  | throws place =>
    rcases place with here | here | here <;> (rw [here] at after; cases after)
  | thread taken =>
    have main := (threadStep_cases taken).1
    refine ⟨by rw [main]; exact cleared, ?_⟩
    rw [remaining, remaining, main]
    apply Nat.add_lt_add_left
    unfold Lifetime.threadStep at taken
    cases place : s.thread with
    | unborn | receive | ended =>
      rw [place] at taken
      cases taken
    | start => exact absurd place started
    | loop | callback =>
      rw [place] at taken
      cases taken
      simp [off, ThreadPlace.left]
    | judge =>
      rw [place] at taken
      cases taken
      simp only [off, Bool.false_eq_true, and_false, if_false]
      split <;> simp [ThreadPlace.left]
    | offer =>
      rw [place] at taken
      simp only [off] at taken
      cases taken
      simp [ThreadPlace.left]
  | receive place =>
    refine ⟨cleared, ?_⟩
    simp [remaining, place, ThreadPlace.left]

/-- Until `main` has returned there is a step that waits for nothing. -/
theorem Settled.progress (h : Settled s) (placed : Placed s) (cleared : s.main.cleared = true) :
    s.main = .returned ∨ ∃ e u, Step waits s e u ∧ Ready s e := by
  cases place : s.main with
  | returned => exact .inl rfl
  | shutdownSocket | closeSocket | dropServer | dropDatabase =>
    exact .inr ⟨.main, _, .main (by unfold Lifetime.mainStep; rw [place]), trivial⟩
  | join =>
    right
    cases thread : s.thread with
    | unborn =>
      have before := placed.unborn.mp thread
      rw [place] at before
      cases before
    | ended =>
      have gone : s.mainStep waits = some { s with main := .dropServer } := by
        unfold Lifetime.mainStep
        rw [place]
        exact if_pos thread
      exact ⟨.main, _, .main gone, trivial⟩
    | receive =>
      have closed := h.closed place
      exact ⟨.receive none, _, .receive thread (by rw [closed]; rfl), by rw [Ready, closed]; decide⟩
    | start | loop | judge | offer | callback =>
      exact ⟨.thread, _, .thread (by unfold Lifetime.threadStep; rw [thread]), trivial⟩
  | _ =>
    rw [place] at cleared
    cases cleared

/-- What the destructor promises from the moment it has cleared the flag: some
number of steps is enough, and none of them waits for a datagram. -/
def DestructorEnds (waits : Bool) : Prop :=
  ∃ bound, ∀ buffer trace s, Run (Step waits) (Lifetime.boot buffer) trace s → s.main = .shutdownSocket →
    ∀ more t, Run (Step waits) s more t →
      more.length ≤ bound ∧ (t.main = .returned ∨ ∃ e u, Step waits t e u ∧ Ready t e)

theorem destructorEnds : DestructorEnds true := by
  refine ⟨9, fun buffer trace s before here more t run => ?_⟩
  have cleared : s.main.cleared = true := by rw [here]; rfl
  have bounded : t.main.cleared = true ∧ more.length + t.remaining ≤ s.remaining := by
    refine run.history (fun more t => t.main.cleared = true ∧ more.length + t.remaining ≤ s.remaining) ?_
      ⟨cleared, by simp⟩
    intro more m e t run' h taken
    obtain ⟨still, less⟩ := (Settled.run (before.trans run')).decreases h.1 taken
    refine ⟨still, ?_⟩
    rw [List.length_append, List.length_singleton]
    omega
  have small : s.remaining ≤ 9 := by
    have least : s.thread.left ≤ 4 := by cases s.thread <;> simp [ThreadPlace.left]
    rw [remaining, here]
    exact Nat.add_le_add_left least 5
  refine ⟨by omega, ?_⟩
  have whole := before.trans run
  exact (Settled.run whole).progress (.run whole) bounded.1

/-- Without the wait the thread may set the flag again, and `main` joins it for ever. -/
theorem not_destructorEnds : ¬ DestructorEnds false := by
  rintro ⟨bound, ends⟩
  let buffer : ListenBuffer := ⟨List.replicate 13 0, rfl⟩
  let s : Lifetime := ⟨.shutdownSocket, .start, false, .opened, buffer, []⟩
  let r : Lifetime := ⟨.join, .loop, true, .closed, buffer, []⟩
  have before : Run (Step false) (Lifetime.boot buffer) (List.replicate 6 .main) s :=
    .cons (.main rfl) (.cons (.main rfl) (.cons (.main rfl) (.cons (.main rfl) (.cons (.main rfl)
      (.single (.main rfl))))))
  have late : Run (Step false) s [.main, .main, .thread] r :=
    .cons (.main rfl) (.cons (.main rfl) (.single (.thread rfl)))
  -- `recvfrom` fails at once on the closed socket
  have round : Run (Step false) r [.thread, .receive none, .thread] r :=
    .cons (.thread rfl) (.cons (.receive rfl rfl) (.single (.thread rfl)))
  have rounds : ∀ n, ∃ more, n ≤ more.length ∧ Run (Step false) r more r := by
    intro n
    induction n with
    | zero => exact ⟨[], le_refl _, .refl _⟩
    | succ n ih =>
      obtain ⟨more, long, run⟩ := ih
      refine ⟨more ++ _, ?_, run.trans round⟩
      simp only [List.length_append, List.length_cons, List.length_nil]
      omega
  obtain ⟨more, long, run⟩ := rounds bound
  have few := (ends buffer _ s before rfl _ r (late.trans run)).1
  rw [List.length_append] at few
  simp only [List.length_cons, List.length_nil] at few
  omega

/-- **The destructor ends in every interleaving exactly because the constructor
waits for the thread.** -/
theorem destructorEnds_iff (waits : Bool) : DestructorEnds waits ↔ waits = true := by
  cases waits with
  | true => exact ⟨fun _ => rfl, fun _ => destructorEnds⟩
  | false => exact ⟨fun ends => absurd ends not_destructorEnds, nofun⟩

end Lifetime

end Zouipocar
