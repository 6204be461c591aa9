import Zouipocar.Lib.Action
import Zouipocar.Lib.Transition
import Mathlib.Data.List.Nodup

/-!
# Listeners and the ports of the process

The constructor of `UDP` opens a socket, binds it and then starts to listen; it
may throw at each of these points. The destructor closes the socket, but it
does not run for an object whose constructor threw, so what was acquired by
then stays: an unbound descriptor when `bind` is refused, a bound port when the
callback is empty or no thread can be started.
-/

namespace Zouipocar
set_option autoImplicit false
open Lib

abbrev PortNumber := BitVec 16

/-- The open sockets of the process: their descriptors, and the ports they are bound to. -/
abbrev Sockets := List (Nat × Option PortNumber)

namespace Sockets

def descriptors (s : Sockets) : List Nat := s.map Prod.fst

/-- The ports bound by the process. -/
def ports (s : Sockets) : List PortNumber := s.filterMap Prod.snd

/-- `::close` -/
def close (s : Sockets) (fd : Nat) : Sockets := s.filter fun socket => socket.1 ≠ fd

end Sockets

/-- What the system calls of a construction come to. -/
structure Calls where
  /-- The descriptor of a new socket, unless there is none to be had. -/
  descriptor : Option Nat
  /-- Another process uses the port, or it may not be bound at all. -/
  refused : Bool
  /-- The port chosen for port `0`. -/
  ephemeral : PortNumber
  assigned : ephemeral ≠ 0
  /-- A thread can be started. -/
  thread : Bool

/-- A constructed `UDP`, with the port it listens on. -/
structure Listener where
  socket : Nat
  port : PortNumber
deriving DecidableEq

namespace Listener

variable (calls : Calls) (port : PortNumber) (callback : Bool)

/-- A bound socket has a port of its own. -/
def target : PortNumber := if port = 0 then calls.ephemeral else port

/-- `socket(AF_INET, SOCK_DGRAM, IPPROTO_UDP)` -/
def openSocket : Action Sockets String Nat :=
  match calls.descriptor with
  | none => throw "Failed to create UDP socket"
  | some fd => do
    modify fun s => (fd, none) :: s
    return fd

/-- `bind` gives a port to one socket at a time. -/
def bind (fd : Nat) : Action Sockets String Unit := do
  let s ← get
  if calls.refused ∨ target calls port ∈ s.ports then
    throw "Failed to bind UDP socket"
  set (s.map fun socket => if socket.1 = fd then (fd, some (target calls port)) else socket)

/-- `UDP::listen` up to the start of the thread. -/
def listen : Action Sockets String Unit := do
  if callback = false then
    throw "Cannot start listening, invalid callback"
  if calls.thread = false then
    throw "Resource temporarily unavailable"

/-- `UDP::UDP`; a callback is empty or valid. -/
def construct : Action Sockets String Listener := do
  let fd ← openSocket calls
  bind calls port fd
  listen calls callback
  return ⟨fd, target calls port⟩

/-- Only the new socket gets the port. -/
theorem result_bind {s : Sockets} {fd : Nat} (fresh : fd ∉ s.descriptors) :
    Action.result (bind calls port fd) ((fd, none) :: s) =
      if calls.refused ∨ target calls port ∈ s.ports then
        (.error "Failed to bind UDP socket", (fd, none) :: s)
      else (.ok (), (fd, some (target calls port)) :: s) := by
  have others : (s.map fun socket => if socket.1 = fd then (fd, some (target calls port)) else socket) = s := by
    refine (List.map_congr_left ?_).trans (List.map_id s)
    rintro ⟨other, bound⟩ inside
    apply if_neg
    rintro rfl
    exact fresh (List.mem_map_of_mem inside)
  have ports : Sockets.ports ((fd, none) :: s) = s.ports := rfl
  rw [bind, Action.result_bind_ok (Action.result_get _), ports]
  by_cases taken : calls.refused ∨ target calls port ∈ s.ports
  · rw [if_pos taken, if_pos taken]
    rfl
  · rw [if_neg taken, if_neg taken, List.map_cons, if_pos rfl, others]
    rfl

theorem result_listen (s : Sockets) :
    Action.result (listen calls callback) s =
      if callback = false then (.error "Cannot start listening, invalid callback", s)
      else if calls.thread = false then (.error "Resource temporarily unavailable", s)
      else (.ok (), s) := by
  cases callback <;> cases thread : calls.thread <;> simp [listen, thread]

/-- **What a construction leaves behind, whether or not it throws.** -/
theorem result_construct {s : Sockets} (fresh : ∀ fd, calls.descriptor = some fd → fd ∉ s.descriptors) :
    Action.result (construct calls port callback) s =
      match calls.descriptor with
      | none => (.error "Failed to create UDP socket", s)
      | some fd =>
        if calls.refused ∨ target calls port ∈ s.ports then
          (.error "Failed to bind UDP socket", (fd, none) :: s)
        else if callback = false then
          (.error "Cannot start listening, invalid callback", (fd, some (target calls port)) :: s)
        else if calls.thread = false then
          (.error "Resource temporarily unavailable", (fd, some (target calls port)) :: s)
        else (.ok ⟨fd, target calls port⟩, (fd, some (target calls port)) :: s) := by
  cases descriptor : calls.descriptor with
  | none => simp [construct, openSocket, descriptor]
  | some fd =>
    have opened : Action.result (openSocket calls) s = (.ok fd, (fd, none) :: s) := by
      simp only [openSocket, descriptor]
      rfl
    rw [construct, Action.result_bind_ok opened, Action.result_bind,
      result_bind calls port (fresh fd descriptor)]
    by_cases taken : calls.refused ∨ target calls port ∈ s.ports
    · simp only [if_pos taken]
    · simp only [if_neg taken]
      rw [Action.result_bind, result_listen]
      cases callback <;> cases thread : calls.thread <;> rfl

end Listener

/-! ## The process -/

/-- The sockets of the process, and the objects constructed and not yet destroyed. -/
structure Host where
  sockets : Sockets
  live : List Listener

inductive HostEvent
  | construct (calls : Calls) (port : PortNumber) (callback : Bool)
  | destroy (listener : Listener)

namespace Host
open Listener

/-- A new descriptor is none of the open ones. -/
def Admits (s : Host) (calls : Calls) : Prop :=
  ∀ fd, calls.descriptor = some fd → fd ∉ s.sockets.descriptors

inductive Step : Host → HostEvent → Host → Prop
  | constructed {s : Host} {calls : Calls} {port : PortNumber} {callback : Bool} {listener : Listener}
      {sockets : Sockets} (fresh : s.Admits calls)
      (returned : Action.result (construct calls port callback) s.sockets = (.ok listener, sockets)) :
      Step s (.construct calls port callback) ⟨sockets, listener :: s.live⟩
  | threw {s : Host} {calls : Calls} {port : PortNumber} {callback : Bool} {what : String}
      {sockets : Sockets} (fresh : s.Admits calls)
      (thrown : Action.result (construct calls port callback) s.sockets = (.error what, sockets)) :
      Step s (.construct calls port callback) ⟨sockets, s.live⟩
  | destroyed {s : Host} {listener : Listener} (alive : listener ∈ s.live) :
      Step s (.destroy listener) ⟨s.sockets.close listener.socket, s.live.erase listener⟩

/-- A process that has no listener yet. -/
def start : Host := ⟨[], []⟩

/-- If the socket of a construction gets its port, nothing throws afterwards. -/
def Harmless (s : Host) : HostEvent → Prop
  | .construct calls port callback =>
    calls.descriptor = none ∨ (calls.refused = true ∨ target calls port ∈ s.sockets.ports) ∨
      callback = true ∧ calls.thread = true
  | .destroy _ => True

def HarmlessStep (s : Host) (e : HostEvent) (t : Host) : Prop := Step s e t ∧ s.Harmless e

/-- A construction that throws. -/
def Throws (s : Host) : HostEvent → Prop
  | .construct calls port callback =>
    ∃ what, (Action.result (construct calls port callback) s.sockets).1 = .error what
  | .destroy _ => False

/-- The ports bound are those listened on, and any other can be listened on. -/
structure Sound (s : Host) : Prop where
  bound : ∀ port, port ∈ s.sockets.ports ↔ ∃ listener ∈ s.live, listener.port = port
  free : ∀ calls port, s.Admits calls → calls.descriptor ≠ none → calls.refused = false →
    calls.thread = true → (∀ listener ∈ s.live, listener.port ≠ target calls port) →
      ∃ listener sockets, Action.result (construct calls port true) s.sockets = (.ok listener, sockets)

/-- Each bound socket is that of one live object. -/
structure Owned (s : Host) : Prop where
  distinct : s.sockets.descriptors.Nodup
  owner : ∀ fd port, (fd, some port) ∈ s.sockets ↔ ⟨fd, port⟩ ∈ s.live
  once : s.live.Nodup

variable {s t : Host}

/-! ## What a step can do -/

theorem step_result {calls : Calls} {port : PortNumber} {callback : Bool}
    (taken : Step s (.construct calls port callback) t) :
    s.Admits calls ∧ t =
      let r := Action.result (construct calls port callback) s.sockets
      ⟨r.2, match r.1 with
        | .ok listener => listener :: s.live
        | .error _ => s.live⟩ := by
  cases taken with
  | constructed fresh returned => exact ⟨fresh, by rw [returned]⟩
  | threw fresh thrown => exact ⟨fresh, by rw [thrown]⟩

/-- A construction fails without a socket or with an unbound one, or it gets its
port and then returns or throws. -/
theorem step_construct {calls : Calls} {port : PortNumber} {callback : Bool}
    (taken : Step s (.construct calls port callback) t) :
    calls.descriptor = none ∧ t = s ∨
      ∃ fd, calls.descriptor = some fd ∧ fd ∉ s.sockets.descriptors ∧
        ((calls.refused = true ∨ target calls port ∈ s.sockets.ports) ∧
            t = ⟨(fd, none) :: s.sockets, s.live⟩ ∨
          ¬ (calls.refused = true ∨ target calls port ∈ s.sockets.ports) ∧
            ((callback = true ∧ calls.thread = true) ∧
                t = ⟨(fd, some (target calls port)) :: s.sockets, ⟨fd, target calls port⟩ :: s.live⟩ ∨
              ¬ (callback = true ∧ calls.thread = true) ∧
                t = ⟨(fd, some (target calls port)) :: s.sockets, s.live⟩)) := by
  obtain ⟨fresh, rfl⟩ := step_result taken
  rw [result_construct calls port callback fresh]
  cases descriptor : calls.descriptor with
  | none => exact .inl ⟨rfl, rfl⟩
  | some fd =>
    refine .inr ⟨fd, rfl, fresh fd descriptor, ?_⟩
    by_cases taken : calls.refused = true ∨ target calls port ∈ s.sockets.ports
    · exact .inl ⟨taken, by simp only [if_pos taken]⟩
    · refine .inr ⟨taken, ?_⟩
      simp only [if_neg taken]
      cases callback with
      | false => exact .inr ⟨by simp, rfl⟩
      | true =>
        cases thread : calls.thread with
        | false => exact .inr ⟨by simp, rfl⟩
        | true => exact .inl ⟨by simp, rfl⟩

theorem step_destroy {listener : Listener} (taken : Step s (.destroy listener) t) :
    listener ∈ s.live ∧ t = ⟨s.sockets.close listener.socket, s.live.erase listener⟩ := by
  cases taken with
  | destroyed alive => exact ⟨alive, rfl⟩

/-- A construction without harm that gets its port returns. -/
theorem Harmless.returns {calls : Calls} {port : PortNumber} {callback : Bool}
    (harmless : s.Harmless (.construct calls port callback)) {fd : Nat}
    (descriptor : calls.descriptor = some fd)
    (ahead : ¬ (calls.refused = true ∨ target calls port ∈ s.sockets.ports)) :
    callback = true ∧ calls.thread = true := by
  rcases harmless with none | refused | returns
  · rw [descriptor] at none
    cases none
  · exact (ahead refused).elim
  · exact returns

/-! ## What it keeps -/

namespace Owned

theorem start : Owned start := ⟨List.nodup_nil, by simp [Host.start], List.nodup_nil⟩

theorem mem_ports (port : PortNumber) :
    port ∈ s.sockets.ports ↔ ∃ fd, (fd, some port) ∈ s.sockets := by
  simp [Sockets.ports, List.mem_filterMap]

/-- A socket that stays unbound. -/
theorem opened (h : Owned s) {fd : Nat} (fresh : fd ∉ s.sockets.descriptors) :
    Owned ⟨(fd, none) :: s.sockets, s.live⟩ := by
  constructor
  · exact List.nodup_cons.mpr ⟨fresh, h.distinct⟩
  · intro fd' port
    rw [List.mem_cons, ← h.owner]
    simp
  · exact h.once

/-- A socket that gets a port, and the object that listens on it. -/
theorem constructed (h : Owned s) {fd : Nat} (fresh : fd ∉ s.sockets.descriptors) (port : PortNumber) :
    Owned ⟨(fd, some port) :: s.sockets, ⟨fd, port⟩ :: s.live⟩ := by
  constructor
  · exact List.nodup_cons.mpr ⟨fresh, h.distinct⟩
  · intro fd' port'
    rw [List.mem_cons, List.mem_cons, ← h.owner]
    simp
  · refine List.nodup_cons.mpr ⟨?_, h.once⟩
    intro alive
    exact fresh (List.mem_map_of_mem ((h.owner fd port).mpr alive))

/-- Two live objects with one socket are the same. -/
theorem eq_of_socket (h : Owned s) {a b : Listener} (ha : a ∈ s.live) (hb : b ∈ s.live)
    (same : a.socket = b.socket) : a = b := by
  have first := (h.owner a.socket a.port).mpr ha
  have second := (h.owner b.socket b.port).mpr hb
  have entries := List.inj_on_of_nodup_map h.distinct first second same
  cases a
  cases b
  cases entries
  rfl

/-- The socket closed is that of the object destroyed and of no other. -/
theorem destroyed (h : Owned s) {listener : Listener} (alive : listener ∈ s.live) :
    Owned ⟨s.sockets.close listener.socket, s.live.erase listener⟩ := by
  constructor
  · exact h.distinct.sublist (List.filter_sublist.map _)
  · intro fd port
    rw [h.once.mem_erase_iff, Sockets.close, List.mem_filter, h.owner, decide_eq_true_eq, and_comm]
    apply and_congr_left
    intro inside
    apply not_congr
    constructor
    · intro same
      exact h.eq_of_socket inside alive same
    · rintro rfl
      rfl
  · exact h.once.erase _

theorem sound (h : Owned s) : Sound s := by
  have bound : ∀ port, port ∈ s.sockets.ports ↔ ∃ listener ∈ s.live, listener.port = port := by
    intro port
    rw [mem_ports]
    constructor
    · rintro ⟨fd, inside⟩
      exact ⟨⟨fd, port⟩, (h.owner fd port).mp inside, rfl⟩
    · rintro ⟨listener, alive, rfl⟩
      exact ⟨listener.socket, (h.owner _ _).mpr alive⟩
  refine ⟨bound, ?_⟩
  intro calls port fresh some accepted thread unused
  obtain ⟨fd, descriptor⟩ := Option.ne_none_iff_exists'.mp some
  have ahead : ¬ (calls.refused = true ∨ target calls port ∈ s.sockets.ports) := by
    rw [accepted, bound]
    rintro (refused | ⟨listener, alive, same⟩)
    · cases refused
    · exact unused listener alive same
  rw [result_construct calls port true fresh, descriptor]
  simp only [if_neg ahead, thread]
  exact ⟨_, _, rfl⟩

/-- **A harmless step keeps the ports owned.** -/
theorem step (h : Owned s) {e : HostEvent} (taken : HarmlessStep s e t) : Owned t := by
  obtain ⟨taken, harmless⟩ := taken
  cases e with
  | construct calls port callback =>
    rcases step_construct taken with ⟨-, rfl⟩ | ⟨fd, descriptor, fresh, ⟨-, rfl⟩ | ⟨ahead, ⟨-, rfl⟩ | ⟨throws, rfl⟩⟩⟩
    · exact h
    · exact h.opened fresh
    · exact h.constructed fresh _
    · exact (throws (harmless.returns descriptor ahead)).elim
  | destroy listener =>
    obtain ⟨alive, rfl⟩ := step_destroy taken
    exact h.destroyed alive

/-- A port that was bound before the exception stays bound without an object. -/
theorem unsound (h : Owned s) {e : HostEvent} (taken : Step s e t) (harm : ¬ s.Harmless e) : ¬ Sound t := by
  intro sound
  cases e with
  | construct calls port callback =>
    obtain ⟨some, ahead, throws⟩ : calls.descriptor ≠ none ∧
        ¬ (calls.refused = true ∨ target calls port ∈ s.sockets.ports) ∧
        ¬ (callback = true ∧ calls.thread = true) := by
      rw [Harmless, not_or, not_or] at harm
      exact harm
    rcases step_construct taken with ⟨none, -⟩ | ⟨fd, -, -, ⟨refused, -⟩ | ⟨-, ⟨returns, -⟩ | ⟨-, rfl⟩⟩⟩
    · exact some none
    · exact ahead refused
    · exact throws returns
    · obtain ⟨listener, alive, same⟩ := (sound.bound (target calls port)).mp (List.mem_cons_self ..)
      apply ahead
      exact .inr ((h.sound.bound _).mpr ⟨listener, alive, same⟩)
  | destroy => exact harm trivial

/-- Without harm a construction that throws changes no bound port. -/
theorem throws (h : Owned s) {e : HostEvent} (taken : HarmlessStep s e t) (throws : s.Throws e) :
    t.sockets.ports = s.sockets.ports := by
  obtain ⟨taken, harmless⟩ := taken
  cases e with
  | construct calls port callback =>
    obtain ⟨what, thrown⟩ := throws
    obtain ⟨fresh, -⟩ := step_result taken
    rw [result_construct calls port callback fresh] at thrown
    rcases step_construct taken with ⟨-, rfl⟩ | ⟨fd, descriptor, -, ⟨-, rfl⟩ | ⟨ahead, ⟨⟨rfl, thread⟩, rfl⟩ | ⟨throws, rfl⟩⟩⟩
    · rfl
    · rfl
    · simp [descriptor, if_neg ahead, thread] at thrown
    · exact (throws (harmless.returns descriptor ahead)).elim
  | destroy => cases throws

theorem run {trace : List HostEvent} (run : Run HarmlessStep .start trace s) : Owned s :=
  run.invariant Owned (fun _ _ _ h taken => h.step taken) .start

end Owned

/-- **As long as no construction throws with its port bound, the ports bound are
those listened on; the first that does ends it.** -/
theorem listeners_sound (trace : List HostEvent) (s : Host) (run : Run HarmlessStep .start trace s) :
    Sound s ∧ ∀ e t, Step s e t →
      (Sound t ∧ (s.Throws e → t.sockets.ports = s.sockets.ports) ↔ s.Harmless e) := by
  have h := Owned.run run
  refine ⟨h.sound, ?_⟩
  intro e t taken
  constructor
  · rintro ⟨sound, -⟩
    by_contra harm
    exact h.unsound taken harm sound
  · intro harmless
    exact ⟨(h.step ⟨taken, harmless⟩).sound, h.throws ⟨taken, harmless⟩⟩

/-- A listener on port 5000, a second one on a port of its own, and the first is
destroyed. -/
theorem replaced_run : Run HarmlessStep start
    [.construct ⟨some 3, false, 32768, by decide, true⟩ 5000 true,
      .construct ⟨some 4, false, 32768, by decide, true⟩ 0 true, .destroy ⟨3, 5000⟩]
    ⟨[(4, some 32768)], [⟨4, 32768⟩]⟩ := by
  have first : Step start (.construct ⟨some 3, false, 32768, by decide, true⟩ 5000 true)
      ⟨[(3, some 5000)], [⟨3, 5000⟩]⟩ := .constructed (by simp [Admits, start, Sockets.descriptors]) rfl
  have second : Step ⟨[(3, some 5000)], [⟨3, 5000⟩]⟩ (.construct ⟨some 4, false, 32768, by decide, true⟩ 0 true)
      ⟨[(4, some 32768), (3, some 5000)], [⟨4, 32768⟩, ⟨3, 5000⟩]⟩ :=
    .constructed (by simp [Admits, Sockets.descriptors]) rfl
  exact .cons ⟨first, .inr (.inr ⟨rfl, rfl⟩)⟩ (.cons ⟨second, .inr (.inr ⟨rfl, rfl⟩)⟩
    (.single ⟨.destroyed (by decide), trivial⟩))

theorem listeners_sound_one : Sound ⟨[(4, some 32768)], [⟨4, 32768⟩]⟩ := (listeners_sound _ _ replaced_run).1

/-- Constructed with an empty callback, `UDP` throws and keeps port 5000 bound. -/
theorem not_listeners_sound : ¬ ∀ trace s, Run Step .start trace s → Sound s := by
  intro always
  have run : Run Step .start [.construct ⟨some 3, false, 32768, by decide, true⟩ 5000 false]
      ⟨[(3, some 5000)], []⟩ :=
    .single (.threw (by simp [Admits, start, Sockets.descriptors]) rfl)
  obtain ⟨listener, alive, -⟩ := ((always _ _ run).bound 5000).mp (by decide)
  cases alive

end Host

end Zouipocar
