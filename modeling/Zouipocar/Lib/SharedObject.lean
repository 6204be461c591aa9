import Zouipocar.Lib.Transition
import Mathlib.Logic.Function.Basic

/-!
# Clients of shared objects

Clients drive shared objects through atomic accesses; an operation of a client
takes several of them. When no client begins an operation while another is
inside one on the same object, every operation returns what it returns alone.
-/

namespace Lib

variable {κ ι σ L R : Type}

/-- One operation on an object: its first local state and one atomic access,
which changes the object and either goes on or returns. -/
structure Client (σ L R : Type) where
  init : L
  access : L → σ → (L ⊕ R) × σ

namespace Client

/-- Alone from an object state, the operation gets to a local state. -/
inductive Reaches (c : Client σ L R) (o : σ) : L → σ → Prop
  | init : Reaches c o c.init o
  | access {l l' : L} {m m' : σ} :
      Reaches c o l m → c.access l m = (.inl l', m') → Reaches c o l' m'

/-- Alone from a local state, the operation returns and leaves the object. -/
inductive Finishes (c : Client σ L R) : L → σ → R → σ → Prop
  | last {l : L} {m m' : σ} {r : R} : c.access l m = (.inr r, m') → Finishes c l m r m'
  | access {l l' : L} {m m' o : σ} {r : R} :
      c.access l m = (.inl l', m') → Finishes c l' m' r o → Finishes c l m r o

variable {c : Client σ L R} {l l' : L} {m m' o o' : σ} {r r' : R}

theorem Finishes.onward (h : c.Finishes l m r o) (next : c.access l m = (.inl l', m')) :
    c.Finishes l' m' r o := by
  cases h with
  | last last => simp [last] at next
  | access step rest =>
    obtain ⟨rfl, rfl⟩ : _ ∧ _ := by simpa [step] using next
    exact rest

theorem Finishes.returns (h : c.Finishes l m r o) (next : c.access l m = (.inr r', o')) :
    r' = r ∧ o' = o := by
  cases h with
  | last last =>
    obtain ⟨rfl, rfl⟩ : _ ∧ _ := by simpa [last] using next
    exact ⟨rfl, rfl⟩
  | access step => simp [step] at next

/-- A run alone is on the way to its end. -/
theorem Finishes.reached (h : c.Finishes c.init o r o') (run : c.Reaches o l m) :
    c.Finishes l m r o' := by
  induction run with
  | init => exact h
  | access _ step ih => exact ih.onward step

end Client

inductive Phase (L R : Type)
  | waiting
  | running (l : L)
  | returned (r : R)

/-- The local state a client makes its next access from. -/
def Phase.next (init : L) : Phase L R → Option L
  | .waiting => some init
  | .running l => some l
  | .returned _ => none

def Phase.after : L ⊕ R → Phase L R
  | .inl l => .running l
  | .inr r => .returned r

/-- The client is inside its operation. -/
def Phase.Active (phase : Phase L R) : Prop := ∃ l, phase = .running l

structure Shared (κ ι σ L R : Type) where
  object : κ → σ
  phase : ι → Phase L R

namespace Shared

variable {s t : Shared κ ι σ L R} {i j : ι}

/-- Where client `i` is after an access, and its object with it. -/
def put [DecidableEq κ] [DecidableEq ι] (s : Shared κ ι σ L R) (k : κ) (i : ι) (o : σ)
    (out : L ⊕ R) : Shared κ ι σ L R :=
  ⟨Function.update s.object k o, Function.update s.phase i (.after out)⟩

section Put

variable [DecidableEq κ] [DecidableEq ι] {k k' : κ} {o : σ} {out : L ⊕ R}

@[simp] theorem put_object : (s.put k i o out).object k = o := Function.update_self _ _ _

@[simp] theorem put_phase : (s.put k i o out).phase i = .after out := Function.update_self _ _ _

theorem put_object_of_ne (other : k' ≠ k) : (s.put k i o out).object k' = s.object k' :=
  Function.update_of_ne other _ _

theorem put_phase_of_ne (other : j ≠ i) : (s.put k i o out).phase j = s.phase j :=
  Function.update_of_ne other _ _

end Put

/-- The invariant of exclusive runs: an object nobody works on is idle, and the
one client inside an operation is where it would be alone. -/
structure OneAtATime (on : ι → κ) (client : ι → Client σ L R) (Idle : σ → Prop)
    (s : Shared κ ι σ L R) : Prop where
  idle : ∀ k, (∀ i, on i = k → ¬ (s.phase i).Active) → Idle (s.object k)
  running : ∀ i l, s.phase i = .running l →
    ∃ o, Idle o ∧ (client i).Reaches o l (s.object (on i))
  one : ∀ i j, on i = on j → (s.phase i).Active → (s.phase j).Active → i = j

/-- Client `i` may make its next access: nobody is inside an operation on its
object when it begins one. -/
def Free (on : ι → κ) (s : Shared κ ι σ L R) (i : ι) : Prop :=
  s.phase i = .waiting → ∀ j, on j = on i → ¬ (s.phase j).Active

variable {on : ι → κ} {client : ι → Client σ L R} {Idle : σ → Prop} {alone : ι → R} {l : L}

/-- Nobody else is inside an operation on the object of the client that moves. -/
theorem OneAtATime.others (h : OneAtATime on client Idle s) (free : Free on s i)
    (next : (s.phase i).next (client i).init = some l) :
    ∀ j, on j = on i → (s.phase j).Active → j = i := by
  intro j same active
  cases phase : s.phase i with
  | waiting => exact (free phase j same active).elim
  | running l => exact h.one j i same active ⟨l, phase⟩
  | returned r => simp [Phase.next, phase] at next

/-- The client that moves is where it would be alone. -/
theorem OneAtATime.here (h : OneAtATime on client Idle s) (free : Free on s i)
    (next : (s.phase i).next (client i).init = some l) :
    ∃ o, Idle o ∧ (client i).Reaches o l (s.object (on i)) := by
  cases phase : s.phase i with
  | waiting =>
    rw [phase] at next
    obtain rfl := Option.some.inj next
    exact ⟨_, h.idle _ (free phase), .init⟩
  | running l' =>
    rw [phase] at next
    obtain rfl := Option.some.inj next
    exact h.running i l' phase
  | returned r => simp [Phase.next, phase] at next

variable [DecidableEq κ] [DecidableEq ι]

/-- Client `i` makes its next access, if it has not returned. -/
def move (on : ι → κ) (client : ι → Client σ L R) (s : Shared κ ι σ L R) (i : ι) :
    Option (Shared κ ι σ L R) :=
  ((s.phase i).next (client i).init).map fun l =>
    let (out, o) := (client i).access l (s.object (on i))
    s.put (on i) i o out

def Step (on : ι → κ) (client : ι → Client σ L R) (s : Shared κ ι σ L R) (i : ι)
    (t : Shared κ ι σ L R) : Prop :=
  move on client s i = some t

theorem step_iff : Step on client s i t ↔ ∃ l out o, (s.phase i).next (client i).init = some l ∧
    (client i).access l (s.object (on i)) = (out, o) ∧ t = s.put (on i) i o out := by
  rw [Step, move, Option.map_eq_some_iff]
  constructor
  · rintro ⟨l, next, rfl⟩
    exact ⟨l, _, _, next, rfl, rfl⟩
  · rintro ⟨l, out, o, next, access, rfl⟩
    exact ⟨l, next, by rw [access]⟩

/-- An access within the operation keeps the invariant. -/
theorem OneAtATime.goOn (h : OneAtATime on client Idle s)
    (others : ∀ j, on j = on i → (s.phase j).Active → j = i) {o m : σ} {l' : L} (idle : Idle o)
    (reached : (client i).Reaches o l' m) : OneAtATime on client Idle (s.put (on i) i m (.inl l')) := by
  have mine : ((s.put (on i) i m (.inl l')).phase i).Active := ⟨l', put_phase⟩
  -- whoever else is active was so before, on another object
  have before : ∀ {j}, j ≠ i → ((s.put (on i) i m (.inl l')).phase j).Active →
      (s.phase j).Active ∧ on j ≠ on i := by
    intro j other active
    rw [put_phase_of_ne other] at active
    exact ⟨active, fun same => other (others j same active)⟩
  refine ⟨fun k quiet => ?_, fun j l'' phase => ?_, fun j j' same active active' => ?_⟩
  · have other : k ≠ on i := fun same => quiet i same.symm mine
    rw [put_object_of_ne other]
    apply h.idle k
    intro j there active
    apply quiet j there
    have ne : j ≠ i := by rintro rfl; exact other there.symm
    rwa [put_phase_of_ne ne]
  · by_cases this : j = i
    · subst this
      rw [put_phase] at phase
      obtain rfl := Phase.running.inj phase
      exact ⟨o, idle, by rwa [put_object]⟩
    · obtain ⟨-, elsewhere⟩ := before this ⟨l'', phase⟩
      rw [put_phase_of_ne this] at phase
      rw [put_object_of_ne elsewhere]
      exact h.running j l'' phase
  · by_cases this : j = i
    · by_contra other
      obtain ⟨-, elsewhere⟩ := before (j := j') (fun h => other (this.trans h.symm)) active'
      exact elsewhere (by rw [← same, this])
    · obtain ⟨was, elsewhere⟩ := before this active
      by_cases that : j' = i
      · exact (elsewhere (by rw [same, that])).elim
      · exact h.one j j' same was (before that active').1

/-- The last access of an operation keeps the invariant. -/
theorem OneAtATime.leave (h : OneAtATime on client Idle s)
    (others : ∀ j, on j = on i → (s.phase j).Active → j = i) {o : σ} {r : R} (idle : Idle o) :
    OneAtATime on client Idle (s.put (on i) i o (.inr r)) := by
  have before : ∀ {j}, ((s.put (on i) i o (.inr r)).phase j).Active →
      j ≠ i ∧ (s.phase j).Active ∧ on j ≠ on i := by
    intro j active
    have other : j ≠ i := by
      rintro rfl
      obtain ⟨l, phase⟩ := active
      rw [put_phase] at phase
      cases phase
    rw [put_phase_of_ne other] at active
    exact ⟨other, active, fun same => other (others j same active)⟩
  refine ⟨fun k quiet => ?_, fun j l phase => ?_, fun j j' same active active' => ?_⟩
  · by_cases this : k = on i
    · rwa [this, put_object]
    · rw [put_object_of_ne this]
      apply h.idle k
      intro j there active
      apply quiet j there
      have ne : j ≠ i := by rintro rfl; exact this there.symm
      rwa [put_phase_of_ne ne]
  · obtain ⟨other, -, elsewhere⟩ := before ⟨l, phase⟩
    rw [put_phase_of_ne other] at phase
    rw [put_object_of_ne elsewhere]
    exact h.running j l phase
  · exact h.one j j' same (before active).2.1 (before active').2.1

/-- **An exclusive step keeps the invariant, and what it returns is what the
operation returns alone.** -/
theorem OneAtATime.step
    (finishes : ∀ i o, Idle o → ∃ o', Idle o' ∧ (client i).Finishes (client i).init o (alone i) o')
    (h : OneAtATime on client Idle s) (free : Free on s i) (taken : Step on client s i t) :
    OneAtATime on client Idle t ∧ ∀ r, t.phase i = .returned r → r = alone i := by
  obtain ⟨l, out, m, next, access, rfl⟩ := step_iff.mp taken
  have others := h.others free next
  obtain ⟨o, idle, reached⟩ := h.here free next
  obtain ⟨o', idle', finish⟩ := finishes i o idle
  cases out with
  | inl l' =>
    refine ⟨h.goOn others idle (reached.access access), fun r phase => ?_⟩
    rw [put_phase] at phase
    cases phase
  | inr r' =>
    obtain ⟨same, rfl⟩ := (finish.reached reached).returns access
    refine ⟨h.leave others idle', fun r phase => ?_⟩
    rw [put_phase] at phase
    exact (Phase.returned.inj phase).symm.trans same

/-- A step that begins an operation only when no other is going on there. -/
def ExclusiveStep (on : ι → κ) (client : ι → Client σ L R) (s : Shared κ ι σ L R) (i : ι)
    (t : Shared κ ι σ L R) : Prop :=
  Step on client s i t ∧ Free on s i

/-- A client free to move can go on alone and return, while the others stay where they are. -/
theorem finish_run {m o : σ} {r : R} (finish : (client i).Finishes l m r o)
    (next : (s.phase i).next (client i).init = some l) (here : s.object (on i) = m)
    (free : Free on s i) :
    ∃ trace t, Run (ExclusiveStep on client) s trace t ∧ t.phase i = .returned r ∧ t.object (on i) = o ∧
      ∀ j, j ≠ i → t.phase j = s.phase j := by
  induction finish generalizing s with
  | @last l m o r access =>
    rw [← here] at access
    exact ⟨[i], _, Run.single ⟨step_iff.mpr ⟨l, _, _, next, access, rfl⟩, free⟩, put_phase, put_object,
      fun j other => put_phase_of_ne other⟩
  | @access l l' m m' o r access rest ih =>
    rw [← here] at access
    have inside : Free on (s.put (on i) i m' (.inl l')) i := fun waiting => by
      rw [put_phase] at waiting
      cases waiting
    obtain ⟨trace, t, onward, done, left, others⟩ := ih (by rw [put_phase]; rfl) put_object inside
    exact ⟨i :: trace, t, .cons ⟨step_iff.mpr ⟨l, _, _, next, access, rfl⟩, free⟩ onward, done, left,
      fun j other => (others j other).trans (put_phase_of_ne other)⟩

/-- **In an exclusive run every operation returns what it returns alone.** -/
theorem Run.exclusive
    (finishes : ∀ i o, Idle o → ∃ o', Idle o' ∧ (client i).Finishes (client i).init o (alone i) o')
    {trace : List ι} (run : Run (ExclusiveStep on client) s trace t)
    (idle : ∀ k, Idle (s.object k)) (waiting : ∀ i, s.phase i = .waiting) :
    ∀ i r, t.phase i = .returned r → r = alone i := by
  have inactive : ∀ i, ¬ (s.phase i).Active := by
    rintro i ⟨l, phase⟩
    rw [waiting i] at phase
    cases phase
  have base : OneAtATime on client Idle s :=
    ⟨fun k _ => idle k, fun i l phase => (inactive i ⟨l, phase⟩).elim,
      fun i _ _ active => (inactive i active).elim⟩
  refine (run.invariant (fun t => OneAtATime on client Idle t ∧
    ∀ i r, t.phase i = .returned r → r = alone i) ?_ ⟨base, ?_⟩).2
  · rintro s i t ⟨h, results⟩ ⟨taken, free⟩
    obtain ⟨kept, mine⟩ := h.step finishes free taken
    refine ⟨kept, fun j r phase => ?_⟩
    by_cases this : j = i
    · subst this
      exact mine r phase
    · obtain ⟨l, out, m, -, -, rfl⟩ := step_iff.mp taken
      rw [put_phase_of_ne this] at phase
      exact results j r phase
  · intro i r phase
    rw [waiting i] at phase
    cases phase

end Shared

end Lib
