import Zouipocar.Server.Process

/-!
# The two copies of the last fix

`main` and `HTTPServer` each hold the last fix and are updated at different
steps of the callback. The invariant `Tracks` relates both to the history at
every step: between callbacks they are equal and are the first fix of greatest
timestamp in it, inside a callback the server's copy may be one fix ahead. What
`/api/fix/last` answers therefore never goes back.
-/

namespace Zouipocar
set_option autoImplicit false
open Lib

/-- The first fix of greatest timestamp. -/
def FirstGreatest (fixes : List Fix) : Option Fix → Prop
  | none => fixes = []
  | some fix => ∃ before after, fixes = before ++ fix :: after ∧
      (∀ g ∈ before, g.timestamp < fix.timestamp) ∧ ∀ g ∈ after, g.timestamp ≤ fix.timestamp

/-- A later answer: nothing before it, a greater timestamp, or the same fix. -/
def NotAfter : Option Fix → Option Fix → Prop
  | none, _ => True
  | some _, none => False
  | some a, some b => a.timestamp < b.timestamp ∨ a = b

/-- The fixes delivered so far, in order. -/
def delivered (trace : List Event) : List Fix :=
  trace.filterMap fun | .deliver fix => some fix | _ => none

/-- What `/api/fix/last` answered so far, in order. -/
def lastAnswers (trace : List Event) : List (Option Fix) :=
  trace.filterMap fun | .apiFixLast answer => some answer | _ => none

theorem NotAfter.refl (a : Option Fix) : NotAfter a a := by
  cases a with
  | none => trivial
  | some a => exact .inr rfl

theorem NotAfter.trans {a b c : Option Fix} (h : NotAfter a b) (h' : NotAfter b c) : NotAfter a c := by
  cases a with
  | none => trivial
  | some a =>
    cases b with
    | none => exact h.elim
    | some b =>
      cases c with
      | none => exact h'.elim
      | some c =>
        rcases h with less | rfl
        · rcases h' with less' | rfl
          · exact .inl (BitVec.lt_trans less less')
          · exact .inl less
        · exact h'

/-- Every fix of the history is at or below the greatest. -/
theorem FirstGreatest.le {fixes : List Fix} {fix : Fix} (h : FirstGreatest fixes (some fix)) :
    ∀ g ∈ fixes, g.timestamp ≤ fix.timestamp := by
  obtain ⟨before, after, rfl, below, above⟩ := h
  intro g hg
  rcases List.mem_append.mp hg with inside | inside
  · exact BitVec.le_of_lt (below g inside)
  · rcases List.mem_cons.mp inside with rfl | inside
    · exact BitVec.le_refl _
    · exact above g inside

/-- A fix that is not newer leaves the greatest as it is. -/
theorem FirstGreatest.keep {fixes : List Fix} {last fix : Fix} (h : FirstGreatest fixes (some last))
    (old : fix.timestamp ≤ last.timestamp) : FirstGreatest (fixes ++ [fix]) (some last) := by
  obtain ⟨before, after, rfl, below, above⟩ := h
  refine ⟨before, after ++ [fix], by simp, below, fun g hg => ?_⟩
  rcases List.mem_append.mp hg with inside | single
  · exact above g inside
  · rw [List.mem_singleton.mp single]
    exact old

/-- A newer fix is the greatest. -/
theorem FirstGreatest.replace {fixes : List Fix} {last : Option Fix} {fix : Fix}
    (h : FirstGreatest fixes last) (newer : ∀ old, last = some old → old.timestamp < fix.timestamp) :
    FirstGreatest (fixes ++ [fix]) (some fix) := by
  refine ⟨fixes, [], rfl, fun g hg => ?_, by simp⟩
  cases last with
  | none =>
    rw [FirstGreatest] at h
    rw [h] at hg
    cases hg
  | some old =>
    have below := h.le g hg
    have above := newer old rfl
    rw [BitVec.le_def] at below
    rw [BitVec.lt_def] at above ⊢
    omega

/-- The invariant, over the fix the process started with and the trace since. -/
structure Tracks (init : Option Fix) (trace : List Event) (p : Process) : Prop where
  /-- The callback's own copy, behind by the fix it is handling. -/
  mine : match p.callback with
    | .idle => FirstGreatest (init.toList ++ delivered trace) p.lastFix ∧ p.server.lastFix = p.lastFix
    | .updateFix fix => FirstGreatest (init.toList ++ delivered trace) (some fix) ∧
        NotAfter p.server.lastFix (some fix)
    | .insertFix fix | .assign fix => FirstGreatest (init.toList ++ delivered trace) (some fix) ∧
        p.server.lastFix = some fix
  /-- Everything answered is at or below what would be answered now. -/
  answered : ∀ answer ∈ lastAnswers trace, NotAfter answer p.server.lastFix
  ordered : (lastAnswers trace).Pairwise NotAfter

theorem Tracks.start (file : Table) :
    Tracks (Process.lastStored file) [] (Process.start file) := by
  obtain ⟨mine, server⟩ := Process.start_lastFix file
  refine ⟨?_, by simp [lastAnswers], .nil⟩
  simp only [Process.start_callback, mine, server, and_true]
  cases Process.lastStored file with
  | none => rfl
  | some fix => exact ⟨[], [], rfl, by simp, by simp⟩

theorem delivered_snoc (trace : List Event) (e : Event) :
    delivered (trace ++ [e]) = delivered trace ++ delivered [e] :=
  List.filterMap_append

theorem lastAnswers_snoc (trace : List Event) (e : Event) :
    lastAnswers (trace ++ [e]) = lastAnswers trace ++ lastAnswers [e] :=
  List.filterMap_append

/-- A step that answers nothing and moves the server's copy forward, if at all. -/
theorem Tracks.silent {init : Option Fix} {trace : List Event} {p q : Process} {e : Event}
    (h : Tracks init trace p) (nothing : lastAnswers [e] = [])
    (forward : NotAfter p.server.lastFix q.server.lastFix) :
    (∀ answer ∈ lastAnswers (trace ++ [e]), NotAfter answer q.server.lastFix) ∧
      (lastAnswers (trace ++ [e])).Pairwise NotAfter := by
  rw [lastAnswers_snoc, nothing, List.append_nil]
  exact ⟨fun answer inside => (h.answered answer inside).trans forward, h.ordered⟩

/-- A step that answers with the server's copy. -/
theorem Tracks.answers {init : Option Fix} {trace : List Event} {p : Process} {e : Event}
    (h : Tracks init trace p) (answer : lastAnswers [e] = [p.server.lastFix]) :
    (∀ answer ∈ lastAnswers (trace ++ [e]), NotAfter answer p.server.lastFix) ∧
      (lastAnswers (trace ++ [e])).Pairwise NotAfter := by
  rw [lastAnswers_snoc, answer]
  constructor
  · intro answer inside
    rcases List.mem_append.mp inside with before | now
    · exact h.answered answer before
    · rw [List.mem_singleton.mp now]
      exact .refl _
  · rw [List.pairwise_append]
    refine ⟨h.ordered, List.pairwise_singleton _ _, fun answer before now single => ?_⟩
    rw [List.mem_singleton.mp single]
    exact h.answered answer before

/-- **One step keeps the invariant.** -/
theorem Tracks.step {init : Option Fix} {trace : List Event} {p q : Process} {e : Event}
    (h : Tracks init trace p) (taken : Process.Step p e q) : Tracks init (trace ++ [e]) q := by
  have mine := h.mine
  cases taken with
  | reject idle old =>
    obtain ⟨answered, ordered⟩ := h.silent (e := .deliver _) rfl (.refl p.server.lastFix)
    refine ⟨?_, answered, ordered⟩
    simp only [idle, delivered_snoc] at mine ⊢
    refine ⟨?_, mine.2⟩
    cases last : p.lastFix with
    | none => simp [Process.rejects, last] at old
    | some kept =>
      simp only [Process.rejects, last, decide_eq_true_eq] at old
      rw [last] at mine
      rw [← List.append_assoc]
      exact mine.1.keep old
  | accept idle new =>
    obtain ⟨answered, ordered⟩ := h.silent (e := .deliver _) rfl (.refl p.server.lastFix)
    refine ⟨?_, answered, ordered⟩
    simp only [idle, delivered_snoc] at mine ⊢
    rw [← List.append_assoc, mine.2]
    refine ⟨mine.1.replace (Process.newer new), ?_⟩
    cases last : p.lastFix with
    | none => trivial
    | some old => exact .inl (Process.newer new old last)
  | updateFix ahead =>
    simp only [ahead] at mine
    obtain ⟨answered, ordered⟩ := h.silent (e := .updateFix _)
      (q := { p with server := p.server.updateFix _, callback := .insertFix _ }) rfl mine.2
    refine ⟨?_, answered, ordered⟩
    simpa [delivered_snoc, delivered, HTTPServer.updateFix] using mine.1
  | insertFix ahead =>
    obtain ⟨answered, ordered⟩ := h.silent (e := .insertFix _) rfl (.refl p.server.lastFix)
    simp only [ahead] at mine
    exact ⟨by simpa [delivered_snoc, delivered] using mine, answered, ordered⟩
  | assign ahead =>
    obtain ⟨answered, ordered⟩ := h.silent (e := .assign _) rfl (.refl p.server.lastFix)
    simp only [ahead] at mine
    exact ⟨by simpa [delivered_snoc, delivered] using mine, answered, ordered⟩
  | apiFixFirst =>
    obtain ⟨answered, ordered⟩ := h.silent (e := .apiFixFirst _) rfl (.refl p.server.lastFix)
    exact ⟨by simpa [delivered_snoc, delivered] using mine, answered, ordered⟩
  | apiFixLast =>
    obtain ⟨answered, ordered⟩ := h.answers (e := .apiFixLast _) rfl
    exact ⟨by simpa [delivered_snoc, delivered] using mine, answered, ordered⟩

theorem Tracks.run {file : Table} {trace : List Event} {p : Process}
    (run : Run Process.Step (Process.start file) trace p) :
    Tracks (Process.lastStored file) trace p :=
  run.history _ (fun _ _ _ _ _ h taken => h.step taken) (.start file)

/-- **Both copies are the newest fix, and the answers never go back.** -/
theorem lastFix_newest (file : Table) (trace : List Event) (p : Process)
    (run : Run Process.Step (Process.start file) trace p) :
    (p.callback = .idle → p.lastFix = p.server.lastFix ∧
      FirstGreatest ((Database.open file).getLastFix.1.toList ++ delivered trace) p.lastFix) ∧
    (lastAnswers trace).Pairwise NotAfter := by
  have h := Tracks.run run
  refine ⟨fun idle => ?_, h.ordered⟩
  have mine := h.mine
  simp only [idle] at mine
  rw [(Database.getLastFix_eq _).1, Database.open_table]
  exact ⟨mine.2.symm, mine.1⟩

/-- A fix and an older one behind it, with requests before, in the middle and after. -/
theorem refused_run : ∃ p, Run Process.Step (Process.start .empty) [.apiFixLast none, .deliver ⟨7, 0, 0, 10⟩,
    .updateFix ⟨7, 0, 0, 10⟩, .apiFixLast (some ⟨7, 0, 0, 10⟩), .insertFix ⟨7, 0, 0, 10⟩, .assign ⟨7, 0, 0, 10⟩,
    .deliver ⟨5, 0, 0, 10⟩, .apiFixLast (some ⟨7, 0, 0, 10⟩)] p ∧ p.callback = .idle :=
  ⟨_, .cons .apiFixLast (.cons (.accept rfl rfl) (.cons (.updateFix rfl) (.cons .apiFixLast
    (.cons (.insertFix rfl) (.cons (.assign rfl) (.cons (.reject rfl rfl) (.single .apiFixLast))))))), rfl⟩

/-- The older one is refused, and every answer but the first is the newer one. -/
theorem lastFix_newest_accepted : ∃ p : Process, p.lastFix = p.server.lastFix ∧
    FirstGreatest [⟨7, 0, 0, 10⟩, ⟨5, 0, 0, 10⟩] p.lastFix ∧
    [none, some (⟨7, 0, 0, 10⟩ : Fix), some ⟨7, 0, 0, 10⟩].Pairwise NotAfter := by
  obtain ⟨p, run, idle⟩ := refused_run
  obtain ⟨copies, answers⟩ := lastFix_newest .empty _ p run
  exact ⟨p, (copies idle).1, (copies idle).2, answers⟩

end Zouipocar
