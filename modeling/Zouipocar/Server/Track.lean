import Zouipocar.Server.Process

/-!
# The stored track over the lifetime of the file

Processes start on the file, handle fixes and stop, in any number. The guard
of a process starts from what it re-reads from the table, so it may let a
stored timestamp through; the key of the table then keeps the old row. Over
any such history the track only grows, and every row of it is the row of an
accepted fix that was moving.
-/

namespace Zouipocar
set_option autoImplicit false
open Lib

/-- A history that begins with an empty file. -/
abbrev History (trace : List SystemEvent) (s : System) : Prop :=
  Run System.Step (.stopped .empty) trace s

/-- The fix was delivered in the history and passed the guard at that moment. -/
def Accepted (trace : List SystemEvent) (fix : Fix) : Prop :=
  ∃ earlier later p, trace = earlier ++ .event (.deliver fix) :: later ∧
    History earlier (.running p) ∧ p.callback = .idle ∧ p.rejects fix = false

theorem Accepted.later {trace : List SystemEvent} {fix : Fix} (h : Accepted trace fix)
    (more : List SystemEvent) : Accepted (trace ++ more) fix := by
  obtain ⟨earlier, later, p, rfl, run, idle, new⟩ := h
  exact ⟨earlier, later ++ more, p, by simp, run, idle, new⟩

/-- The fix the callback is handling. -/
def Callback.fix? : Callback → Option Fix
  | .idle => none
  | .updateFix fix | .insertFix fix | .assign fix => some fix

/-- The track after a history. -/
structure Sound (trace : List SystemEvent) (s : System) : Prop where
  /-- Every row is the row of an accepted fix that was moving. -/
  rows : ∀ r ∈ s.file, ∃ fix, Accepted trace fix ∧ 5 < fix.speed ∧ r = rowOf fix
  /-- The fix in the callback was accepted. -/
  handling : ∀ p fix, s = .running p → p.callback.fix? = some fix → Accepted trace fix
  /-- After the insertion step its timestamp is in the table, if it was moving. -/
  stored : ∀ p fix, s = .running p → p.callback = .assign fix → 5 < fix.speed →
    ∃ r ∈ p.db.table, r.fix.timestamp = fix.timestamp

/-- A built row reads back its timestamp and is found under it. -/
theorem rowOf_key (fix : Fix) : (rowOf fix).timestamp.toInt = (rowOf fix).fix.timestamp.toInt :=
  (keyOf_toInt _).trans (congrArg BitVec.toInt (readBack_timestamp fix).symm)

theorem Sound.row_key {trace : List SystemEvent} {s : System} (h : Sound trace s) {r : ZouiRow}
    (inside : r ∈ s.file) : r.timestamp.toInt = r.fix.timestamp.toInt := by
  obtain ⟨fix, _, _, rfl⟩ := h.rows r inside
  exact rowOf_key fix

/-- An insertion leaves a row of its timestamp, its own or the one that was there. -/
theorem exists_row_insert (db : Database) (fix : Fix) (fast : 5 < fix.speed)
    (built : ∀ r ∈ db.table, r.timestamp.toInt = r.fix.timestamp.toInt) :
    ∃ r ∈ (Process.storeFix db fix).table, r.fix.timestamp = fix.timestamp := by
  cases inserted : db.table.insert (rowOf fix) with
  | none =>
    obtain ⟨r, inside, same⟩ := OrderedTable.insert_eq_none.mp inserted
    refine ⟨r, Process.subset_storeFix inside, ?_⟩
    change r.timestamp.toInt = (rowOf fix).timestamp.toInt at same
    rw [built r inside, rowOf, keyOf_toInt] at same
    exact key_inj.mp same
  | some table =>
    refine ⟨rowOf fix, ?_, readBack_timestamp fix⟩
    rw [Process.storeFix_table, if_pos fast, inserted]
    exact (OrderedTable.mem_insert inserted).mpr (.inl rfl)

theorem Sound.kept {trace : List SystemEvent} {s : System} (h : Sound trace s) {e : SystemEvent}
    {r : ZouiRow} (inside : r ∈ s.file) :
    ∃ fix, Accepted (trace ++ [e]) fix ∧ 5 < fix.speed ∧ r = rowOf fix := by
  obtain ⟨fix, accepted, fast, built⟩ := h.rows r inside
  exact ⟨fix, accepted.later _, fast, built⟩

theorem Sound.carried {trace : List SystemEvent} {p : Process} (h : Sound trace (.running p))
    {e : SystemEvent} {fix : Fix} (handled : p.callback.fix? = some fix) : Accepted (trace ++ [e]) fix :=
  (h.handling p fix rfl handled).later _

/-- A step that inserts nothing and takes up no other fix. -/
theorem Sound.same {trace : List SystemEvent} {p q : Process} (h : Sound trace (.running p))
    {e : SystemEvent} (table : q.db.table = p.db.table)
    (handling : ∀ fix, q.callback.fix? = some fix → p.callback.fix? = some fix)
    (ahead : ∀ fix, q.callback = .assign fix → p.callback = .assign fix) :
    Sound (trace ++ [e]) (.running q) := by
  constructor
  · intro r inside
    apply h.kept
    change r ∈ q.db.table at inside
    rwa [table] at inside
  · rintro _ fix ⟨⟩ handled
    exact h.carried (handling fix handled)
  · rintro _ fix ⟨⟩ assigns fast
    rw [table]
    exact h.stored p fix rfl (ahead fix assigns) fast

/-- **One step keeps the track sound.** -/
theorem Sound.step {trace : List SystemEvent} {s t : System} {e : SystemEvent}
    (run : History trace s) (h : Sound trace s) (taken : System.Step s e t) :
    Sound (trace ++ [e]) t := by
  cases taken with
  | @start file =>
    constructor
    · intro r inside
      apply h.kept
      simpa only [System.file, Process.start_table] using inside
    · rintro p fix ⟨⟩ handled
      cases handled
    · rintro p fix ⟨⟩ ahead
      cases ahead
  | stop =>
    refine ⟨fun r inside => h.kept inside, ?_, ?_⟩ <;> rintro p fix ⟨⟩
  | @event p q e taken =>
    cases taken with
    | reject | apiFixFirst | apiFixLast => exact h.same rfl (fun _ => id) fun _ => id
    | accept idle new =>
      constructor
      · exact fun r inside => h.kept inside
      · rintro _ fix ⟨⟩ handled
        obtain rfl := Option.some.inj handled
        exact ⟨trace, [], p, rfl, run, idle, new⟩
      · rintro _ fix ⟨⟩ ahead
        cases ahead
    | updateFix ahead =>
      apply h.same
      · rfl
      · intro fix handled
        rw [ahead]
        exact handled
      · intro fix assigns
        cases assigns
    | @insertFix new ahead =>
      have accepted : Accepted (trace ++ [.event (.insertFix new)]) new := h.carried (by rw [ahead]; rfl)
      constructor
      · intro r inside
        rcases Process.mem_storeFix inside with ⟨built, fast⟩ | old
        · exact ⟨new, accepted, fast, built⟩
        · exact h.kept old
      · rintro _ fix ⟨⟩ handled
        obtain rfl := Option.some.inj handled
        exact accepted
      · rintro _ fix ⟨⟩ ahead fast
        obtain rfl := Callback.assign.inj ahead
        exact exists_row_insert _ _ fast fun r inside => h.row_key inside
    | assign ahead =>
      apply h.same
      · rfl
      · intro fix handled
        cases handled
      · intro fix assigns
        cases assigns

theorem Sound.run {trace : List SystemEvent} {s : System} (run : History trace s) : Sound trace s := by
  refine Run.history _ (fun _ _ _ _ before h taken => h.step before taken) run ⟨?_, ?_, ?_⟩
  · exact fun r inside => (OrderedTable.not_mem_empty inside).elim
  · rintro p fix ⟨⟩
  · rintro p fix ⟨⟩

/-- No step changes or removes a row. -/
theorem System.Step.subset {s t : System} {e : SystemEvent} (taken : System.Step s e t) :
    ∀ r ∈ s.file, r ∈ t.file := by
  intro r inside
  cases taken with
  | start =>
    rw [System.file, Process.start_table]
    exact inside
  | stop => exact inside
  | event taken =>
    cases taken with
    | insertFix => exact Process.subset_storeFix inside
    | _ => exact inside

theorem System.Run.subset {s t : System} {trace : List SystemEvent} (run : Run System.Step s trace t) :
    ∀ r ∈ s.file, r ∈ t.file :=
  run.extends (R := fun s t => ∀ r ∈ s.file, r ∈ t.file) (fun _ _ inside => inside)
    (fun _ _ _ first second r inside => second r (first r inside)) fun _ _ _ taken => taken.subset

/-- **The stored track is append-only and sound.** -/
theorem track_appendOnly_sound (trace : List SystemEvent) (s : System) (run : History trace s) :
    (∀ more t, Run System.Step s more t → ∀ r ∈ s.file, r ∈ t.file) ∧
    (∀ r ∈ s.file, ∃ fix, Accepted trace fix ∧ 5 < fix.speed ∧ r = rowOf fix) ∧
    (∀ a ∈ s.file, ∀ b ∈ s.file, a.fix.timestamp = b.fix.timestamp → a = b) ∧
    (∀ earlier fix, trace = earlier ++ [.event (.assign fix)] → 5 < fix.speed →
      ∃ r ∈ s.file, r.fix.timestamp = fix.timestamp) := by
  have h := Sound.run run
  refine ⟨fun more t onward => System.Run.subset onward, h.rows, fun a ha b hb same => ?_, ?_⟩
  · exact OrderedTable.eq_of_key ha hb (by rw [h.row_key ha, h.row_key hb, same])
  · rintro earlier fix rfl fast
    obtain ⟨m, before, last⟩ := run.last
    cases last with
    | event last =>
      cases last with
      | assign ahead =>
        have stored := (Sound.run before).stored _ _ rfl ahead fast
        exact stored

/-- A fix, a restart, and a newer one. -/
theorem restarted_run : ∃ s, History (.start :: [.deliver ⟨7, 0, 0, 6⟩, .updateFix ⟨7, 0, 0, 6⟩,
    .insertFix ⟨7, 0, 0, 6⟩, .assign ⟨7, 0, 0, 6⟩].map .event) s ∧
    ∃ t, Run System.Step s (.stop :: .start :: [.deliver ⟨9, 0, 0, 6⟩, .updateFix ⟨9, 0, 0, 6⟩,
      .insertFix ⟨9, 0, 0, 6⟩, .assign ⟨9, 0, 0, 6⟩].map .event) t := by
  have first := Process.Run.lift (Process.accepted_run (.start .empty) ⟨7, 0, 0, 6⟩ rfl rfl)
  have second := Process.Run.lift (Process.accepted_run
    (.start (Process.storeFix (Process.start .empty).db ⟨7, 0, 0, 6⟩).table) ⟨9, 0, 0, 6⟩ rfl (by decide))
  exact ⟨_, .cons .start first, _, .cons .stop (.cons .start second)⟩

/-- Both rows are there, one of them from before the restart. -/
theorem track_appendOnly_sound_one : ∃ s : System, (∃ r ∈ s.file, r.fix.timestamp = 7#32) ∧
    ∃ r ∈ s.file, r.fix.timestamp = 9#32 := by
  obtain ⟨s, before, t, onward⟩ := restarted_run
  obtain ⟨r, inside, seven⟩ := (track_appendOnly_sound _ s before).2.2.2 [.start, _, _, _] ⟨7, 0, 0, 6⟩ rfl (by decide)
  have kept := (track_appendOnly_sound _ s before).1 _ t onward r inside
  have nine := (track_appendOnly_sound _ t (before.trans onward)).2.2.2 [_, _, _, _, _, _, _, _, _, _]
    ⟨9, 0, 0, 6⟩ rfl (by decide)
  exact ⟨t, ⟨r, kept, seven⟩, nine⟩

end Zouipocar
