import Zouipocar.Server.Track

/-!
# Where the server's fixes come from

Whatever holds of every delivered fix holds of every fix that the server keeps
or answers with, up to the way through the table: `Provenance` goes through the
system step by step. The file it starts on is part of the history, so it has
to be empty or to come from fixes of the same kind.
-/

namespace Zouipocar
set_option autoImplicit false
open Lib

/-- A fix of some kind, or what one reads back as. -/
def Known (P : Fix → Prop) (x : Fix) : Prop := ∃ fix, P fix ∧ (x = fix ∨ x = readBack fix)

/-- Every row is that of a moving fix of the kind. -/
def FromKind (P : Fix → Prop) (file : Table) : Prop := ∀ r ∈ file, ∃ fix, P fix ∧ 5 < fix.speed ∧ r = rowOf fix

/-- What a process keeps. -/
structure Process.Keeps (P : Fix → Prop) (p : Process) : Prop where
  lastFix : ∀ x, p.lastFix = some x → Known P x
  serverFirst : ∀ x, p.server.firstFix = some x → Known P x
  serverLast : ∀ x, p.server.lastFix = some x → Known P x
  handling : ∀ fix, p.callback.fix? = some fix → P fix

structure Provenance (P : Fix → Prop) (s : System) : Prop where
  file : FromKind P s.file
  process : ∀ p, s = .running p → p.Keeps P

/-- What an event answers with. -/
def SystemEvent.answer? : SystemEvent → Option Fix
  | .event (.apiFixFirst answer) | .event (.apiFixLast answer) => answer
  | _ => none

section Kind

variable {P Q : Fix → Prop}

theorem Known.of (fix : Fix) (kind : P fix) : Known P fix := ⟨fix, kind, .inl rfl⟩

theorem Known.mono (wider : ∀ fix, P fix → Q fix) {x : Fix} (h : Known P x) : Known Q x := by
  obtain ⟨fix, kind, same⟩ := h
  exact ⟨fix, wider fix kind, same⟩

/-- What is read from a row of the kind. -/
theorem FromKind.known {file : Table} (h : FromKind P file) {r : ZouiRow} (inside : r ∈ file) :
    Known P r.fix := by
  obtain ⟨fix, kind, _, rfl⟩ := h r inside
  exact ⟨fix, kind, .inr rfl⟩

theorem FromKind.mono (wider : ∀ fix, P fix → Q fix) {file : Table} (h : FromKind P file) : FromKind Q file := by
  intro r inside
  obtain ⟨fix, kind, fast, built⟩ := h r inside
  exact ⟨fix, wider fix kind, fast, built⟩

theorem FromKind.storeFix {db : Database} (h : FromKind P db.table) {fix : Fix} (kind : P fix) :
    FromKind P (Process.storeFix db fix).table := by
  intro r inside
  rcases Process.mem_storeFix inside with ⟨built, fast⟩ | old
  · exact ⟨fix, kind, fast, built⟩
  · exact h r old

/-- Every query of the database answers with what is known. -/
theorem FromKind.queries {db : Database} (h : FromKind P db.table) :
    (∀ date x, (db.getFix date).1 = some x → Known P x) ∧ (∀ x, db.getFirstFix.1 = some x → Known P x) ∧
      (∀ x, db.getLastFix.1 = some x → Known P x) ∧
      ∀ memory start stop found, (db.getFixRange memory start stop).1 = .ok found → ∀ x ∈ found, Known P x := by
  refine ⟨fun date x found => ?_, fun x found => ?_, fun x found => ?_,
    fun memory start stop found answer x inside => ?_⟩
  · rw [(db.getFix_eq date).1] at found
    obtain ⟨r, there, rfl⟩ := Option.map_eq_some_iff.mp found
    exact h.known (OrderedTable.find?_eq_some.mp there).1
  · rw [db.getFirstFix_eq.1] at found
    obtain ⟨r, there, rfl⟩ := Option.map_eq_some_iff.mp found
    exact h.known (OrderedTable.first?_eq_some.mp there).1
  · rw [db.getLastFix_eq.1] at found
    obtain ⟨r, there, rfl⟩ := Option.map_eq_some_iff.mp found
    exact h.known (OrderedTable.last?_eq_some.mp there).1
  · rw [(db.getFixRange_eq memory start stop).1] at answer
    split at answer
    · obtain rfl := Except.ok.inj answer
      obtain ⟨r, there, rfl⟩ := List.mem_map.mp inside
      exact h.known (OrderedTable.mem_between.mp there).1
    · cases answer

end Kind

namespace Process

variable {P Q : Fix → Prop} {p q : Process} {e : Event}

theorem Keeps.mono (wider : ∀ fix, P fix → Q fix) (h : p.Keeps P) : p.Keeps Q :=
  ⟨fun x last => (h.lastFix x last).mono wider, fun x first => (h.serverFirst x first).mono wider,
    fun x last => (h.serverLast x last).mono wider, fun fix handled => wider fix (h.handling fix handled)⟩

/-- A process starts with what it reads from the file. -/
theorem Keeps.start {file : Table} (kind : FromKind P file) : (Process.start file).Keeps P := by
  have opened : FromKind P (Database.open file).table := by
    rw [Database.open_table]
    exact kind
  obtain ⟨-, -, last, -⟩ := opened.queries
  have second : FromKind P (Database.open file).getLastFix.2.table := by
    rw [(Database.getLastFix_eq _).2]
    exact opened
  obtain ⟨-, first, -⟩ := second.queries
  have third : FromKind P (Database.open file).getLastFix.2.getFirstFix.2.table := by
    rw [(Database.getFirstFix_eq _).2]
    exact second
  obtain ⟨-, -, last', -⟩ := third.queries
  exact ⟨last, first, last', nofun⟩

theorem Step.keeps (kind : FromKind P p.db.table) (h : p.Keeps P) (taken : Step p e q)
    (new : ∀ fix, e = .deliver fix → P fix) : FromKind P q.db.table ∧ q.Keeps P := by
  cases taken with
  | reject | apiFixFirst | apiFixLast => exact ⟨kind, h⟩
  | @accept fix =>
    refine ⟨kind, h.lastFix, h.serverFirst, h.serverLast, ?_⟩
    rintro _ ⟨⟩
    exact new fix rfl
  | @updateFix fix ahead =>
    have handled : P fix := h.handling fix (by rw [ahead]; rfl)
    refine ⟨kind, h.lastFix, h.serverFirst, ?_, ?_⟩
    · rintro _ ⟨⟩
      exact .of fix handled
    · rintro _ ⟨⟩
      exact handled
  | @insertFix fix ahead =>
    have handled : P fix := h.handling fix (by rw [ahead]; rfl)
    refine ⟨kind.storeFix handled, h.lastFix, h.serverFirst, h.serverLast, ?_⟩
    rintro _ ⟨⟩
    exact handled
  | @assign fix ahead =>
    have handled : P fix := h.handling fix (by rw [ahead]; rfl)
    refine ⟨kind, ?_, h.serverFirst, h.serverLast, nofun⟩
    rintro _ ⟨⟩
    exact .of fix handled

/-- An answer is one of the cached fixes. -/
theorem Step.answer (h : p.Keeps P) (taken : Step p e q) :
    ∀ x, (SystemEvent.event e).answer? = some x → Known P x := by
  cases taken with
  | apiFixFirst => exact h.serverFirst
  | apiFixLast => exact h.serverLast
  | _ => nofun

end Process

namespace Provenance

variable {P Q : Fix → Prop} {s t : System} {e : SystemEvent}

theorem mono (wider : ∀ fix, P fix → Q fix) (h : Provenance P s) : Provenance Q s :=
  ⟨h.file.mono wider, fun p running => (h.process p running).mono wider⟩

theorem empty : Provenance P (.stopped .empty) :=
  ⟨fun _ inside => (OrderedTable.not_mem_empty inside).elim, nofun⟩

/-- **A step keeps what holds of every delivered fix.** -/
theorem step (h : Provenance P s) (taken : System.Step s e t)
    (new : ∀ fix, e = .event (.deliver fix) → P fix) : Provenance P t := by
  cases taken with
  | @start file =>
    refine ⟨?_, ?_⟩
    · rw [System.file, Process.start_table]
      exact h.file
    · rintro _ ⟨⟩
      exact .start h.file
  | stop =>
    refine ⟨h.file, ?_⟩
    rintro _ ⟨⟩
  | @event p q e taken =>
    obtain ⟨file, keeps⟩ := taken.keeps h.file (h.process p rfl) fun fix same => new fix (by rw [same])
    refine ⟨file, ?_⟩
    rintro _ ⟨⟩
    exact keeps

theorem answer (h : Provenance P s) (taken : System.Step s e t) : ∀ x, e.answer? = some x → Known P x := by
  cases taken with
  | start | stop => rintro _ ⟨⟩
  | @event p q e taken => exact taken.answer (h.process p rfl)

end Provenance

end Zouipocar
