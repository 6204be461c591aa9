import Zouipocar.Server.LastFix
import Zouipocar.Web.Polling

/-!
# A page watching the server

The page and the server put together: a request goes out, the server reads its
last fix for it at some time, and the answer arrives at some later time. What
the server answers never goes back, but answers in flight can overtake each
other. In steady use there is one request at a time, and the car on the map does
not go back either.
-/

namespace Zouipocar
set_option autoImplicit false
open Lib

/-- A request of the page, in flight. -/
structure Flight where
  /-- The one made at load. -/
  initial : Bool
  /-- What the server read for it, once it has. -/
  answer : Option (Option Fix)

structure Watch where
  server : Process
  page : Page
  flights : List Flight
  /-- What the map was given, in order. -/
  shown : List (FixOf Number)

inductive WatchEvent
  | server (e : Event)
  | answer (answer : Option Fix)
  | page (e : PageEvent)

namespace Flight

/-- The request ends. Whatever goes wrong on the way, a success has the body the
server made for it. -/
def Ends (f : Flight) (ended : Completion) : Prop :=
  ended.success → ∃ fix, f.answer = some (some fix) ∧ ended.body = fix.bytes

def event (f : Flight) (ended : Completion) : PageEvent :=
  if f.initial then .initial ended else .poll ended

/-- What `onSuccess` gives to the map: the constructor after the initial request,
`setCarPos` of a map that is there after the others. -/
def shows (f : Flight) (page : Page) (ended : Completion) : List (FixOf Number) :=
  if ended.success ∧ ended.drawable = true ∧ (f.initial = true ∨ page.map = true) then
    (Web.parseFix ended.body).toList
  else []

end Flight

/-- A request ends. -/
def PageEvent.completes : PageEvent → Bool
  | .initial _ | .poll _ => true
  | .visible | .hidden | .timer _ => false

/-- The requests a step of the page makes. -/
def Page.made (p q : Page) : List Flight := List.replicate (q.sent - p.sent) ⟨false, none⟩

namespace Watch

/-- A server that runs on a file, and a page that was just loaded from it. -/
def load (file : Table) (visible : Bool) : Watch := ⟨Process.start file, Page.load visible, [⟨true, none⟩], []⟩

inductive Step : Watch → WatchEvent → Watch → Prop
  | server {w : Watch} {e : Event} {server : Process} : Process.Step w.server e server →
      Step w (.server e) { w with server }
  | answer {w : Watch} {before after : List Flight} {initial : Bool} :
      w.flights = before ++ ⟨initial, none⟩ :: after →
      Step w (.answer w.server.server.apiFixLast)
        { w with flights := before ++ ⟨initial, some w.server.server.apiFixLast⟩ :: after }
  | page {w : Watch} {e : PageEvent} {page : Page} : e.completes = false → Page.Step w.page e page →
      Step w (.page e) { w with page, flights := w.flights ++ w.page.made page }
  | ended {w : Watch} {before after : List Flight} {f : Flight} {ended : Completion} {page : Page} :
      w.flights = before ++ f :: after → f.Ends ended → Page.Step w.page (f.event ended) page →
      Step w (.page (f.event ended)) { w with
        page
        flights := before ++ after ++ w.page.made page
        shown := w.shown ++ f.shows w.page ended }

/-- The steps in which the page is used as it can deal with. -/
def SteadyStep (w : Watch) (e : WatchEvent) (v : Watch) : Prop :=
  Step w e v ∧ ∀ pageEvent, e = .page pageEvent → w.page.Steady pageEvent

theorem any_run {w v : Watch} {trace : List WatchEvent} (run : Run SteadyStep w trace v) : Run Step w trace v :=
  run.history (fun trace v => Run Step w trace v) (fun _ _ _ _ _ before taken => before.snoc taken.1) (.refl _)

/-! ## What the server hears of it -/

/-- For the server an answer is a read of its last fix. -/
def serverEvents (trace : List WatchEvent) : List Event :=
  trace.filterMap fun | .server e => some e | .answer answer => some (.apiFixLast answer) | .page _ => none

/-- What was read for the page, in order. -/
def answers (trace : List WatchEvent) : List (Option Fix) :=
  trace.filterMap fun | .answer answer => some answer | _ => none

theorem serverEvents_snoc (trace : List WatchEvent) (e : WatchEvent) :
    serverEvents (trace ++ [e]) = serverEvents trace ++ serverEvents [e] :=
  List.filterMap_append

theorem answers_snoc (trace : List WatchEvent) (e : WatchEvent) :
    answers (trace ++ [e]) = answers trace ++ answers [e] :=
  List.filterMap_append

variable {file : Table} {visible : Bool} {w v : Watch} {trace : List WatchEvent} {e : WatchEvent}

theorem Step.server_run (taken : Step w e v) : Run Process.Step w.server (serverEvents [e]) v.server := by
  cases taken with
  | server taken => exact .single taken
  | answer => exact .single .apiFixLast
  | page => exact .refl _
  | ended => exact .refl _

/-- Requests of the page are part of a run of the server. -/
theorem server_run (run : Run Step (load file visible) trace w) :
    Run Process.Step (Process.start file) (serverEvents trace) w.server := by
  refine run.history (fun trace w => Run Process.Step (Process.start file) (serverEvents trace) w.server) ?_ (.refl _)
  intro trace w e v _ h taken
  rw [serverEvents_snoc]
  exact h.trans taken.server_run

/-- What was read for the page is among the answers of the server. -/
theorem answers_sublist (trace : List WatchEvent) : (answers trace).Sublist (lastAnswers (serverEvents trace)) := by
  induction trace using List.reverseRecOn with
  | nil => exact .slnil
  | append_singleton trace e ih =>
    rw [answers_snoc, serverEvents_snoc, lastAnswers, List.filterMap_append]
    apply List.Sublist.append ih
    cases e <;> simp [answers, serverEvents]

/-- **What is read for the page never goes back.** -/
theorem answers_ordered (run : Run Step (load file visible) trace w) : (answers trace).Pairwise NotAfter :=
  (Tracks.run (server_run run)).ordered.sublist (answers_sublist trace)

/-! ## One request at a time -/

/-- The requests of a page that have not ended. -/
def pending (p : Page) : Nat := p.initial.toNat + p.polls

/-- A step makes requests, and ends one of them if it completes one. -/
theorem pending_step {p q : Page} {e : PageEvent} (taken : Page.Step p e q) :
    pending q + e.completes.toNat = pending p + (p.made q).length := by
  rw [Page.made, List.length_replicate, pending, pending]
  cases e with
  | visible =>
    obtain ⟨-, rfl⟩ := Page.step_visible.mp taken
    simp only [PageEvent.completes, Bool.toNat_false]
    omega
  | hidden =>
    obtain ⟨-, rfl⟩ := Page.step_hidden.mp taken
    simp only [PageEvent.completes, Bool.toNat_false]
    omega
  | timer handle =>
    obtain ⟨-, rfl⟩ := Page.step_timer.mp taken
    simp only [PageEvent.completes, Bool.toNat_false]
    omega
  | initial ended =>
    obtain ⟨initial, map, rfl⟩ := Page.step_initial taken
    split <;> simp only [PageEvent.completes, initial, Bool.toNat_true, Bool.toNat_false] <;> omega
  | poll ended =>
    obtain ⟨flying, rfl⟩ := Page.step_poll taken
    have armed : (Page.after Page.armTimer { p with polls := p.polls - 1 }).initial = p.initial ∧
        (Page.after Page.armTimer { p with polls := p.polls - 1 }).polls = p.polls - 1 ∧
        (Page.after Page.armTimer { p with polls := p.polls - 1 }).sent = p.sent := ⟨rfl, rfl, rfl⟩
    split
    · simp only [PageEvent.completes, Bool.toNat_true]
      omega
    · rw [armed.1, armed.2.1, armed.2.2]
      simp only [PageEvent.completes, Bool.toNat_true]
      omega

/-- In steady use the page waits for one request at most. -/
theorem pending_le {p : Page} (h : Page.OneChain p) : pending p ≤ 1 := by
  have single := h.single
  rw [Page.alive] at single
  rw [pending]
  cases initial : p.initial with
  | true => simp [(h.before initial).1]
  | false =>
    rw [Bool.toNat_false]
    omega

/-- The requests in flight are those of the page, there is one at most, and what
was shown or is about to be is what was read, in that order. -/
structure InOrder (trace : List WatchEvent) (w : Watch) : Prop where
  chain : Page.OneChain w.page
  flights : w.flights.length = pending w.page
  ordered : ∃ fixes : List Fix, w.shown = fixes.map Fix.parsed ∧
    (fixes.map some ++ w.flights.filterMap Flight.answer).Sublist (answers trace)

namespace InOrder

theorem load (file : Table) (visible : Bool) : InOrder [] (load file visible) :=
  ⟨.load visible, rfl, [], rfl, .slnil⟩

/-- The one request in flight. -/
theorem single (h : InOrder trace w) {before after : List Flight} {f : Flight}
    (flying : w.flights = before ++ f :: after) : before = [] ∧ after = [] := by
  have few := h.flights
  have one := pending_le h.chain
  rw [flying, List.length_append, List.length_cons] at few
  exact ⟨List.eq_nil_of_length_eq_zero (by omega), List.eq_nil_of_length_eq_zero (by omega)⟩

end InOrder

theorem made_answers (p q : Page) : (p.made q).filterMap Flight.answer = [] := by
  rw [List.filterMap_eq_nil_iff]
  intro f made
  rw [List.eq_of_mem_replicate made]

/-- What is shown was read for the request. -/
theorem shows_answer {f : Flight} {ended : Completion} (ends : f.Ends ended) (page : Page) :
    ∃ fixes : List Fix, f.shows page ended = fixes.map Fix.parsed ∧
      (fixes.map some).Sublist f.answer.toList := by
  unfold Flight.shows
  split
  · rename_i shown
    obtain ⟨fix, read, body⟩ := ends shown.1
    refine ⟨[fix], ?_, ?_⟩
    · rw [body, Web.parseFix_bytes]
      rfl
    · rw [read]
      exact .refl _
  · exact ⟨[], rfl, List.nil_sublist _⟩

/-- **One step in steady use keeps the order.** -/
theorem InOrder.step (h : InOrder trace w) (taken : SteadyStep w e v) : InOrder (trace ++ [e]) v := by
  obtain ⟨taken, steady⟩ := taken
  obtain ⟨fixes, shown, ordered⟩ := h.ordered
  cases taken with
  | server taken =>
    refine ⟨h.chain, h.flights, fixes, shown, ?_⟩
    rw [answers_snoc]
    exact ordered.trans (List.sublist_append_left _ _)
  | @answer before after initial flying =>
    obtain ⟨rfl, rfl⟩ := h.single flying
    refine ⟨h.chain, by rw [← h.flights, flying]; rfl, fixes, shown, ?_⟩
    rw [flying] at ordered
    rw [answers_snoc]
    apply List.Sublist.append _ (.refl _)
    simpa using ordered
  | @page e page starts taken =>
    have next := (h.chain.step ⟨taken, steady e rfl⟩).1
    have count := pending_step taken
    refine ⟨next, ?_, fixes, shown, ?_⟩
    · rw [starts, Bool.toNat_false, Nat.add_zero] at count
      rw [count, ← h.flights, List.length_append]
    · rw [List.filterMap_append, made_answers, List.append_nil, answers_snoc]
      exact ordered.trans (List.sublist_append_left _ _)
  | @ended before after f ended page flying ends taken =>
    have next := (h.chain.step ⟨taken, steady _ rfl⟩).1
    have count := pending_step taken
    obtain ⟨rfl, rfl⟩ := h.single flying
    obtain ⟨more, shows, read⟩ := shows_answer ends w.page
    refine ⟨next, ?_, fixes ++ more, ?_, ?_⟩
    · have completes : (f.event ended).completes = true := by
        unfold Flight.event
        split <;> rfl
      have one := h.flights
      rw [flying] at one
      rw [completes, ← one] at count
      simp only [List.nil_append, List.length_cons, List.length_nil, Bool.toNat_true] at count ⊢
      omega
    · rw [shown, shows, List.map_append]
    · rw [flying] at ordered
      simp only [List.nil_append, made_answers, List.append_nil, List.map_append]
      rw [answers_snoc]
      apply List.Sublist.trans _ (ordered.trans (List.sublist_append_left _ _))
      apply List.Sublist.append (.refl _)
      cases answer : f.answer with
      | none => simpa [answer] using read
      | some found => simpa [answer] using read

theorem InOrder.run (run : Run SteadyStep (Watch.load file visible) trace w) : InOrder trace w :=
  run.history InOrder (fun _ _ _ _ _ h taken => h.step taken) (.load file visible)

/-- **In steady use the car on the map never goes back in time**, and what is
shown was read from the server. -/
theorem shown_ordered (run : Run SteadyStep (Watch.load file visible) trace w) :
    w.shown.Pairwise (fun a b => a.timestamp < b.timestamp ∨ a = b) ∧
      ∀ fix ∈ w.shown, ∃ read, some read ∈ answers trace ∧ fix = read.parsed := by
  obtain ⟨fixes, shown, ordered⟩ := (InOrder.run run).ordered
  have read := (List.sublist_append_left _ _).trans ordered
  have pairs : fixes.Pairwise fun a b => NotAfter (some a) (some b) :=
    List.pairwise_map.mp ((answers_ordered (any_run run)).sublist read)
  rw [shown]
  constructor
  · apply List.pairwise_map.mpr
    apply pairs.imp
    intro a b later
    exact later.imp_right (congrArg Fix.parsed)
  · intro fix inside
    obtain ⟨source, mem, rfl⟩ := List.mem_map.mp inside
    exact ⟨source, read.subset (List.mem_map_of_mem mem), rfl⟩

theorem shows_bytes {f : Flight} {page : Page} (fix : Fix) (ready : f.initial = true ∨ page.map = true) :
    f.shows page ⟨200, fix.bytes, true⟩ = [fix.parsed] := by
  have success : (⟨200, fix.bytes, true⟩ : Completion).success := ⟨by simp, by simp⟩
  rw [Flight.shows, if_pos ⟨success, rfl, ready⟩, Web.parseFix_bytes]
  rfl

/-- The server goes on by itself. -/
theorem server_lift {p q : Process} {events : List Event} (run : Run Process.Step p events q) (page : Page)
    (flights : List Flight) (shown : List (FixOf Number)) :
    Run SteadyStep ⟨p, page, flights, shown⟩ (events.map .server) ⟨q, page, flights, shown⟩ := by
  induction run with
  | refl => exact .refl _
  | snoc _ last ih =>
    rw [List.map_append]
    exact ih.snoc ⟨.server last, nofun⟩

/-- A request is answered and its answer shown. -/
theorem shows_run {p : Process} {page next : Page} (f : Bool) (shown : List (FixOf Number)) {fix : Fix}
    (last : p.server.lastFix = some fix) (ready : f = true ∨ page.map = true) (lit : page.visible = true)
    (taken : Page.Step page (Flight.event ⟨f, none⟩ ⟨200, fix.bytes, true⟩) next) :
    Run SteadyStep ⟨p, page, [⟨f, none⟩], shown⟩
      [.answer (some fix), .page (Flight.event ⟨f, none⟩ ⟨200, fix.bytes, true⟩)]
      ⟨p, next, page.made next, shown ++ [fix.parsed]⟩ := by
  have read : SteadyStep ⟨p, page, [⟨f, none⟩], shown⟩ (.answer (some fix))
      ⟨p, page, [⟨f, some (some fix)⟩], shown⟩ := last ▸ ⟨@Step.answer _ [] [] f rfl, nofun⟩
  have ends : (⟨f, some (some fix)⟩ : Flight).Ends ⟨200, fix.bytes, true⟩ := fun _ => ⟨fix, rfl, rfl⟩
  have done := @Step.ended ⟨p, page, [⟨f, some (some fix)⟩], shown⟩ [] [] _ _ _ rfl ends taken
  rw [shows_bytes fix ready] at done
  refine .cons read (.single ⟨done, ?_⟩)
  intro event same
  obtain rfl := WatchEvent.page.inj same
  cases f with
  | true => exact .inl lit
  | false => exact .inl lit

/-- A fix goes through the callback. -/
def handled (fix : Fix) : List WatchEvent :=
  [.deliver fix, .updateFix fix, .insertFix fix, .assign fix].map .server

/-- A fix is read by the initial request and shown, and the next one by a poll. -/
theorem next_run : ∃ w : Watch, Run SteadyStep (Watch.load .empty true)
    (handled ⟨7, 0, 0, 10⟩ ++ [.answer (some ⟨7, 0, 0, 10⟩), .page (.initial ⟨200, Fix.bytes ⟨7, 0, 0, 10⟩, true⟩)] ++
      handled ⟨9, 0, 0, 10⟩ ++ [.answer (some ⟨9, 0, 0, 10⟩), .page (.poll ⟨200, Fix.bytes ⟨9, 0, 0, 10⟩, true⟩)]) w ∧
    w.shown = [Fix.parsed ⟨7, 0, 0, 10⟩, Fix.parsed ⟨9, 0, 0, 10⟩] := by
  let start := Process.start .empty
  let p : Process := ⟨Process.storeFix start.db ⟨7, 0, 0, 10⟩, some ⟨7, 0, 0, 10⟩,
    start.server.updateFix ⟨7, 0, 0, 10⟩, .idle⟩
  let polling : Page := ⟨true, false, 1, 1, [], none, 0, true⟩
  let waiting : Page := ⟨true, false, 0, 1, [1], some 1, 1, true⟩
  have loaded : Page.Step (.load true) (.initial ⟨200, Fix.bytes ⟨7, 0, 0, 10⟩, true⟩) polling := by decide +kernel
  have polled : Page.Step polling (.poll ⟨200, Fix.bytes ⟨9, 0, 0, 10⟩, true⟩) waiting := by decide +kernel
  have first := server_lift (Process.accepted_run start ⟨7, 0, 0, 10⟩ rfl rfl) (.load true) [⟨true, none⟩] []
  have shown := shows_run true [] (rfl : p.server.lastFix = _) (.inl rfl) rfl loaded
  let q : Process := ⟨Process.storeFix p.db ⟨9, 0, 0, 10⟩, some ⟨9, 0, 0, 10⟩,
    p.server.updateFix ⟨9, 0, 0, 10⟩, .idle⟩
  have second := server_lift (Process.accepted_run p ⟨9, 0, 0, 10⟩ rfl rfl) polling [⟨false, none⟩]
    [Fix.parsed ⟨7, 0, 0, 10⟩]
  have next := shows_run false [Fix.parsed ⟨7, 0, 0, 10⟩] (rfl : q.server.lastFix = _) (.inr rfl) rfl polled
  exact ⟨_, ((first.trans shown).trans second).trans next, rfl⟩

theorem shown_ordered_next : ∃ trace, ∃ w : Watch, Run SteadyStep (Watch.load .empty true) trace w ∧
    w.shown = [Fix.parsed ⟨7, 0, 0, 10⟩, Fix.parsed ⟨9, 0, 0, 10⟩] ∧
    w.shown.Pairwise (fun a b => a.timestamp < b.timestamp ∨ a = b) ∧
    ∀ fix ∈ w.shown, ∃ read, some read ∈ answers trace ∧ fix = read.parsed := by
  obtain ⟨w, run, shown⟩ := next_run
  exact ⟨_, w, run, shown, shown_ordered run⟩

/-- Hidden and shown again while a request is in flight, the page has two, and
the answer to the second one may arrive first. -/
theorem not_shown_ordered : ¬ ∀ file visible trace w, Run Step (Watch.load file visible) trace w →
    w.shown.Pairwise fun a b => a.timestamp < b.timestamp ∨ a = b := by
  intro always
  let old : Fix := ⟨7, 0, 0, 10⟩
  let new : Fix := ⟨9, 0, 0, 10⟩
  let start := Process.start .empty
  let p : Process := ⟨Process.storeFix start.db old, some old, start.server.updateFix old, .idle⟩
  let q : Process := ⟨Process.storeFix p.db new, some new, p.server.updateFix new, .idle⟩
  let polling : Page := ⟨true, false, 1, 1, [], none, 0, true⟩
  let twice : Page := ⟨true, false, 2, 2, [], none, 0, true⟩
  let once : Page := ⟨true, false, 1, 2, [1], some 1, 1, true⟩
  let both : Page := ⟨true, false, 0, 2, [1, 2], some 2, 2, true⟩
  have missing : Step (Watch.load .empty true) (.page (.initial ⟨404, [], true⟩))
      ⟨start, polling, [⟨false, none⟩], []⟩ :=
    @Step.ended _ [] [] ⟨true, none⟩ ⟨404, [], true⟩ _ rfl (fun success => by simp [Completion.success] at success)
      (by decide)
  have hides : Step ⟨start, polling, [⟨false, none⟩], []⟩ (.page .hidden)
      ⟨start, { polling with visible := false }, [⟨false, none⟩], []⟩ := .page rfl (by decide)
  have shows : Step ⟨start, { polling with visible := false }, [⟨false, none⟩], []⟩ (.page .visible)
      ⟨start, twice, [⟨false, none⟩, ⟨false, none⟩], []⟩ := .page rfl (by decide)
  have first := any_run (server_lift (Process.accepted_run start old rfl rfl) twice [⟨false, none⟩, ⟨false, none⟩] [])
  have reads : Step ⟨p, twice, [⟨false, none⟩, ⟨false, none⟩], []⟩ (.answer (some old))
      ⟨p, twice, [⟨false, some (some old)⟩, ⟨false, none⟩], []⟩ := @Step.answer _ [] [⟨false, none⟩] false rfl
  have second := any_run (server_lift (Process.accepted_run p new rfl rfl) twice
    [⟨false, some (some old)⟩, ⟨false, none⟩] [])
  have rereads : Step ⟨q, twice, [⟨false, some (some old)⟩, ⟨false, none⟩], []⟩ (.answer (some new))
      ⟨q, twice, [⟨false, some (some old)⟩, ⟨false, some (some new)⟩], []⟩ :=
    @Step.answer _ [⟨false, some (some old)⟩] [] false rfl
  have overtakes : Step ⟨q, twice, [⟨false, some (some old)⟩, ⟨false, some (some new)⟩], []⟩
      (.page (.poll ⟨200, new.bytes, true⟩)) ⟨q, once, [⟨false, some (some old)⟩], [new.parsed]⟩ := by
    have ended := @Step.ended ⟨q, twice, [⟨false, some (some old)⟩, ⟨false, some (some new)⟩], []⟩
      [⟨false, some (some old)⟩] [] ⟨false, some (some new)⟩ ⟨200, new.bytes, true⟩ once rfl
      (fun _ => ⟨new, rfl, rfl⟩) (by decide +kernel)
    rw [shows_bytes new (.inr rfl)] at ended
    exact ended
  have late : Step ⟨q, once, [⟨false, some (some old)⟩], [new.parsed]⟩
      (.page (.poll ⟨200, old.bytes, true⟩)) ⟨q, both, [], [new.parsed, old.parsed]⟩ := by
    have ended := @Step.ended ⟨q, once, [⟨false, some (some old)⟩], [new.parsed]⟩
      [] [] ⟨false, some (some old)⟩ ⟨200, old.bytes, true⟩ both rfl
      (fun _ => ⟨old, rfl, rfl⟩) (by decide +kernel)
    rw [shows_bytes old (.inr rfl)] at ended
    exact ended
  have run := (((((Run.refl _).snoc missing).snoc hides).snoc shows).trans first).snoc reads |>.trans second
    |>.snoc rereads |>.snoc overtakes |>.snoc late
  have back := List.rel_of_pairwise_cons (always _ _ _ _ run) (List.mem_singleton.mpr rfl)
  revert back
  decide +kernel

end Watch

end Zouipocar
