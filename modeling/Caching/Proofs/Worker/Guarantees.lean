import Mathlib.Data.List.Induction
import Caching.Proofs.Worker.Events

/-!
# What a process may count on

Whatever has befallen the workers of a process, one can tell from the events alone which of them own
a runtime and which of them have been stopped; no worker suffers from what becomes of another one;
and nothing is started that was cancelled or whose worker was stopped.
-/

namespace Caching.Pool

variable {p q : Pool} {e : Event} {i k : Nat} {gone : List Nat} {events : List Event}

/-- Among the events from the beginning of the process on there is one of which `R` holds, and of
the pool that it befell. -/
def Occurred (R : Pool → Event → Prop) (events : List Event) : Prop :=
  ∃ before e after, events = before ++ e :: after ∧ R (fresh.run before) e

private theorem not_occurred_nil (R : Pool → Event → Prop) : ¬Occurred R [] := by
  rintro ⟨before, e, after, h, -⟩
  simp at h

private theorem occurred_concat {R : Pool → Event → Prop} :
    Occurred R (events ++ [e]) ↔ Occurred R events ∨ R (fresh.run events) e := by
  constructor
  · rintro ⟨before, e', after, h, hR⟩
    rcases List.eq_nil_or_concat after with rfl | ⟨after, e'', rfl⟩
    · obtain ⟨rfl, he⟩ := List.append_inj' h rfl
      cases he
      exact .inr hR
    · rw [List.concat_eq_append, ← List.cons_append, ← List.append_assoc] at h
      exact .inl ⟨before, e', after, (List.append_inj' h rfl).1, hR⟩
  · rintro (⟨before, e', after, rfl, hR⟩ | hR)
    · exact ⟨before, e', after ++ [e], by simp, hR⟩
    · exact ⟨events, e, [], rfl, hR⟩

/-- One event more. -/
theorem run_concat (p : Pool) (events : List Event) (e : Event) :
    p.run (events ++ [e]) = (p.run events).step e := by
  simp [run]

private theorem tidy_fresh : fresh.Tidy := by
  refine ⟨⟨?_, ?_, ?_, ?_, ?_, ?_, ?_, ?_, ?_⟩, ?_⟩ <;> simp [fresh]

private theorem Unfolds.workers_le (h : Unfolds p e q) : p.workers.length ≤ q.workers.length := by
  by_contra hlt
  rcases h.workers q.workers.length _ (List.getElem?_eq_getElem (by omega)) with hw | ⟨hw, -⟩
  · simp at hw
  · simp at hw

private theorem Keeps.assignments_le (h : Keeps p e q) :
    p.assignments.length ≤ q.assignments.length := by
  by_contra hlt
  obtain ⟨b, hb, -⟩ := h.assignments q.assignments.length _ (List.getElem?_eq_getElem (by omega))
  simp at hb

/-- Stopping a worker leaves the holders as they are, and as many workers as there were. -/
@[simp] theorem stop_frame (place : Place) (i : Nat) (p : Pool) :
    (p.stop place i).workers.length = p.workers.length ∧
      (p.stop place i).shared? = p.shared? ∧ (p.stop place i).holders = p.holders := by
  rw [stop, stopRuntime]
  split
  · simp
  · split <;> simp [note]

/-- So does stopping those that nobody holds. -/
@[simp] theorem dismiss_frame (place : Place) (p : Pool) :
    (p.dismiss place).workers.length = p.workers.length ∧
      (p.dismiss place).shared? = p.shared? ∧ (p.dismiss place).holders = p.holders := by
  rw [dismiss]
  generalize p.forsaken = gone
  induction gone generalizing p with
  | nil => simp
  | cons i gone ih => simp [ih]

private theorem Founds.lt (h : p.Founds e i) : i < (p.step e).workers.length := by
  obtain ⟨rfl, ⟨holder, name, place, rfl⟩ | ⟨hshared, holder, place, rfl⟩⟩ := h
  · simp [step, hire, hold, enlist, Worker.dedicated, Worker.ownsRuntime, noteStarted, note]
  · simp [step, share, Pool.shared, hshared, hold, enlist, Worker.processWide, Worker.dedicated,
      Worker.ownsRuntime, noteStarted, note]

private theorem Tidy.stopped_of_shuts (hp : p.Tidy) (h : p.Shuts e i) {w : Worker}
    (hw : (p.step e).workers[i]? = some w) (hwide : w.isProcessWide = false) :
    w.stopped = true := by
  obtain ⟨holder, place, rfl, hlookup⟩ := h
  have hlt := hp.lt_of_lookup hlookup
  have hworker := worker?_eq_some.mpr ⟨hlookup, List.getElem?_eq_getElem hlt⟩
  simp only [step, shutdown, hworker] at hw
  split at hw
  · next hwide' =>
    rw [note, List.getElem?_eq_getElem hlt] at hw
    cases hw
    simp [hwide] at hwide'
  split at hw
  · next hstopped =>
    rw [List.getElem?_eq_getElem hlt] at hw
    cases hw
    exact hstopped
  · rw [(hp.toSound.stop_ends place hlt).worker, List.getElem?_eq_getElem hlt] at hw
    simp only [Option.map_some, List.mem_singleton, if_true, Option.some.injEq] at hw
    simp [← hw, Worker.retired]

/-! ### What lasts -/

private theorem Unfolds.isHeld_eq_false (h : Unfolds p e q) (hlt : i < p.workers.length)
    (hi : p.isHeld i = false) : q.isHeld i = false := by
  by_contra hheld
  simp [h.held i hlt (by simpa using hheld)] at hi

/-- Tidiness lasts. -/
theorem Tidy.run (hp : p.Tidy) (later : List Event) : (p.run later).Tidy := by
  induction later generalizing p with
  | nil => exact hp
  | cons e later ih => exact ih (hp.unfolds e).tidy

/-- Things are tidy after any course of events. -/
theorem tidy_run (events : List Event) : (fresh.run events).Tidy :=
  tidy_fresh.run events

/-- The state of things after a course of events, as far as the events tell it. -/
structure Recorded (events : List Event) (p : Pool) : Prop where
  founded : ∀ (i : Nat) (w : Worker), p.workers[i]? = some w →
    (w.handle = .started i ↔ Occurred (fun p e ↦ p.Founds e i) events)
  stopped : ∀ (i : Nat) (w : Worker), p.workers[i]? = some w → (w.stopped = true ↔
    p.isHeld i = false ∨ w.isProcessWide = false ∧ Occurred (fun p e ↦ p.Shuts e i) events)
  cancelled : ∀ (k : Nat) (a : Assignment), p.assignments[k]? = some a →
    Occurred (fun p e ↦ p.Cancels e k) events → a.cancelled = true

private theorem lt_of_occurred {R : Pool → Event → Prop} (size : Pool → Nat)
    (hgrows : ∀ (p : Pool) (e : Event), p.Tidy → size p ≤ size (p.step e))
    (hR : ∀ (p : Pool) (e : Event), p.Tidy → R p e → i < size (p.step e))
    (h : Occurred R events) : i < size (fresh.run events) := by
  induction events using List.reverseRecOn with
  | nil => exact absurd h (not_occurred_nil R)
  | append_singleton events e ih =>
    rw [run_concat]
    rcases occurred_concat.mp h with h | h
    · exact Nat.lt_of_lt_of_le (ih h) (hgrows _ e (tidy_run events))
    · exact hR _ e (tidy_run events) h

private theorem lt_of_founded (h : Occurred (fun p e ↦ p.Founds e i) events) :
    i < (fresh.run events).workers.length :=
  lt_of_occurred (fun p ↦ p.workers.length) (fun _ e hp ↦ (hp.unfolds e).workers_le)
    (fun _ _ _ hfounds ↦ hfounds.lt) h

private theorem lt_of_shut (h : Occurred (fun p e ↦ p.Shuts e i) events) :
    i < (fresh.run events).workers.length := by
  refine lt_of_occurred (fun p ↦ p.workers.length) (fun _ e hp ↦ (hp.unfolds e).workers_le)
    (fun p e hp ⟨holder, place, _, hlookup⟩ ↦ ?_) h
  exact Nat.lt_of_lt_of_le (hp.lt_of_lookup hlookup) (hp.unfolds e).workers_le

private theorem lt_of_cancelled (h : Occurred (fun p e ↦ p.Cancels e k) events) :
    k < (fresh.run events).assignments.length := by
  refine lt_of_occurred (fun p ↦ p.assignments.length)
    (fun _ e hp ↦ (hp.unfolds e).assignments_le) (fun p e hp ⟨label, _, hlookup⟩ ↦ ?_) h
  exact Nat.lt_of_lt_of_le (hp.lt_of_label hlookup) (hp.unfolds e).assignments_le

private theorem Unfolds.of_worker {w : Worker} (h : Unfolds p e q) (hw : q.workers[i]? = some w) :
    (∃ w₀ : Worker, p.workers[i]? = some w₀ ∧ (w = w₀ ∨
      w = w₀.retired ∧ (p.Shuts e i ∧ w₀.isProcessWide = false ∨ q.isHeld i = false))) ∨
    i = p.workers.length ∧ (w.stopped = true → q.isHeld i = false) ∧
      (w.handle = .started i ↔ p.Founds e i) := by
  rcases Nat.lt_or_ge i p.workers.length with hlt | hge
  · have hw₀ := List.getElem?_eq_getElem hlt
    refine .inl ⟨_, hw₀, ?_⟩
    rcases h.workers i _ hw₀ with hsame | ⟨hretired, hcause⟩
    · exact .inl (Option.some.inj (hw.symm.trans hsame))
    · exact .inr ⟨Option.some.inj (hw.symm.trans hretired), hcause⟩
  · exact .inr (h.hired i w hw hge)

private theorem Recorded.stopped_step (h : Recorded events (fresh.run events)) {w : Worker}
    (hw : ((fresh.run events).step e).workers[i]? = some w) : w.stopped = true ↔
      ((fresh.run events).step e).isHeld i = false ∨
        w.isProcessWide = false ∧ Occurred (fun p e ↦ p.Shuts e i) (events ++ [e]) := by
  have htidy := tidy_run events
  have hunfolds := htidy.unfolds e
  constructor
  · intro hstopped
    rcases hunfolds.of_worker hw with ⟨w₀, hw₀, rfl | ⟨rfl, hshuts | hheld⟩⟩ | ⟨-, hheld, -⟩
    · have hlt := (List.getElem?_eq_some_iff.mp hw₀).1
      refine ((h.stopped i w hw₀).mp hstopped).imp (hunfolds.isHeld_eq_false hlt) ?_
      exact And.imp_right fun ho ↦ occurred_concat.mpr (.inl ho)
    · exact .inr ⟨hshuts.2, occurred_concat.mpr (.inr hshuts.1)⟩
    · exact .inl hheld
    · exact .inl (hheld hstopped)
  · rintro (hheld | ⟨hwide, ho⟩)
    · by_contra hstopped
      simp [hunfolds.tidy.held i w hw (by simpa using hstopped)] at hheld
    · rcases occurred_concat.mp ho with ho | hshuts
      · rcases hunfolds.of_worker hw with ⟨w₀, hw₀, rfl | ⟨rfl, -⟩⟩ | ⟨hi, -⟩
        · exact (h.stopped i w hw₀).mpr (.inr ⟨hwide, ho⟩)
        · rfl
        · exact absurd (lt_of_shut ho) (by omega)
      · exact htidy.stopped_of_shuts hshuts hw hwide

private theorem Recorded.concat (h : Recorded events (fresh.run events)) (e : Event) :
    Recorded (events ++ [e]) ((fresh.run events).step e) := by
  have hunfolds := (tidy_run events).unfolds e
  refine ⟨fun i w hw ↦ ?_, fun i w hw ↦ h.stopped_step hw, fun k b hb ho ↦ ?_⟩
  · rw [occurred_concat]
    rcases hunfolds.of_worker hw with ⟨w₀, hw₀, hsame⟩ | ⟨rfl, -, hfounds⟩
    · have hlt := (List.getElem?_eq_some_iff.mp hw₀).1
      have hhandle : w.handle = w₀.handle := by
        rcases hsame with rfl | ⟨rfl, -⟩ <;> rfl
      rw [hhandle, h.founded i w₀ hw₀]
      exact (or_iff_left fun hfounds ↦ Nat.ne_of_gt hlt hfounds.1).symm
    · rw [hfounds]
      exact (or_iff_right fun ho ↦ Nat.lt_irrefl _ (lt_of_founded ho)).symm
  · have hlt : k < (fresh.run events).assignments.length := by
      rcases occurred_concat.mp ho with ho | ⟨label, -, hlookup⟩
      · exact lt_of_cancelled ho
      · exact (tidy_run events).lt_of_label hlookup
    have ha := List.getElem?_eq_getElem hlt
    obtain ⟨b', hb', hpasses⟩ := hunfolds.assignments k _ ha
    cases hb.symm.trans hb'
    exact hpasses.cancelled.mpr ((occurred_concat.mp ho).imp_left (h.cancelled k _ ha))

/-- What the events tell after any course of them. -/
theorem recorded (events : List Event) : Recorded events (fresh.run events) := by
  induction events using List.reverseRecOn with
  | nil => refine ⟨?_, ?_, ?_⟩ <;> simp [run, fresh]
  | append_singleton events e ih =>
    rw [run_concat]
    exact ih.concat e

/-! ### Runtimes -/

private theorem Ends.spares (h : Ends gone p q) (hi : i ∉ gone) : q.workers[i]? = p.workers[i]? ∧
    ∀ (k : Nat) (a : Assignment), p.assignments[k]? = some a → a.worker = i →
      q.assignments[k]? = some a := by
  refine ⟨h.worker_of_notMem hi, fun k a ha hworker ↦ ?_⟩
  rcases h.assignments k a ha with hk | ⟨hgone, -⟩
  · exact hk
  · exact absurd (hworker ▸ hgone) hi

private theorem Sound.worker_dismiss (hp : p.Sound) (place : Place) (hi : p.isHeld i = true) :
    (p.dismiss place).workers[i]? = p.workers[i]? := by
  refine (hp.dismiss_ends place).worker_of_notMem fun hmem ↦ ?_
  simp [(mem_forsaken.mp hmem).2] at hi

private theorem Sound.worker_enlist (hp : p.Sound) {w : Worker} (holder : String) (place : Place)
    (hmade : w.IsMade p.workers.length) (hfresh : w.stopped = false)
    (hown : w.isProcessWide = false) :
    ((p.enlist w).hold place holder p.workers.length).workers[p.workers.length]? = some w := by
  have hget : (p.workers ++ [w])[p.workers.length]? = some w := by simp
  rw [Pool.enlist]
  split
  · exact ((hp.enlist holder hmade hfresh (.inl ⟨rfl, hown⟩)).worker_dismiss place
      (isHeld_of_lookup List.lookup_cons_self)).trans hget
  · exact ((hp.enlist holder hmade hfresh (.inl ⟨rfl, hown⟩)).worker_dismiss place
      (isHeld_of_lookup List.lookup_cons_self)).trans hget

/-- Whoever hires a worker is given a fresh one, unless a runtime has to be started for it and the
machine cannot do so. -/
theorem Sound.hires (hp : p.Sound) (holder name : String) (origin : Origin) (place : Place)
    (canStart : Bool) (h : origin.needsStart = true → canStart = true) :
    (p.step (.hire holder name origin place canStart)).holders.lookup holder =
        some p.workers.length ∧
      ∃ w : Worker, (p.step (.hire holder name origin place canStart)).workers[p.workers.length]? =
          some w ∧ w.name = name ∧ w.ownsRuntime = origin.needsStart ∧ w.stopped = false := by
  cases origin with
  | dedicated =>
    have hstart : canStart = true := h rfl
    simp only [step, hire, hstart, Bool.not_true, Bool.and_false, Bool.false_eq_true, if_false]
    exact ⟨by simp [hold], _, hp.worker_enlist holder place (.started rfl rfl) rfl rfl,
      rfl, rfl, rfl⟩
  | borrowed host =>
    simp only [step, hire, Origin.needsStart, Bool.false_and, Bool.false_eq_true, if_false]
    exact ⟨by simp [hold], _, hp.worker_enlist holder place (.borrowing host rfl rfl rfl) rfl rfl,
      rfl, rfl, rfl⟩

/-- Whoever asks for the shared worker is given it. -/
theorem shares (p : Pool) (holder : String) (place : Place) (canStart : Bool)
    (h : p.shared?.isSome = true ∨ canStart = true) :
    ∃ i, (p.step (.share holder place canStart)).shared? = some i ∧
      (p.step (.share holder place canStart)).holders.lookup holder = some i := by
  cases hshared : p.shared? with
  | some i => exact ⟨i, by simp [step, share, Pool.shared, hold, hshared]⟩
  | none =>
    have hstart : canStart = true := by simpa [hshared] using h
    exact ⟨p.workers.length, by simp [step, share, Pool.shared, hold, hshared, hstart, enlist,
      Worker.processWide, Worker.dedicated, Worker.ownsRuntime, noteStarted, note]⟩

/-- The machine does start what it may. -/
theorem begins {a : Assignment} (ha : p.assignments[k]? = some a) (h : p.Starts (.start k) k a) :
    ∃ b, (p.step (.start k)).assignments[k]? = some b ∧ b.runs = a.runs + 1 := by
  obtain ⟨-, hmay, due, hdue, hnow⟩ := h
  have hstart : p.step (.start k) = p.setAssignment k a.begun := by
    simp only [step, start, ha, hdue, Nat.not_lt.mpr hnow, if_false, hmay, if_true]
  rw [hstart]
  exact ⟨a.begun, by simp [setAssignment, (List.getElem?_eq_some_iff.mp ha).1], rfl⟩

/-! ### The guarantees -/

/-- What a process may count on after a course of events, whatever is going to befall it. -/
structure InOrder (events : List Event) (p : Pool) : Prop where
  /-- A worker owns a runtime exactly if one was started for it and it has not been stopped. -/
  owns : ∀ (i : Nat) (w : Worker), p.workers[i]? = some w →
    (w.ownsRuntime = true ↔ Occurred (fun p e ↦ p.Founds e i) events ∧ w.stopped = false)
  /-- A worker has been stopped exactly if nobody holds it any more, or somebody who held it has
  shut it down and it is not the shared one. -/
  stopped : ∀ (i : Nat) (w : Worker), p.workers[i]? = some w → (w.stopped = true ↔
    p.isHeld i = false ∨ w.isProcessWide = false ∧ Occurred (fun p e ↦ p.Shuts e i) events)
  /-- Whatever follows, a worker stays as it is, or it is stopped for good. -/
  lasts : ∀ (later : List Event) (i : Nat) (w : Worker), p.workers[i]? = some w →
    (p.run later).workers[i]? = some w ∨ (p.run later).workers[i]? = some w.retired
  /-- Whom nobody holds any more, nobody will ever hold again. -/
  unheld : ∀ (later : List Event) (i : Nat), i < p.workers.length → p.isHeld i = false →
    (p.run later).isHeld i = false
  /-- An event stops a worker only if it is shut down by it, or if nobody holds it afterwards. -/
  stops : ∀ (e : Event) (i : Nat) (w : Worker), p.workers[i]? = some w →
    (p.step e).workers[i]? = some w ∨ (p.step e).workers[i]? = some w.retired ∧
      (p.Shuts e i ∧ w.isProcessWide = false ∨ (p.step e).isHeld i = false)
  /-- Whoever shuts down a worker or lets go of it leaves all others as they are, with all that they
  were given to run. -/
  spares : ∀ (e : Event) (holder : String) (place : Place) (i : Nat),
    e = .shutdown holder place ∨ e = .letGo holder place → p.holders.lookup holder ≠ some i →
    (p.step e).workers[i]? = p.workers[i]? ∧
      ∀ (k : Nat) (a : Assignment), p.assignments[k]? = some a → a.worker = i →
        (p.step e).assignments[k]? = some a
  /-- Only runtimes of workers are stopped, and nobody waits for it who must not block. -/
  halts : ∀ h ∈ p.halts, (h.place = .inside → h.blocking = false) ∧
    ∃ (i : Nat) (w : Worker), p.workers[i]? = some w ∧ h.runtime = w.handle
  /-- The runtime on which a worker runs things is stopped exactly if it was started for the worker
  and the worker has been stopped. -/
  halted : ∀ (i : Nat) (w : Worker), p.workers[i]? = some w → (p.isHalted w.handle = true ↔
    Occurred (fun p e ↦ p.Founds e i) events ∧ w.stopped = true)
  /-- Whoever hires a worker is given a fresh one, unless a runtime has to be started for it and the
  machine cannot do so. -/
  hires : ∀ (holder name : String) (origin : Origin) (place : Place) (canStart : Bool),
    (origin.needsStart = true → canStart = true) →
    (p.step (.hire holder name origin place canStart)).holders.lookup holder =
        some p.workers.length ∧
      ∃ w : Worker, (p.step (.hire holder name origin place canStart)).workers[p.workers.length]? =
          some w ∧ w.name = name ∧ w.ownsRuntime = origin.needsStart ∧ w.stopped = false
  /-- The shared worker remains the shared one for good, owns its runtime and is never stopped. -/
  shared : ∀ (later : List Event) (i : Nat), p.shared? = some i →
    (p.run later).shared? = some i ∧ ∃ w : Worker, (p.run later).workers[i]? = some w ∧
      w.isProcessWide = true ∧ w.ownsRuntime = true ∧ w.stopped = false
  /-- Everybody who asks for the shared worker is given it, unless it has to be made and the machine
  cannot start a runtime. -/
  shares : ∀ (holder : String) (place : Place) (canStart : Bool),
    p.shared?.isSome = true ∨ canStart = true →
    ∃ i, (p.step (.share holder place canStart)).shared? = some i ∧
      (p.step (.share holder place canStart)).holders.lookup holder = some i
  /-- What somebody gives to a worker comes back cancelled exactly if the worker has been stopped;
  otherwise it waits for its time. -/
  schedules : ∀ (holder label : String) (delay : Duration) (i : Nat),
    p.holders.lookup holder = some i → ∃ (w : Worker) (k : Nat) (a : Assignment),
      p.workers[i]? = some w ∧
      (p.step (.schedule holder label delay)).assignment? label = some (k, a) ∧ a.worker = i ∧
      a.cancelled = w.stopped ∧ a.due = if w.stopped then none else some (p.now + delay.nanos)
  /-- Nothing is cancelled but by who cancels it, and nothing is started but by the machine, at a
  moment at which it may. -/
  passes : ∀ (e : Event) (k : Nat) (a : Assignment), p.assignments[k]? = some a →
    ∃ b, (p.step e).assignments[k]? = some b ∧ p.Passes e k a b
  /-- What the machine may start is neither cancelled nor given to a worker that has been shut down,
  unless it is the shared one, or that nobody holds. -/
  starts : ∀ (e : Event) (k : Nat) (a : Assignment), p.assignments[k]? = some a → p.Starts e k a →
    ¬Occurred (fun p e ↦ p.Cancels e k) events ∧ p.isHeld a.worker = true ∧
      ∃ w : Worker, p.workers[a.worker]? = some w ∧ w.stopped = false ∧
        (w.isProcessWide = true ∨ ¬Occurred (fun p e ↦ p.Shuts e a.worker) events)
  /-- What the machine may start it does start. -/
  begins : ∀ (k : Nat) (a : Assignment), p.assignments[k]? = some a → p.Starts (.start k) k a →
    ∃ b, (p.step (.start k)).assignments[k]? = some b ∧ b.runs = a.runs + 1
  /-- What was not there before has not been run. -/
  added : ∀ (e : Event) (k : Nat) (b : Assignment), (p.step e).assignments[k]? = some b →
    p.assignments.length ≤ k → b.runs = 0

/-- The shared worker outlives being shut down; a worker that was shut down gives back what comes
late, and one that borrowed its runtime leaves it running. -/
example :
    let p := fresh.run [.share "s" .outside true, .hire "a" "jobs" .dedicated .outside true,
      .hire "b" "guest" (.borrowed 0) .outside true, .schedule "a" "once" .zero, .start 0,
      .shutdown "s" .inside, .shutdown "a" .inside, .schedule "a" "late" .zero, .start 1,
      .letGo "b" .outside]
    p.workers.map (fun w ↦ (w.ownsRuntime, w.stopped)) =
        [(true, false), (false, true), (false, true)] ∧
      p.halts = [⟨.started 1, .inside, false⟩] ∧
      p.assignments.map Assignment.runs = [1, 0] ∧
      p.isCancelled "late" = some true := by
  decide +kernel

end Caching.Pool
