import Caching.Proofs.Desk.Accounts
import Caching.Proofs.Desk.Handles
import Caching.Proofs.Desk.Timing
import Mathlib.Algebra.Order.Group.Multiset

/-!
# Time without end

Any length of time may be asked for. What would be due beyond the last instant is forgotten, and
time that would pass beyond it runs whatever waits and leaves the clock where the last entry has
moved it. So a clock that can be read can be read for ever, as long as it is not moved by hand.
-/

namespace Caching

variable {L : Type}

/-- The accounts of what has happened since: everything that waited by then or was submitted later
has had its turn, was dropped or still waits. -/
theorem Agenda.Records.accounts_since {B : Type} {start : Instant}
    {before history : List (Occurrence B)} {a b : Agenda B} (h : a.Records start before)
    (h' : b.Records start (before ++ history)) :
    (history.flatMap Occurrence.turns ++ history.flatMap Occurrence.discards ++ b.queue).Perm
      (a.queue ++ history.flatMap Occurrence.submissions) := by
  have hbefore := Multiset.coe_eq_coe.mpr h.accounts
  have hafter := Multiset.coe_eq_coe.mpr h'.accounts
  apply Multiset.coe_eq_coe.mp
  simp only [List.flatMap_append, ← Multiset.coe_add] at hbefore hafter ⊢
  rw [← hbefore, add_add_add_comm, add_assoc, add_assoc _ (Multiset.ofList a.queue)] at hafter
  exact add_left_cancel hafter

/-- As long as an agenda is running, nothing has been dropped. -/
theorem Agenda.Records.discards_eq_nil {B : Type} {start : Instant}
    {before history : List (Occurrence B)} {a : Agenda B} (h : a.Records start (before ++ history))
    (hrunning : a.stopped = false) : history.flatMap Occurrence.discards = [] := by
  refine List.flatMap_eq_nil_iff.mpr fun x hx ↦ ?_
  cases x with
  | stopped discarded elapsed =>
    have hstopped := h.stopped.mpr ⟨discarded, elapsed, List.mem_append_right _ hx⟩
    rw [hrunning] at hstopped
    cases hstopped
  | _ => rfl

/-- What was skipped had been cancelled before. -/
theorem Agenda.Records.cancelled_of_skipped {B : Type} {start : Instant}
    {before earlier later : List (Occurrence B)} {a b : Agenda B} {e : Entry B} {elapsed : Duration}
    (h : a.Records start before)
    (h' : b.Records start (before ++ (earlier ++ .skipped e elapsed :: later))) :
    a.isCancelled e.handle = true ∨ .cancelled e.handle ∈ earlier := by
  rw [← List.append_assoc] at h'
  obtain ⟨-, -, -, hcancelled⟩ := h'.timely _ _ _ rfl
  rcases List.mem_append.mp hcancelled with hold | hnew
  · exact .inl (List.contains_iff_mem.mpr ((h.cancelled e.handle).mp hold))
  · exact .inr hnew

namespace Desk

variable [DecidableEq L] {reach : Instant → Prop} {d d' : Desk L} {fuel : Nat}

section

variable {start : Instant} {before more : List (Occurrence (Commission L))}
  {history noted : List (Incident L)} {a : Agenda (Commission L)}

omit [DecidableEq L] in
private theorem filterMap_occurrence?_map (occurrences : List (Occurrence (Commission L))) :
    (occurrences.map Incident.occurred).filterMap Incident.occurrence? = occurrences := by
  rw [List.filterMap_map]
  exact List.filterMap_some

omit [DecidableEq L] in
private theorem filterMap_occurrence?_notice (job : Job (Commission L))
    (a : Agenda (Commission L)) : (job.notice a).filterMap Incident.occurrence? = [] := by
  refine List.filterMap_eq_nil_iff.mpr fun x hx ↦ ?_
  obtain ⟨chain, period, run, c, -, -, rfl⟩ := Job.eq_ran_of_mem_notice hx
  rfl

omit [DecidableEq L] in
private theorem records_append (hmore : noted.filterMap Incident.occurrence? = more)
    (h : a.Records start (before ++ history.filterMap Incident.occurrence? ++ more)) :
    a.Records start (before ++ (history ++ noted).filterMap Incident.occurrence?) := by
  rw [List.filterMap_append, hmore, ← List.append_assoc]
  exact h

end

private theorem keeps_records (start : Instant) (before : List (Occurrence (Commission L))) :
    Keeps reach fun history (d : Desk L) ↦
      d.agenda.Records start (before ++ history.filterMap Incident.occurrence?) where
  note _ h := h
  submit h hsubmit := records_append (filterMap_occurrence?_map _) (h.submit hsubmit)
  begin h harm := records_append (filterMap_occurrence?_map _) (h.freshHandle.arm harm)
  cancel {_ _ _ handle} h _ := records_append rfl (h.cancel handle)
  stop h := records_append rfl h.shutdown
  skip h htake _ := records_append rfl (h.take htake)
  start {fuel history d target e a r d'} hinside h htake _ hperform := by
    have hnoted : (.occurred (.started e a.clock.elapsed) :: e.job.notice a).filterMap
        Incident.occurrence? = [.started e a.clock.elapsed] :=
      congrArg (_ :: ·) (filterMap_occurrence?_notice e.job a)
    refine perform_told _ (d := withAgenda d a) hinside ?_ (records_append hnoted (h.take htake))
      hperform
    intro history chain period run c d₁ _ _ h₁
    cases harm : d₁.agenda.arm chain period (run + 1) c with
    | error abort => exact records_append rfl h₁.broken
    | ok b => exact records_append (filterMap_occurrence?_map _) (h₁.arm harm)
  moving h := records_append rfl ((List.append_nil _).symm ▸ h)
  shift _ h hstart hshown := by
    refine h.setClock hstart ?_
    simp only [Clock.shown, hstart] at hshown
    omega
  fail h _ := records_append rfl ((List.append_nil _).symm ▸ h)

/-- As long as the clock is not moved by hand, an action leaves a clock that can be read as such,
and is not aborted. -/
theorem survives_step {now : Instant} (hnow : d.agenda.clock.now = .ok now) {action : Action L}
    (hhand : ∀ t, action ≠ .moveClock t) {response : Response}
    (hstep : d.step fuel action = some (response, d'))
    (hstill : .moved ∉ actIncidents (attend fuel) (attendIncidents fuel) fuel action d) :
    (∃ later, d'.agenda.clock.now = .ok later) ∧
      ∀ abort, response ≠ .aborted abort ∧
        .aborted abort ∉ actIncidents (attend fuel) (attendIncidents fuel) fuel action d := by
  have hshown := Clock.now_eq_ok_iff_shown.mp hnow
  have hbound : d.agenda.clock.shown < instantBound := hshown ▸ now.nanos_lt
  have hk : Keeps (fun _ ↦ True) _ := keeps_farthest (L := L) hbound
  have hstart : Incident.moved ∈ ([] : List (Incident L)) ∨
      d.agenda.clock.shown = farthest (L := L) d.agenda.clock.shown [] ∧
        ∀ abort, .aborted abort ∉ ([] : List (Incident L)) :=
    .inr ⟨rfl, fun _ ↦ List.not_mem_nil⟩
  have hread {d₁ : Desk L} {history : List (Incident L)}
      (h : d₁.agenda.clock.shown = farthest d.agenda.clock.shown history) :
      ∃ later, d₁.agenda.clock.now = .ok later :=
    Clock.exists_now (h ▸ farthest_lt hbound history)
  have hunread {d₁ : Desk L} {abort : Abort} (h : ∃ later, d₁.agenda.clock.now = .ok later) :
      d₁.agenda.clock.now ≠ .error abort := by
    obtain ⟨later, hlater⟩ := h
    rw [hlater]
    exact nofun
  by_cases hmoves : action.moves = true
  · cases action with
    | advance t =>
      obtain ⟨d₁, htold, -, hend⟩ := hk.step_advance [] hstart (fun _ _ _ _ ↦ .inl trivial) hstep
      obtain ⟨hafter, hunaborted⟩ := htold.resolve_left hstill
      have hafter := hread hafter
      rcases hend with ⟨abort, -, herror, rfl⟩ | ⟨_, count, -, rfl, -, hclock⟩
      · exact absurd herror (hunread hafter)
      · refine ⟨?_, fun abort ↦ ⟨nofun, hunaborted abort⟩⟩
        rcases hclock with ⟨-, rfl⟩ | ⟨instant, -, rfl⟩
        · exact hafter
        · obtain ⟨later, hlater⟩ := hafter
          exact ⟨_, Clock.now_advanceTo hlater instant⟩
    | moveClock t => exact absurd rfl (hhand t)
    | _ => cases hmoves
  · obtain ⟨htold, habort⟩ := hk.step (Bool.not_eq_true _ ▸ hmoves) hstart hstep
    obtain ⟨hafter, hunaborted⟩ := htold.resolve_left hstill
    refine ⟨hread hafter, fun abort ↦ ⟨fun hr ↦ ?_, hunaborted abort⟩⟩
    obtain ⟨other, herror⟩ := habort abort hr
    exact hunread (hread hafter) herror

/-- So does a run of actions. -/
theorem survives {now : Instant} (hnow : d.agenda.clock.now = .ok now) {actions : List (Action L)}
    (hhand : ∀ t, .moveClock t ∉ actions) {responses : List Response}
    (hplay : play fuel actions d = some (responses, d'))
    (hstill : .moved ∉ incidents fuel actions d) :
    (∃ later, d'.agenda.clock.now = .ok later ∧ now ≤ later) ∧
      ∀ abort, .aborted abort ∉ responses ∧ .aborted abort ∉ incidents fuel actions d := by
  induction actions generalizing d now responses with
  | nil =>
    cases hplay
    exact ⟨⟨now, hnow, Int.le_refl _⟩, fun _ ↦ ⟨List.not_mem_nil, List.not_mem_nil⟩⟩
  | cons action rest ih =>
    obtain ⟨response, d₁, later, hstep, hrest, rfl⟩ := play_cons_eq_some_iff.mp hplay
    rw [incidents_cons hstep] at hstill ⊢
    simp only [List.mem_append, List.mem_cons, not_or] at hstill hhand ⊢
    obtain ⟨⟨middle, hmiddle⟩, hacted⟩ :=
      survives_step hnow (fun t heq ↦ (hhand t).1 heq.symm) hstep hstill.1
    obtain ⟨⟨last, hlast, hle⟩, hrested⟩ := ih hmiddle (fun t ↦ (hhand t).2) hrest hstill.2
    have honward := (act_onward (fun _ _ _ _ _ hattend ↦ attend_onward hattend) hstep).shown
    rw [Clock.now_eq_ok_iff_shown.mp hnow, Clock.now_eq_ok_iff_shown.mp hmiddle] at honward
    refine ⟨⟨last, hlast, Int.le_trans honward hle⟩, fun abort ↦ ⟨⟨?_, (hrested abort).1⟩, ?_⟩⟩
    · exact fun heq ↦ (hacted abort).1 heq.symm
    · exact ⟨(hacted abort).2, (hrested abort).2⟩

/-- A run never lets a handle have its turn that nothing waits for. -/
theorem Lacks.play {handle : Handle} (hgiven : handle.id < d.agenda.nextHandle)
    (hawaits : ¬ d.agenda.Awaits handle) {actions : List (Action L)} {responses : List Response}
    (hplay : Desk.play fuel actions d = some (responses, d')) :
    Lacks handle (incidents fuel actions d) d' :=
  (keeps_lacks handle : Keeps (fun _ ↦ True) _).play [] (fun _ ↦ trivial)
    (fun _ _ _ h _ _ ↦ ⟨h.given, h.awaits, h.history⟩)
    ⟨hgiven, hawaits, fun _ hx ↦ absurd hx List.not_mem_nil⟩ hplay

/-- Any delay may be asked for, as long as the clock can be read. -/
theorem step_schedule {now : Instant} (hnow : d.agenda.clock.now = .ok now) (h : d.Known)
    (fuel : Nat) (label : L) (delay : Duration) (body : Errand L) :
    ∃ d', d.step fuel (.schedule label delay body) = some (.cancelled d.agenda.stopped, d') ∧
      (now.add? delay = none → d' = { d with
        agenda := if d.agenda.stopped then d.agenda.freshHandle.2.cancel ⟨d.agenda.nextHandle⟩
          else d.agenda.freshHandle.2
        directory := (label, ⟨d.agenda.nextHandle⟩) :: d.directory }) := by
  cases hstopped : d.agenda.stopped with
  | true =>
    have hsubmit : d.agenda.submit delay (.once ⟨label, fun _ ↦ body⟩) =
        .ok (⟨d.agenda.nextHandle⟩, d.agenda.freshHandle.2.cancel ⟨d.agenda.nextHandle⟩) := by
      simp [Agenda.submit, hstopped, Agenda.freshHandle]
    refine ⟨_, ?_, fun _ ↦ rfl⟩
    simp [step, act, Agenda.schedule, hsubmit, register, Agenda.isCancelled_cancel]
  | false =>
    have hsubmit := Agenda.submit_eq hnow hstopped delay (.once ⟨label, fun _ ↦ body⟩)
    have hfresh (due : Option Instant) (job : Job (Commission L)) :
        (d.agenda.booked due job).isCancelled ⟨d.agenda.nextHandle⟩ = false := by
      obtain ⟨queue, nextSeq, hbooked⟩ := d.agenda.booked_eq due job
      rw [hbooked, Agenda.isCancelled, List.contains_eq_mem, decide_eq_false_iff_not]
      exact fun hmem ↦ Nat.lt_irrefl _ (h.cancelled _ hmem)
    refine ⟨{ d with
      agenda := d.agenda.booked (now.add? delay) (.once ⟨label, fun _ ↦ body⟩)
      directory := (label, ⟨d.agenda.nextHandle⟩) :: d.directory }, ?_, fun hdelay ↦ ?_⟩
    · simp only [step, act, Agenda.schedule, hsubmit, register, hfresh]
    · rw [hdelay]
      rfl

/-- An errand that was not kept is never started. -/
theorem Known.ne_of_started (h : d.Known) {label : L} (hforgotten : d' = { d with
      agenda := if d.agenda.stopped then d.agenda.freshHandle.2.cancel ⟨d.agenda.nextHandle⟩
        else d.agenda.freshHandle.2
      directory := (label, ⟨d.agenda.nextHandle⟩) :: d.directory })
    {actions : List (Action L)} {responses : List Response} {d'' : Desk L}
    (hplay : play fuel actions d' = some (responses, d'')) {e : Entry (Commission L)}
    {elapsed : Duration} (hmem : .occurred (.started e elapsed) ∈ incidents fuel actions d') :
    e.handle ≠ ⟨d.agenda.nextHandle⟩ := by
  have hqueue : d'.agenda.queue = d.agenda.queue ∧
      d'.agenda.nextHandle = d.agenda.nextHandle + 1 := by
    rw [hforgotten]
    split
    · obtain ⟨cancelled, hcancel, -⟩ := d.agenda.freshHandle.2.cancel_eq ⟨d.agenda.nextHandle⟩
      rw [hcancel]
      exact ⟨rfl, rfl⟩
    · exact ⟨rfl, rfl⟩
  have hgiven : d.agenda.nextHandle < d'.agenda.nextHandle := by
    rw [hqueue.2]
    exact Nat.lt_succ_self _
  have hawaits : ¬ d'.agenda.Awaits ⟨d.agenda.nextHandle⟩ := by
    rw [Agenda.Awaits, hqueue.1]
    exact fun hwaits ↦ Nat.lt_irrefl _ (h.awaits _ hwaits)
  exact fun heq ↦ (Lacks.play hgiven hawaits hplay).history _ hmem (.inl heq)

/-- What is noted of a single action. -/
theorem incidents_singleton {action : Action L} {response : Response}
    (hstep : d.step fuel action = some (response, d')) :
    incidents fuel [action] d =
      actIncidents (attend fuel) (attendIncidents fuel) fuel action d := by
  rw [incidents_cons hstep, incidents, List.append_nil]

section

variable {now : Instant} {span : Duration} {response : Response}
  (hnow : d.agenda.clock.now = .ok now)
  (hstep : d.step fuel (.advance span) = some (response, d'))
  (hstill : .moved ∉ actIncidents (attend fuel) (attendIncidents fuel) fuel (.advance span) d)

include hnow hstep hstill

/-- Time that ends in range moves the clock on to its end. -/
theorem advance_within {target : Instant} (htarget : now.add? span = some target) :
    (∃ count, response = .executed count) ∧ d'.agenda.clock.now = .ok target := by
  have hbefore : d.agenda.clock.shown ≤ target.nanos := by
    rw [Clock.now_eq_ok_iff_shown.mp hnow, Instant.add?_eq_some_iff.mp htarget]
    omega
  have hpass (now' : Instant) (hnow' : d.agenda.clock.now = .ok now') (due : Instant)
      (hdue : Agenda.within (now'.add? span) due = true) :
      due ≤ target ∨ due.nanos ≤ d.agenda.clock.shown := by
    obtain rfl := Except.ok.inj (hnow.symm.trans hnow')
    rw [htarget] at hdue
    exact .inl (of_decide_eq_true hdue)
  obtain ⟨d₁, htold, -, hend⟩ :=
    (keeps_within target).step_advance [] (.inr hbefore) hpass hstep
  have hreached := htold.resolve_left hstill
  rcases hend with ⟨abort, -, herror, rfl⟩ | ⟨now', count, hnow', rfl, -, hclock⟩
  · obtain ⟨later, hlater⟩ := Clock.exists_now (Int.lt_of_le_of_lt hreached target.nanos_lt)
    rw [hlater] at herror
    cases herror
  · obtain rfl := Except.ok.inj (hnow.symm.trans hnow')
    refine ⟨⟨count, rfl⟩, ?_⟩
    rcases hclock with ⟨hnone, -⟩ | ⟨instant, hinstant, rfl⟩
    · rw [htarget] at hnone
      cases hnone
    · obtain rfl := Option.some.inj (htarget.symm.trans hinstant)
      rw [Clock.now_eq_ok_iff_shown]
      exact (Clock.shown_advanceTo _ _).trans (Int.max_eq_right hreached)

/-- Time that does not end in range lets everything that waits have its turn, and the clock is where
the entries have moved it. -/
theorem advance_beyond {start : Instant} {before : List (Occurrence (Commission L))}
    (hrecords : d.agenda.Records start before) (hnone : now.add? span = none) :
    (∃ count, response = .executed count) ∧ d'.agenda.queue = [] ∧
      d'.agenda.Records start (before ++ (actIncidents (attend fuel) (attendIncidents fuel) fuel
        (.advance span) d).filterMap Incident.occurrence?) ∧
      ∃ last, d'.agenda.clock.now = .ok last ∧ last.nanos = farthest now.nanos
        (actIncidents (attend fuel) (attendIncidents fuel) fuel (.advance span) d) := by
  obtain ⟨⟨last, hlast⟩, hanswered⟩ := survives_step hnow (by simp) hstep hstill
  have hshown := Clock.now_eq_ok_iff_shown.mp hnow
  have hfarthest : Keeps (fun _ ↦ True) _ := keeps_farthest (L := L) now.nanos_lt
  obtain ⟨d₁, htold, -, hend⟩ := hfarthest.step_advance []
    (.inr ⟨hshown, fun _ ↦ List.not_mem_nil⟩) (fun _ _ _ _ ↦ .inl trivial) hstep
  have hkept : Keeps (fun _ ↦ True) _ := keeps_records (L := L) start before
  obtain ⟨d₂, hafter, -, hend'⟩ := hkept.step_advance []
    (by simpa using hrecords) (fun _ _ _ _ ↦ .inl trivial) hstep
  have hsame {d₁ : Desk L}
      (hend : (∃ abort, response = .aborted abort ∧ d'.agenda.clock.now = .error abort ∧ d' = d₁) ∨
        ∃ now count, d.agenda.clock.now = .ok now ∧ response = .executed count ∧
          d₁.agenda.take? (now.add? span) = none ∧
          ((now.add? span = none ∧ d' = d₁) ∨ ∃ instant, now.add? span = some instant ∧
            d' = withAgenda d₁ (d₁.agenda.readied instant))) :
      d' = d₁ ∧ (∃ count, response = .executed count) ∧ d'.agenda.take? none = none := by
    rcases hend with ⟨abort, hr, -, -⟩ | ⟨now', count, hnow', hr, hdone, hclock⟩
    · exact absurd hr (hanswered abort).1
    · obtain rfl := Except.ok.inj (hnow.symm.trans hnow')
      rcases hclock with ⟨-, rfl⟩ | ⟨instant, hsome, -⟩
      · exact ⟨rfl, ⟨count, hr⟩, hnone ▸ hdone⟩
      · rw [hnone] at hsome
        cases hsome
  obtain ⟨rfl, hexecuted, hdone⟩ := hsame hend
  obtain ⟨rfl, -, -⟩ := hsame hend'
  refine ⟨hexecuted, ?_, hafter, last, hlast, ?_⟩
  · rcases Agenda.take?_eq_none_iff.mp hdone with hstopped | hempty
    · exact hafter.emptied hstopped
    · cases hqueue : d'.agenda.queue with
      | nil => rfl
      | cons e rest => cases hempty e rest hqueue
  · rw [← Clock.now_eq_ok_iff_shown.mp hlast]
    exact (htold.resolve_left hstill).1

end

/-- From every state of a desk whose clock can be read, in all runs in which the clock is not moved
by hand or by an errand: the clock can be read for ever and no action is aborted, inside errands or
outside; any delay may be asked for, and an errand that would be due beyond the last instant gets a
handle, changes nothing else and is never started; time that ends in range ends there; and time that
does not end in range lets everything that waits or is submitted meanwhile have its turn, unless it
is dropped by a shutdown, skips only what was cancelled before, and leaves the clock at the latest
of its old reading and the due instants of the entries that have had their turns. -/
theorem endures_forever {fuel₀ : Nat} {clock : Clock} {before : List (Action L)}
    {answers : List Response} {now : Instant}
    (hbefore : play fuel₀ before (ofClock clock) = some (answers, d))
    (hnow : d.agenda.clock.now = .ok now) :
    (∀ fuel actions responses d', (∀ t, .moveClock t ∉ actions) →
      play fuel actions d = some (responses, d') → .moved ∉ incidents fuel actions d →
      (∃ later, d'.agenda.clock.now = .ok later ∧ now ≤ later) ∧
        ∀ abort, .aborted abort ∉ responses ∧ .aborted abort ∉ incidents fuel actions d) ∧
    (∀ fuel label delay body, ∃ d',
      d.step fuel (.schedule label delay body) = some (.cancelled d.agenda.stopped, d') ∧
      (now.add? delay = none →
        d' = { d with
          agenda := if d.agenda.stopped then d.agenda.freshHandle.2.cancel ⟨d.agenda.nextHandle⟩
            else d.agenda.freshHandle.2
          directory := (label, ⟨d.agenda.nextHandle⟩) :: d.directory } ∧
        ∀ fuel actions responses d'', play fuel actions d' = some (responses, d'') →
          ∀ e elapsed, .occurred (.started e elapsed) ∈ incidents fuel actions d' →
            e.handle ≠ ⟨d.agenda.nextHandle⟩)) ∧
    (∀ fuel span target response d', now.add? span = some target →
      d.step fuel (.advance span) = some (response, d') →
      .moved ∉ incidents fuel [.advance span] d →
      (∃ count, response = .executed count) ∧ d'.agenda.clock.now = .ok target) ∧
    (∀ fuel span response d', now.add? span = none →
      d.step fuel (.advance span) = some (response, d') →
      .moved ∉ incidents fuel [.advance span] d →
      let history := (incidents fuel [.advance span] d).filterMap Incident.occurrence?
      (∃ count, response = .executed count) ∧ d'.agenda.queue = [] ∧
        (history.flatMap Occurrence.turns ++ history.flatMap Occurrence.discards).Perm
          (d.agenda.queue ++ history.flatMap Occurrence.submissions) ∧
        (d'.agenda.stopped = false → history.flatMap Occurrence.discards = []) ∧
        (∀ earlier e elapsed later, history = earlier ++ .skipped e elapsed :: later →
          d.agenda.isCancelled e.handle = true ∨ .cancelled e.handle ∈ earlier) ∧
        ∃ last, d'.agenda.clock.now = .ok last ∧
          last.nanos = farthest now.nanos (incidents fuel [.advance span] d)) := by
  have hempty : Tracks clock.start [] 0 (ofClock clock : Desk L) := ⟨.ofClock clock, .inr rfl⟩
  have hrecords : d.agenda.Records clock.start (chronicle fuel₀ before (ofClock clock)) :=
    (hempty.play hbefore).records
  have hknown : d.Known := ((Orderly.ofClock clock).play hbefore).toKnown
  refine ⟨fun fuel actions responses d' hhand ↦ survives hnow hhand, ?_, ?_, ?_⟩
  · intro fuel label delay body
    obtain ⟨d', hstep, hforgotten⟩ := step_schedule hnow hknown fuel label delay body
    refine ⟨d', hstep, fun hdelay ↦ ⟨hforgotten hdelay, ?_⟩⟩
    intro fuel actions responses d'' hplay e elapsed hmem
    exact hknown.ne_of_started (hforgotten hdelay) hplay hmem
  · intro fuel span target response d' htarget hstep hstill
    rw [incidents_singleton hstep] at hstill
    exact advance_within hnow hstep hstill htarget
  · intro fuel span response d' hnone hstep hstill
    rw [incidents_singleton hstep] at hstill ⊢
    obtain ⟨hexecuted, hqueue, hafter, hlast⟩ :=
      advance_beyond hnow hstep hstill hrecords hnone
    have haccounts := hrecords.accounts_since hafter
    rw [hqueue, List.append_nil] at haccounts
    refine ⟨hexecuted, hqueue, haccounts, hafter.discards_eq_nil, ?_, hlast⟩
    intro earlier e elapsed later hsplit
    rw [hsplit] at hafter
    exact hrecords.cancelled_of_skipped hafter

/-- An errand submits another one that is due beyond the last instant and one that is due at the
last instant. Then more time passes than there is. -/
theorem endures_forever_beyond_last_instant :
    let longest : Duration := ⟨UInt64.size * nanosPerSecond - 1, by decide⟩
    let last : Instant := ⟨instantBound - 1, by decide, by decide⟩
    let idle : Errand Nat := .ofList false []
    let start : Desk Nat := ofClock (.ofStart ⟨0, by decide, by decide⟩)
    let submission : Action Nat := .schedule 1 ⟨10, by decide⟩
      (.ofList false [.schedule 2 longest idle,
        .schedule 3 ⟨(instantBound - 11).toNat, by decide⟩ idle])
    ∃ d d', play 9 [submission] start = some ([.cancelled false], d) ∧
      d.step 9 (.advance longest) = some (.executed 2, d') ∧ d'.agenda.queue = [] ∧
      d'.agenda.clock.now = .ok last := by
  intro longest last idle start submission
  have hends : (play 9 [submission] start).bind (fun r ↦ (r.2.step 9 (.advance longest)).map
      fun r' ↦ (r.1, r'.1, (incidents 9 [.advance longest] r.2).any Incident.isMoved,
        farthest 0 (incidents 9 [.advance longest] r.2))) =
      some ([.cancelled false], .executed 2, false, last.nanos) := by
    decide +kernel
  obtain ⟨⟨answers, d⟩, hplay, hends⟩ := Option.bind_eq_some_iff.mp hends
  obtain ⟨⟨response, d'⟩, hstep, hends⟩ := Option.map_eq_some_iff.mp hends
  simp only [Prod.mk.injEq] at hends
  obtain ⟨rfl, rfl, hmoved, hfarthest⟩ := hends
  have hnow : d.agenda.clock.now = .ok ⟨0, by decide, by decide⟩ := by
    have hreads : (play 9 [submission] start).map (fun r ↦ r.2.agenda.clock.now) =
        some (.ok ⟨0, by decide, by decide⟩) := by
      decide +kernel
    rw [hplay] at hreads
    exact Option.some.inj hreads
  have hstill : Incident.moved ∉ incidents 9 [.advance longest] d :=
    fun hmem ↦ Bool.false_ne_true (hmoved.symm.trans (List.any_eq_true.mpr ⟨_, hmem, rfl⟩))
  obtain ⟨-, hqueue, -, -, -, reading, hreading, hlast⟩ :=
    (endures_forever hplay hnow).2.2.2 9 longest _ d' (by decide +kernel) hstep hstill
  have heq : reading = last := Instant.ext (hlast.trans hfarthest)
  exact ⟨d, d', hplay, hstep, hqueue, heq ▸ hreading⟩

/-- On a desk that was shut down, an errand that would be due beyond the last instant gets a handle
that is cancelled already. -/
theorem schedule_beyond_after_shutdown :
    let longest : Duration := ⟨UInt64.size * nanosPerSecond - 1, by decide⟩
    let start : Desk Nat := ofClock (.ofStart ⟨0, by decide, by decide⟩)
    ¬ ∀ (before : List (Action Nat)) (answers : List Response) (d : Desk Nat) (now : Instant),
      play 1 before start = some (answers, d) → d.agenda.clock.now = .ok now →
      now.add? longest = none →
      ∃ d', d.step 1 (.schedule 1 longest (.done false)) = some (.cancelled false, d') := by
  intro longest start hlive
  obtain ⟨d', hstep⟩ := hlive [.shutdown] [.done] { start with agenda := start.agenda.shutdown }
    ⟨0, by decide, by decide⟩ rfl (by decide +kernel) (by decide +kernel)
  have hanswer : some (Response.cancelled true) = some (.cancelled false) :=
    congrArg (Option.map Prod.fst) hstep
  cases hanswer

end Desk

end Caching
