import Caching.Cache.Factory
import Caching.Proofs.Agenda.Drain
import Caching.Proofs.Engine.Course
import Caching.Proofs.Timed.Timekeeping

/-!
# Punctuality

As long as time passes on its agenda only, a cache with expiry keeps time: over every history each
entry is taken out exactly at its deadline, and once an advance has come to its end, no deadline is
left behind. Operations may be performed by anybody in between, by a listener in the middle of an
operation, or by errands while time passes.
-/

namespace Caching.Timed

variable {K V : Type} [DecidableEq K]

namespace KeepsTime

variable {x : Expiry} {now : Instant} {w w' : Running (Timed K V) K V} {key : K}

/-- The listener and the records of its calls have no part in it, and neither has the phase. -/
theorem records (h : KeepsTime x nobody now w) (phase : Phase) (dispatching : Nat)
    (listener : Option (Listener K V)) (heard : List (Heard K V)) (log : List LogEntry) :
    KeepsTime x nobody now { w with phase, dispatching, listener, heard, log } :=
  ⟨h.supplied, h.dated, h.orderly, h.matched⟩

private theorem close (h : KeepsTime x nobody now w) : KeepsTime x nobody now w.close := by
  unfold Running.close
  split
  · exact h
  · have hend := (h.records .closed w.dispatching w.listener w.heard w.log).teardown
    exact hend.records _ _ _ _ _

/-- Letting go of the cache keeps time. -/
theorem release (h : KeepsTime x nobody now w) : KeepsTime x nobody now w.release := by
  unfold Running.release
  split
  · exact h
  · exact (h.records .closed w.dispatching w.listener w.heard w.log).teardown

section

variable [DecidableEq V]

/-- An operation keeps time if every call in it does. -/
theorem performWith (h : KeepsTime x nobody now w) {report : Report (Timed K V) K V}
    (hreport : ∀ removal w, KeepsTime x nobody now w → KeepsTime x nobody now (report removal w))
    (operation : Operation K V) :
    KeepsTime x nobody now (Running.performWith report operation w).2 := by
  have hcarry (instant : Instant) (hreading : Engine.reading w = .ok instant) (key : K)
      (deed : Deed V) (w' : Running (Timed K V) K V) (h' : KeepsTime x nobody now w') :
      KeepsTime x nobody now (Running.settle report (LawfulEngine.carry instant key deed w')) := by
    obtain rfl : now = instant := Except.ok.inj (h.reading.symm.trans hreading)
    exact Running.tell_kept hreport _ (h'.carryOut key deed)
  exact Running.performWith_kept hcarry (fun _ h' ↦ h') close h operation

/-- A call of the listener keeps time, whatever the listener does. -/
theorem reportAt (h : KeepsTime x nobody now w) (bound : Nat) (removal : Removal K V) :
    KeepsTime x nobody now (Running.reportAt bound removal w) := by
  refine Running.reportAt_kept ?_ ?_ bound removal h
  · intro report hreport operation w h
    exact h.performWith hreport operation
  · intro w dispatching listener heard log h
    exact h.records w.phase dispatching listener heard log

/-- An operation keeps time. -/
theorem perform (h : KeepsTime x nobody now w) (operation : Operation K V) :
    KeepsTime x nobody now (w.perform operation).2 :=
  h.performWith (fun removal _ h ↦ h.reportAt w.depth removal) operation

/-- A script of operations keeps time. -/
theorem follow {α : Type} (h : KeepsTime x nobody now w)
    (script : Script (Operation K V) (Reply V) α) :
    KeepsTime x nobody now (w.follow script).2 :=
  Script.run_invariant (fun operation _ h ↦ h.perform operation) script h

private theorem lapse (h : KeepsTime x (· = key) now w) {slot : Slot V}
    (hfind : w.store.find? key = some slot) (bound : Nat) :
    KeepsTime x nobody now (Engine.lapse (Running.reportAt bound) key slot.stamp w) := by
  rw [LawfulEngine.lapse_eq]
  exact Running.tell_kept (fun removal _ h ↦ h.reportAt bound removal) _ (h.comeDue hfind)

end

section

variable {a : Agenda (Duty K V)} {target : Option Instant} {live : Bool} {e : Entry (Duty K V)}

private theorem take (h : KeepsTime x nobody now w)
    (htake : w.agenda.take? target = some (live, e, a)) :
    ∃ later, (later = now ∨ later = e.due) ∧ Dated x later w.store ∧ a.IsOrderly later := by
  obtain ⟨horderly, hfirst⟩ := h.orderly.take htake
  by_cases hle : now ≤ e.due
  · rw [if_pos hle] at horderly
    refine ⟨e.due, .inr rfl, h.dated.later hle ?_, horderly⟩
    intro key slot deadline hfind hdeadline
    -- The duty of the slot waits as well, so the first entry is due no later than that.
    obtain ⟨duty, hduty, hdue⟩ := h.matched.armed key slot deadline hfind hdeadline not_false
    have hbefore := hfirst duty (Agenda.mem_duties.mp hduty).1
    rw [Instant.le_iff] at *
    omega
  · rw [if_neg hle] at horderly
    exact ⟨now, .inl rfl, h.dated, horderly⟩

/-- Taking an entry that is nobody's duty keeps time. -/
theorem takeOther (h : KeepsTime x nobody now w)
    (htake : w.agenda.take? target = some (live, e, a))
    (hother : w.agenda.isCancelled e.handle = true ∨ ∀ key stamp, e.job.body ≠ .lapse key stamp) :
    ∃ later, (later = now ∨ later = e.due) ∧ KeepsTime x nobody later (withAgenda w a) := by
  obtain ⟨_, hqueue, _, _, journal, ha⟩ := Agenda.take?_eq_some htake
  obtain ⟨later, hlater, hdated, horderly⟩ := h.take htake
  refine ⟨later, hlater, h.supplied, hdated, horderly, ?_⟩
  apply h.matched.takeOther hqueue ?_ ?_ hother
  · rw [ha]
  · rw [ha]

/-- Taking a duty leaves that of its slot open. -/
theorem takeDuty (h : KeepsTime x nobody now w)
    (htake : w.agenda.take? target = some (true, e, a)) {stamp : Nat}
    (hbody : e.job.body = .lapse key stamp) :
    e.job = .once (.lapse key stamp) ∧ ∃ later slot, (later = now ∨ later = e.due) ∧
      KeepsTime x (· = key) later (withAgenda w a) ∧ w.store.find? key = some slot ∧
      slot.stamp = stamp := by
  obtain ⟨_, hqueue, _, hlive, journal, ha⟩ := Agenda.take?_eq_some htake
  have hnot : w.agenda.isCancelled e.handle = false := by
    rw [eq_comm, Bool.not_eq_true'] at hlive
    exact hlive
  have hcancels : a.cancelled = w.agenda.cancelled := by rw [ha]
  have hnext : a.nextHandle = w.agenda.nextHandle := by rw [ha]
  obtain ⟨later, hlater, hdated, horderly⟩ := h.take htake
  obtain ⟨hmatched, hjob, slot, hfind, hstamp⟩ :=
    h.matched.takeDuty hqueue hcancels hnext hbody hnot
  exact ⟨hjob, later, slot, hlater, ⟨h.supplied, hdated, horderly, hmatched⟩, hfind, hstamp⟩

private theorem booked (h : KeepsTime x nobody now w) (due : Option Instant) {job : Job (Duty K V)}
    (hother : ∀ key stamp, job.body ≠ .lapse key stamp) :
    KeepsTime x nobody now (withAgenda w (w.agenda.booked due job)) := by
  refine ⟨h.supplied, h.dated, h.orderly.booked due job, ?_⟩
  cases due with
  | none => exact h.matched.congr (Nat.le_succ _) fun _ _ ↦ List.Perm.refl _
  | some due =>
    apply h.matched.congr (Nat.le_succ _)
    intro key stamp
    have hnot : ∀ e : Entry (Duty K V), e.job = job → e.isDutyOf key stamp = false := by
      intro e he
      rw [Bool.eq_false_iff, ne_eq, Entry.isDutyOf_iff, he]
      exact hother key stamp
    have hperm := Agenda.duties_insert (a := w.agenda)
      (b := w.agenda.booked (some due) job) rfl rfl key stamp
    rw [hnot _ rfl] at hperm
    exact hperm

/-- Others may submit jobs to the agenda. -/
theorem submit (h : KeepsTime x nobody now w) {delay : Duration} {job : Job (Duty K V)}
    {handle : Handle} (hsubmit : w.agenda.submit delay job = .ok (handle, a))
    (hother : ∀ key stamp, job.body ≠ .lapse key stamp) :
    KeepsTime x nobody now (withAgenda w a) := by
  rw [Agenda.submit_eq h.orderly.clock h.orderly.running, Except.ok.injEq, Prod.mk.injEq]
    at hsubmit
  rw [← hsubmit.2]
  exact h.booked _ hother

/-- Chains of others may go on. -/
theorem arm (h : KeepsTime x nobody now w) {chain : Handle} {period : Duration} {run : Nat}
    {body : Duty K V} (harm : w.agenda.arm chain period run body = .ok a)
    (hother : ∀ key stamp, body ≠ .lapse key stamp) : KeepsTime x nobody now (withAgenda w a) := by
  rcases Agenda.arm_cases harm with rfl | ⟨handle, hsubmit⟩
  · exact h
  · exact h.submit hsubmit hother

end

section

variable [DecidableEq V]

private theorem attend (h : KeepsTime x nobody now w) {duty : Duty K V}
    (hother : ∀ key stamp, duty ≠ .lapse key stamp) {run : Nat} {again : Bool}
    (hattend : Running.attend duty run w = some (again, w')) : KeepsTime x nobody now w' := by
  cases duty with
  | lapse key stamp => exact absurd rfl (hother key stamp)
  | upkeep =>
    rw [Running.attend_upkeep hattend]
    exact h
  | errand script =>
    cases hattend
    exact h.follow script

private theorem performJob (h : KeepsTime x nobody now w) {target : Option Instant}
    {e : Entry (Duty K V)} {a : Agenda (Duty K V)}
    (htake : w.agenda.take? target = some (true, e, a)) {r : Except Abort Unit}
    (hperform : e.job.perform Running.attend (withAgenda w a) = some (r, w')) :
    ∃ later, (later = now ∨ later = e.due) ∧ KeepsTime x nobody later w' := by
  -- A duty has left its slot open, and closes it again. Any other job leaves the slots to
  -- operations.
  by_cases hduty : ∃ key stamp, e.job.body = .lapse key stamp
  · obtain ⟨key, stamp, hbody⟩ := hduty
    obtain ⟨hjob, later, slot, hlater, hopen, hfind, hstamp⟩ := h.takeDuty htake hbody
    rw [hjob] at hperform
    cases hperform
    rw [← hstamp]
    exact ⟨later, hlater, hopen.lapse hfind _⟩
  · have hother (key : K) (stamp : Nat) : e.job.body ≠ .lapse key stamp :=
      fun hbody ↦ hduty ⟨key, stamp, hbody⟩
    obtain ⟨later, hlater, htaken⟩ := h.takeOther htake (.inr hother)
    have honce (body : Duty K V) (again : Bool) (s s' : Running (Timed K V) K V)
        (hjob : e.job = .once body) (hs : KeepsTime x nobody later s)
        (hattend : Running.attend body 1 s = some (again, s')) : KeepsTime x nobody later s' := by
      rw [hjob] at hother
      exact hs.attend hother hattend
    refine ⟨later, hlater, e.job.perform_kept honce ?_ (fun _ hs ↦ hs) htaken hperform⟩
    intro chain period run body again s s' hjob hs hattend
    rw [hjob] at hother
    have hs' := hs.attend hother hattend
    exact ⟨hs', fun _ harm ↦ hs'.arm harm hother⟩

omit [DecidableEq V] in
private theorem lt_of_take?_eq_none (h : KeepsTime x nobody now w)
    {target : Option Instant} (hnone : w.agenda.take? target = none) {slot : Slot V}
    {deadline : Instant} (hfind : w.store.find? key = some slot)
    (hdeadline : slot.deadline = some deadline) :
    ∃ instant, target = some instant ∧ instant < deadline := by
  obtain ⟨e, he, hdue⟩ := h.matched.armed key slot deadline hfind hdeadline not_false
  obtain ⟨instant, htarget, hlt⟩ := Agenda.within_of_take?_eq_none h.orderly.running
    h.orderly.ordered hnone (Agenda.mem_duties.mp he).1
  refine ⟨instant, htarget, ?_⟩
  rw [Instant.le_iff] at hdue
  rw [Instant.lt_iff] at *
  omega

/-- Doing everything that is due within a target keeps time, and does not pass the target. -/
theorem drain (h : KeepsTime x nobody now w) {target : Option Instant}
    (hnow : ∀ instant, target = some instant → now ≤ instant) {fuel : Nat}
    {r : Except Abort Nat} (hdrain : drain Running.attend target fuel w = some (r, w')) :
    (∃ later, (∀ instant, target = some instant → later ≤ instant) ∧
        KeepsTime x nobody later w') ∧
      ∀ count, r = .ok count → w'.agenda.take? target = none := by
  have hskip (now : Instant) (w : Running (Timed K V) K V) (e : Entry (Duty K V))
      (a : Agenda (Duty K V)) (h : KeepsTime x nobody now w)
      (htake : w.agenda.take? target = some (false, e, a)) :
      ∃ later, (later = now ∨ later = e.due) ∧ KeepsTime x nobody later (withAgenda w a) := by
    obtain ⟨_, _, _, hlive, _⟩ := Agenda.take?_eq_some htake
    have hcancelled : w.agenda.isCancelled e.handle = true := by
      rw [eq_comm, Bool.not_eq_false'] at hlive
      exact hlive
    exact h.takeOther htake (.inl hcancelled)
  have hstart (now : Instant) (w : Running (Timed K V) K V) (e : Entry (Duty K V))
      (a : Agenda (Duty K V)) (r : Except Abort Unit) (w' : Running (Timed K V) K V)
      (h : KeepsTime x nobody now w) (htake : w.agenda.take? target = some (true, e, a))
      (hperform : e.job.perform Running.attend (withAgenda w a) = some (r, w')) :
      ∃ later, (later = now ∨ later = e.due) ∧ KeepsTime x nobody later w' :=
    h.performJob htake hperform
  exact drain_kept_within hskip hstart h hnow hdrain

omit [DecidableEq V] in
private theorem advanceTo (h : KeepsTime x nobody now w) {instant : Instant} (hle : now ≤ instant)
    (hdeadlines : ∀ key slot deadline, w.store.find? key = some slot →
      slot.deadline = some deadline → instant ≤ deadline) :
    KeepsTime x nobody instant
      (withAgenda w { w.agenda with clock := w.agenda.clock.advanceTo instant }) := by
  have hclock := Clock.now_advanceTo h.orderly.clock instant
  rw [if_pos hle] at hclock
  exact ⟨h.supplied, h.dated.later hle hdeadlines,
    ⟨h.orderly.running, hclock, h.orderly.ordered, h.orderly.cancelled_lt⟩,
    h.matched.congr (Nat.le_refl _) fun _ _ ↦ List.Perm.refl _⟩

/-- Letting time pass keeps time. Once it has passed, every deadline lies ahead. -/
theorem advance (h : KeepsTime x nobody now w) {fuel : Nat} {d : Duration}
    {r : Except Abort Nat} (hadvance : w.advance fuel d = some (r, w')) :
    ∃ later, KeepsTime x nobody later w' ∧ ∀ count, r = .ok count →
      ∀ key slot deadline, w'.store.find? key = some slot → slot.deadline = some deadline →
        later < deadline := by
  rcases advance_cases hadvance with ⟨abort, habort, _⟩ | ⟨start, w₁, hstart, hdrain, hend⟩
  · rw [show (agenda w).clock.now = .ok now from h.orderly.clock] at habort
    cases habort
  · obtain rfl : now = start := Except.ok.inj (h.orderly.clock.symm.trans hstart)
    have hle (instant : Instant) (htarget : now.add? d = some instant) : now ≤ instant := by
      have hsum := Instant.add?_eq_some_iff.mp htarget
      rw [Instant.le_iff]
      omega
    obtain ⟨⟨between, hbefore, hbetween⟩, hdone⟩ := h.drain hle hdrain
    rcases hend with ⟨_, rfl, rfl⟩ | ⟨htarget, rfl⟩ | ⟨instant, count, hcount, htarget, rfl⟩
    · exact ⟨between, hbetween, nofun⟩
    · refine ⟨between, hbetween, ?_⟩
      intro count hcount key slot deadline hfind hdeadline
      obtain ⟨instant, hsome, _⟩ :=
        hbetween.lt_of_take?_eq_none (hdone count hcount) hfind hdeadline
      rw [htarget] at hsome
      cases hsome
    · have hahead (key : K) (slot : Slot V) (deadline : Instant)
          (hfind : w₁.store.find? key = some slot) (hdeadline : slot.deadline = some deadline) :
          instant < deadline := by
        obtain ⟨instant', hsome, hlt⟩ :=
          hbetween.lt_of_take?_eq_none (hdone count hcount) hfind hdeadline
        rw [htarget, Option.some.injEq] at hsome
        rw [hsome]
        exact hlt
      refine ⟨instant, hbetween.advanceTo (hbefore instant htarget) ?_, fun _ _ ↦ hahead⟩
      intro key slot deadline hfind hdeadline
      exact Int.le_of_lt (hahead key slot deadline hfind hdeadline)

end

end KeepsTime

/-- A change tells of one removal at most, and if that is because the entry has expired, then just
when the clock shows its deadline. -/
def Prompt (w : Running (Timed K V) K V) (removals : List (Removal K V))
    (w₁ : Running (Timed K V) K V) : Prop :=
  removals.length ≤ 1 ∧ ∀ removal ∈ removals, removal.cause = .expired →
    ∃ slot deadline, w.store.find? removal.key = some slot ∧ slot.value = removal.value ∧
      slot.deadline = some deadline ∧ w₁.agenda.clock.now = .ok deadline

/-- A change that the engine makes at an instant, and that is prompt. -/
def Punctual (now : Instant) (w : Running (Timed K V) K V) (stored : List (K × V))
    (removals : List (Removal K V)) (w₁ : Running (Timed K V) K V) : Prop :=
  Running.Dealt now w stored removals w₁ ∧ Prompt w removals w₁

section

variable {x : Expiry} {now : Instant} {w w₁ : Running (Timed K V) K V} {key : K}

/-- A change that tells of nothing is prompt. -/
theorem prompt_nil (w w₁ : Running (Timed K V) K V) : Prompt w [] w₁ := by
  refine ⟨Nat.zero_le 1, ?_⟩
  intro removal hmem
  cases hmem

private theorem KeepsTime.prompt_removal (h : KeepsTime x nobody now w) {slot : Slot V}
    (hfind : w.store.find? key = some slot) {cause : RemovalCause} (hcause : cause ≠ .expired)
    (hclock : w₁.agenda.clock.now = .ok now) :
    Prompt w [removal now key cause slot] w₁ := by
  refine ⟨Nat.le_refl 1, ?_⟩
  intro told hmem hexpired
  rw [List.mem_singleton] at hmem
  rw [hmem] at hexpired ⊢
  cases hlapsed : slot.isLapsed now with
  | false =>
    simp only [removal, hlapsed, Bool.false_eq_true, if_false] at hexpired
    exact absurd hexpired hcause
  | true => exact ⟨slot, now, hfind, rfl, h.deadline_of_isLapsed hfind hlapsed, hclock⟩

/-- A deed is prompt. -/
theorem KeepsTime.prompt_carryOut (h : KeepsTime x nobody now w) (key : K) (deed : Deed V) :
    Prompt w (Timed.carryOut now key deed w).1 (Timed.carryOut now key deed w).2 := by
  have hclock := (h.carryOut key deed).orderly.clock
  have htake (hafter : (Timed.takeOut now key w).2.agenda.clock.now = .ok now) :
      Prompt w (Timed.takeOut now key w).1 (Timed.takeOut now key w).2 := by
    unfold Timed.takeOut at hafter ⊢
    cases hfind : w.store.find? key with
    | none => exact prompt_nil w _
    | some slot =>
      rw [hfind] at hafter
      exact h.prompt_removal hfind (by decide) hafter
  revert hclock
  unfold Timed.carryOut
  split <;> intro hclock
  · exact prompt_nil w _
  · exact prompt_nil w _
  · exact prompt_nil w _
  · exact prompt_nil w _
  · exact htake hclock
  · exact htake hclock
  · exact htake hclock
  · unfold Timed.writeOver at hclock ⊢
    cases hfind : w.store.find? key with
    | none => exact prompt_nil w _
    | some slot =>
      rw [hfind] at hclock
      exact h.prompt_removal hfind (by decide) hclock

/-- The duty of an entry is prompt. -/
theorem KeepsTime.prompt_comeDue (h : KeepsTime x (· = key) now w) {slot : Slot V}
    (hfind : w.store.find? key = some slot) :
    Prompt w (Timed.comeDue key slot.stamp w).1 (Timed.comeDue key slot.stamp w).2 := by
  rw [Timed.comeDue, h.orderly.clock, hfind]
  simp only [if_true]
  cases hd : slot.deadline with
  | none => exact prompt_nil w _
  | some deadline =>
    dsimp only
    by_cases hle : deadline ≤ now
    · have hlapsed : slot.isLapsed now = true := by
        simp only [Slot.isLapsed, hd, hle, decide_true]
      rw [if_pos hle]
      refine ⟨Nat.le_refl 1, ?_⟩
      intro told hmem _
      rw [List.mem_singleton] at hmem
      rw [hmem]
      exact ⟨slot, now, hfind, rfl, h.deadline_of_isLapsed hfind hlapsed, h.orderly.clock⟩
    · rw [if_neg hle]
      exact prompt_nil w _

end

end Caching.Timed
