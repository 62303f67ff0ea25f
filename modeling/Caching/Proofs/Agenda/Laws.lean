import Caching.Agenda.Basic
import Caching.Proofs.Time.Counting

/-!
# Laws of agendas

What can be seen of an agenda after each thing that is done to it: where its clock stands, which
entries wait in which order, and which handles are cancelled. Nothing but the passing of time moves
the clock, and it never moves back.
-/

namespace Caching

/-- What a job does when its turn comes. -/
def Job.body {B : Type} : Job B → B
  | once body => body
  | link _ _ _ body => body

namespace Agenda

variable {B : Type}

/-- The entries stand in the order of their due instants. -/
def InOrder (queue : List (Entry B)) : Prop :=
  queue.Pairwise fun e later ↦ e.due ≤ later.due

/-- Up to its place, an entry that is inserted is put in front. -/
theorem insertEntry_perm (e : Entry B) (queue : List (Entry B)) :
    (insertEntry e queue).Perm (e :: queue) := by
  induction queue with
  | nil => exact List.Perm.refl _
  | cons x rest ih =>
    rw [insertEntry]
    split
    · exact List.Perm.refl _
    · exact (ih.cons x).trans (List.Perm.swap e x rest)

/-- An entry is inserted at its place in the order. -/
theorem InOrder.insertEntry {queue : List (Entry B)} (h : InOrder queue) (e : Entry B) :
    InOrder (insertEntry e queue) := by
  induction queue with
  | nil => exact List.pairwise_singleton _ e
  | cons x rest ih =>
    have hx := (List.pairwise_cons.mp h).1
    have hrest := (List.pairwise_cons.mp h).2
    rw [Agenda.insertEntry]
    split
    · next hlt =>
      rw [Instant.lt_iff] at hlt
      apply List.pairwise_cons.mpr
      refine ⟨?_, h⟩
      intro y hy
      rw [Instant.le_iff]
      rcases List.mem_cons.mp hy with rfl | hy
      · omega
      · have hle := Instant.le_iff.mp (hx y hy)
        omega
    · next hnot =>
      rw [Instant.lt_iff] at hnot
      apply List.pairwise_cons.mpr
      refine ⟨?_, ih hrest⟩
      intro y hy
      rcases List.mem_cons.mp ((insertEntry_perm e rest).mem_iff.mp hy) with rfl | hy
      · rw [Instant.le_iff]
        omega
      · exact hx y hy

/-- Whether a handle is cancelled is a matter of the list of the cancelled ones. -/
theorem isCancelled_congr {a b : Agenda B} (h : b.cancelled = a.cancelled) (handle : Handle) :
    b.isCancelled handle = a.isCancelled handle := by
  unfold isCancelled
  rw [h]

section

variable (a : Agenda B) (handle : Handle)

/-- Cancelling changes nothing but the list of the cancelled handles. -/
theorem cancel_eq : ∃ cancelled, a.cancel handle = { a with cancelled } ∧
    ∀ other, other ∈ cancelled ↔ other = handle ∨ other ∈ a.cancelled := by
  rw [cancel]
  split
  · next h =>
    refine ⟨a.cancelled, rfl, ?_⟩
    intro other
    constructor
    · exact .inr
    · rintro (rfl | hother)
      · exact List.contains_iff_mem.mp h
      · exact hother
  · exact ⟨_, rfl, fun other ↦ List.mem_cons⟩

/-- Cancelling does not end an agenda. -/
theorem stopped_cancel : (a.cancel handle).stopped = a.stopped := by
  obtain ⟨cancelled, h, _⟩ := a.cancel_eq handle
  rw [h]

/-- Exactly that handle is cancelled as well. -/
theorem isCancelled_cancel (other : Handle) :
    (a.cancel handle).isCancelled other = (decide (other = handle) || a.isCancelled other) := by
  obtain ⟨cancelled, h, hmem⟩ := a.cancel_eq handle
  rw [h, Bool.eq_iff_iff]
  simp [isCancelled, hmem]

/-- A cancelled entry stays where it is. -/
@[simp]
theorem queue_cancel : (a.cancel handle).queue = a.queue := by
  obtain ⟨cancelled, h, _⟩ := a.cancel_eq handle
  rw [h]

/-- Cancelling takes no time. -/
@[simp]
theorem clock_cancel : (a.cancel handle).clock = a.clock := by
  obtain ⟨cancelled, h, _⟩ := a.cancel_eq handle
  rw [h]

end

/-- Books a job under a fresh handle. One that is never due is not kept. -/
def booked (a : Agenda B) (due : Option Instant) (job : Job B) : Agenda B :=
  match due with
  | none => { a with nextHandle := a.nextHandle + 1 }
  | some due =>
    { a with
      nextHandle := a.nextHandle + 1
      queue := insertEntry ⟨due, a.nextSeq, ⟨a.nextHandle⟩, job⟩ a.queue
      nextSeq := a.nextSeq + 1 }

/-- Booking changes nothing but the queue and the numbers that are given out. -/
theorem booked_eq (a : Agenda B) (due : Option Instant) (job : Job B) :
    ∃ queue nextSeq, a.booked due job =
      { a with queue, nextSeq, nextHandle := a.nextHandle + 1 } := by
  cases due with
  | none => exact ⟨_, _, rfl⟩
  | some due => exact ⟨_, _, rfl⟩

/-- Submitting a job books it, as long as the clock can be read. -/
theorem submit_eq {a : Agenda B} {now : Instant} (hnow : a.clock.now = .ok now)
    (hstopped : a.stopped = false) (delay : Duration) (job : Job B) :
    a.submit delay job = .ok (⟨a.nextHandle⟩, a.booked (now.add? delay) job) := by
  have hrunning : ¬ a.stopped = true := by
    rw [hstopped]
    exact Bool.false_ne_true
  unfold submit freshHandle booked
  dsimp only
  rw [if_neg hrunning, hnow]
  cases hdue : now.add? delay with
  | none => simp only [hdue]
  | some due => simp only [hdue]

/-- Submitting a job books it, or its handle is cancelled at once. -/
theorem submit_eq_ok {a b : Agenda B} {delay : Duration} {job : Job B} {handle : Handle}
    (h : a.submit delay job = .ok (handle, b)) : handle = ⟨a.nextHandle⟩ ∧
      (b = a.freshHandle.2.cancel handle ∨ ∃ due, b = a.booked due job) := by
  cases hstopped : a.stopped with
  | true =>
    simp only [submit] at h
    rw [if_pos hstopped, Except.ok.injEq, Prod.mk.injEq] at h
    obtain ⟨rfl, rfl⟩ := h
    exact ⟨rfl, .inl rfl⟩
  | false =>
    cases hnow : a.clock.now with
    | error abort => simp [submit, hstopped, hnow] at h
    | ok now =>
      rw [submit_eq hnow hstopped, Except.ok.injEq, Prod.mk.injEq] at h
      obtain ⟨rfl, rfl⟩ := h
      exact ⟨rfl, .inr ⟨_, rfl⟩⟩

/-- Submitting a job is aborted only while the clock cannot be read. -/
theorem now_of_submit_eq_error {a : Agenda B} {delay : Duration} {job : Job B} {abort : Abort}
    (h : a.submit delay job = .error abort) : a.clock.now = .error abort := by
  cases hnow : a.clock.now with
  | error other =>
    cases hstopped : a.stopped <;> simp [submit, hstopped, hnow] at h
    rw [h]
  | ok now =>
    cases hstopped : a.stopped with
    | true => simp [submit, hstopped] at h
    | false => simp [submit_eq hnow hstopped] at h

/-- Submitting a job does not stop the agenda. -/
theorem stopped_submit {a b : Agenda B} {delay : Duration} {job : Job B} {handle : Handle}
    (h : a.submit delay job = .ok (handle, b)) : b.stopped = a.stopped := by
  obtain ⟨_, rfl | ⟨due, rfl⟩⟩ := submit_eq_ok h
  · exact stopped_cancel a.freshHandle.2 handle
  · obtain ⟨queue, nextSeq, hbooked⟩ := a.booked_eq due job
    rw [hbooked]

/-- Submitting a job takes no time, and only the job itself is new. -/
theorem submit_cases {a b : Agenda B} {delay : Duration} {job : Job B} {handle : Handle}
    (h : a.submit delay job = .ok (handle, b)) :
    b.clock = a.clock ∧ ∀ e ∈ b.queue, e ∈ a.queue ∨ e.job = job := by
  obtain ⟨_, rfl | ⟨due, rfl⟩⟩ := submit_eq_ok h
  · rw [clock_cancel, queue_cancel]
    exact ⟨rfl, fun e he ↦ .inl he⟩
  · unfold booked
    cases due with
    | none => exact ⟨rfl, fun e he ↦ .inl he⟩
    | some due =>
      refine ⟨rfl, ?_⟩
      intro e he
      rcases List.mem_cons.mp ((insertEntry_perm _ _).mem_iff.mp he) with rfl | he
      · exact .inr rfl
      · exact .inl he

/-- Going on with a chain submits its next run, or does nothing. -/
theorem arm_cases {a b : Agenda B} {chain : Handle} {period : Duration} {run : Nat} {body : B}
    (h : a.arm chain period run body = .ok b) :
    b = a ∨ ∃ handle, a.submit period (.link chain period run body) = .ok (handle, b) := by
  rw [arm] at h
  split at h
  · cases h
    exact .inl rfl
  · cases hsubmit : a.submit period (.link chain period run body) with
    | error abort =>
      rw [hsubmit] at h
      cases h
    | ok submitted =>
      rw [hsubmit] at h
      cases h
      exact .inr ⟨submitted.1, rfl⟩

/-- Going on with a chain takes no time. -/
theorem clock_arm {a b : Agenda B} {chain : Handle} {period : Duration} {run : Nat} {body : B}
    (h : a.arm chain period run body = .ok b) : b.clock = a.clock := by
  rcases arm_cases h with rfl | ⟨handle, hsubmit⟩
  · rfl
  · exact (submit_cases hsubmit).1

/-- Going on with a chain is aborted only while the clock cannot be read. -/
theorem now_of_arm_eq_error {a : Agenda B} {chain : Handle} {period : Duration} {run : Nat}
    {body : B} {abort : Abort} (h : a.arm chain period run body = .error abort) :
    a.clock.now = .error abort := by
  rw [arm] at h
  split at h
  · cases h
  · cases hsubmit : a.submit period (.link chain period run body) with
    | ok submitted => simp [hsubmit, Except.map] at h
    | error other =>
      simp only [hsubmit, Except.map, Except.error.injEq] at h
      rw [← h]
      exact now_of_submit_eq_error hsubmit

/-- Going on with a chain does not stop the agenda. -/
theorem stopped_arm {a b : Agenda B} {chain : Handle} {period : Duration} {run : Nat} {body : B}
    (h : a.arm chain period run body = .ok b) : b.stopped = a.stopped := by
  rcases arm_cases h with rfl | ⟨handle, hsubmit⟩
  · rfl
  · exact stopped_submit hsubmit

/-- Starting a chain is going on with it under a fresh handle. -/
theorem scheduleRepeating_eq_ok_iff {a b : Agenda B} {period : Duration} {body : B}
    {handle : Handle} : a.scheduleRepeating period body = .ok (handle, b) ↔
      handle = ⟨a.nextHandle⟩ ∧ a.freshHandle.2.arm handle period 1 body = .ok b := by
  rw [scheduleRepeating, freshHandle]
  constructor
  · intro h
    cases harm : arm { a with nextHandle := a.nextHandle + 1 } ⟨a.nextHandle⟩ period 1 body with
    | error abort => simp [harm, Except.map] at h
    | ok c =>
      simp only [harm, Except.map, Except.ok.injEq, Prod.mk.injEq] at h
      obtain ⟨rfl, rfl⟩ := h
      exact ⟨rfl, harm⟩
  · rintro ⟨rfl, harm⟩
    simp only [harm, Except.map]

/-- Starting a chain does not end an agenda. -/
theorem stopped_scheduleRepeating {a b : Agenda B} {period : Duration} {body : B} {handle : Handle}
    (h : a.scheduleRepeating period body = .ok (handle, b)) : b.stopped = a.stopped :=
  stopped_arm (a := a.freshHandle.2) (scheduleRepeating_eq_ok_iff.mp h).2

/-- Starting a chain is aborted if going on with it is. -/
theorem scheduleRepeating_eq_error_iff {a : Agenda B} {period : Duration} {body : B}
    {abort : Abort} : a.scheduleRepeating period body = .error abort ↔
      a.freshHandle.2.arm ⟨a.nextHandle⟩ period 1 body = .error abort := by
  rw [scheduleRepeating, freshHandle]
  cases harm : arm { a with nextHandle := a.nextHandle + 1 } ⟨a.nextHandle⟩ period 1 body <;>
    simp [harm, Except.map]

/-- Going on with a chain is not aborted as long as the clock can be read. -/
theorem arm_ok {a : Agenda B} {now : Instant} (hnow : a.clock.now = .ok now) (chain : Handle)
    (period : Duration) (run : Nat) (body : B) : ∃ b, a.arm chain period run body = .ok b := by
  rw [arm]
  by_cases hended : (a.isCancelled chain || a.stopped) = true
  · exact ⟨a, if_pos hended⟩
  · rw [if_neg hended]
    simp only [Bool.or_eq_true, not_or, Bool.not_eq_true] at hended
    rw [submit_eq hnow hended.2]
    exact ⟨_, rfl⟩

/-- The entry that is taken is the first one, it is due within the target, and the clock is moved on
to its due instant. -/
theorem take?_eq_some {a b : Agenda B} {target : Option Instant} {live : Bool} {e : Entry B}
    (h : a.take? target = some (live, e, b)) :
    a.stopped = false ∧ a.queue = e :: b.queue ∧ within target e.due = true ∧
      live = !a.isCancelled e.handle ∧
      ∃ journal, b = { a with clock := a.clock.advanceTo e.due, queue := b.queue, journal } := by
  rw [take?] at h
  split at h
  · cases h
  · next hstopped =>
    split at h
    · cases h
    · next first rest hqueue =>
      split at h
      · next hwithin =>
        simp only [Option.some.injEq, Prod.mk.injEq] at h
        obtain ⟨rfl, rfl, rfl⟩ := h
        exact ⟨by simpa using hstopped, hqueue, hwithin, rfl, _, rfl⟩
      · cases h

/-- The agenda that an entry has left in its turn, with the entries behind it. -/
def left (a : Agenda B) (e : Entry B) (rest : List (Entry B)) : Agenda B :=
  { a with
    clock := a.clock.advanceTo e.due
    queue := rest
    journal := ⟨e.due, e.seq, if !a.isCancelled e.handle then .started else .skipped,
      (a.clock.advanceTo e.due).elapsed⟩ :: a.journal }

/-- An entry is taken off a running agenda if it is the first one and due within the target. -/
theorem take?_eq_some_iff {a b : Agenda B} {target : Option Instant} {live : Bool} {e : Entry B} :
    a.take? target = some (live, e, b) ↔
      a.stopped = false ∧ within target e.due = true ∧ live = !a.isCancelled e.handle ∧
        ∃ rest, a.queue = e :: rest ∧ b = a.left e rest := by
  constructor
  · intro h
    obtain ⟨hstopped, hqueue, hwithin, hlive, _⟩ := take?_eq_some h
    refine ⟨hstopped, hwithin, hlive, b.queue, hqueue, ?_⟩
    simp only [take?, hstopped, hqueue, hwithin, if_true, Bool.false_eq_true, if_false,
      Option.some.injEq, Prod.mk.injEq] at h
    simp only [left, hstopped]
    exact h.2.2.symm
  · rintro ⟨hstopped, hwithin, rfl, rest, hqueue, rfl⟩
    simp only [take?, left, hstopped, hqueue, hwithin, if_true, Bool.false_eq_true, if_false]

/-- Nothing is taken off an agenda that was shut down, or whose first entry is not due within the
target. -/
theorem take?_eq_none_iff {a : Agenda B} {target : Option Instant} :
    a.take? target = none ↔
      a.stopped = true ∨ ∀ e rest, a.queue = e :: rest → within target e.due = false := by
  rw [take?]
  cases a.stopped with
  | true => simp
  | false =>
    cases a.queue with
    | nil => simp
    | cons e rest => cases hwithin : within target e.due <;> simp [hwithin]

/-- If nothing is taken off a running agenda, no entry is due within the target. -/
theorem within_of_take?_eq_none {a : Agenda B} {target : Option Instant}
    (hstopped : a.stopped = false) (hordered : InOrder a.queue) (h : a.take? target = none)
    {e : Entry B} (he : e ∈ a.queue) : ∃ instant, target = some instant ∧ instant < e.due := by
  rw [take?, hstopped] at h
  cases hqueue : a.queue with
  | nil =>
    rw [hqueue] at he
    cases he
  | cons first rest =>
    rw [hqueue] at h he hordered
    have hfirst : first.due ≤ e.due := by
      rcases List.mem_cons.mp he with rfl | hrest
      · exact Int.le_refl _
      · exact (List.pairwise_cons.mp hordered).1 e hrest
    by_cases hwithin : within target first.due = true
    · simp only [Bool.false_eq_true, if_false, hwithin, if_true, reduceCtorEq] at h
    · unfold within at hwithin
      cases target with
      | none => exact absurd rfl hwithin
      | some instant =>
        refine ⟨instant, rfl, ?_⟩
        simp only [decide_eq_true_eq, Instant.le_iff] at hwithin
        rw [Instant.le_iff] at hfirst
        rw [Instant.lt_iff]
        omega

end Agenda

end Caching
