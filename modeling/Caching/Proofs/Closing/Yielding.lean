import Caching.Proofs.Agenda.Laws
import Caching.Running.Engine
import Mathlib.Data.List.Perm.Subperm

/-!
# What others do with an agenda

An executor may be shared. Whatever others do with it, the duties of slots are those of the cache:
others may keep them from their turn, but they never add one.
-/

namespace Caching

variable {K V : Type}

/-- The entry is the duty of a slot. -/
def Entry.isTimer (e : Entry (Duty K V)) : Bool :=
  match e.job.body with
  | .lapse _ _ => true
  | .upkeep | .errand _ => false

/-- Whether an entry is the duty of a slot. -/
theorem Entry.isTimer_iff {e : Entry (Duty K V)} :
    e.isTimer = true ↔ ∃ key stamp, e.job.body = .lapse key stamp := by
  rw [isTimer]
  cases e.job.body <;> simp

namespace Agenda

/-- The duties of slots that wait, whether or not they were cancelled. -/
def timers (a : Agenda (Duty K V)) : List (Entry (Duty K V)) :=
  a.queue.filter Entry.isTimer

/-- Whatever others have done with the agenda: duties of slots may have left it, and none has come.
-/
structure Yields (a b : Agenda (Duty K V)) : Prop where
  timers : b.timers.Subperm a.timers
  cancelled : ∀ handle ∈ a.cancelled, handle ∈ b.cancelled
  stopped : a.stopped = true → b.stopped = true

section

variable {a b : Agenda (Duty K V)}

/-- Nothing was done. -/
theorem Yields.refl (a : Agenda (Duty K V)) : a.Yields a :=
  ⟨.refl _, fun _ h ↦ h, id⟩

/-- An entry has left. -/
theorem yields_take {target : Option Instant} {live : Bool} {e : Entry (Duty K V)}
    (h : a.take? target = some (live, e, b)) : a.Yields b := by
  obtain ⟨hstopped, hqueue, _, _, journal, hb⟩ := take?_eq_some h
  refine ⟨?_, ?_, ?_⟩
  · rw [timers, timers, hqueue]
    exact ((List.sublist_cons_self e b.queue).filter _).subperm
  · intro handle hhandle
    rw [hb]
    exact hhandle
  · intro hstop
    rw [hstopped] at hstop
    cases hstop

/-- A handle was cancelled. -/
theorem yields_cancel (a : Agenda (Duty K V)) (handle : Handle) : a.Yields (a.cancel handle) := by
  obtain ⟨cancelled, hcancel, hmem⟩ := a.cancel_eq handle
  rw [hcancel]
  exact ⟨.refl _, fun other hother ↦ (hmem other).mpr (.inr hother), id⟩

/-- A handle was given out. -/
theorem yields_freshHandle (a : Agenda (Duty K V)) : a.Yields a.freshHandle.2 :=
  ⟨.refl _, fun _ h ↦ h, id⟩

/-- The agenda was shut down. -/
theorem yields_shutdown (a : Agenda (Duty K V)) : a.Yields a.shutdown :=
  ⟨List.nil_subperm, fun _ h ↦ h, fun _ ↦ rfl⟩

/-- Two things were done in a row. -/
theorem Yields.trans {c : Agenda (Duty K V)} (h : a.Yields b) (h' : b.Yields c) : a.Yields c :=
  ⟨h'.timers.trans h.timers, fun handle hhandle ↦ h'.cancelled handle (h.cancelled handle hhandle),
    fun hstop ↦ h'.stopped (h.stopped hstop)⟩

private theorem yields_submit {delay : Duration} {job : Job (Duty K V)} {handle : Handle}
    (hbody : ∀ key stamp, job.body ≠ .lapse key stamp) (h : a.submit delay job = .ok (handle, b)) :
    a.Yields b := by
  obtain ⟨_, rfl | ⟨due, rfl⟩⟩ := submit_eq_ok h
  · exact (yields_freshHandle a).trans (yields_cancel _ handle)
  · cases due with
    | none => exact yields_freshHandle a
    | some due =>
      refine ⟨?_, fun _ h ↦ h, id⟩
      have hperm := (insertEntry_perm ⟨due, a.nextSeq, ⟨a.nextHandle⟩, job⟩ a.queue).filter
        Entry.isTimer
      rw [List.filter_cons_of_neg] at hperm
      · exact hperm.subperm
      · rw [Entry.isTimer_iff]
        intro hlapse
        obtain ⟨key, stamp, hlapse⟩ := hlapse
        exact hbody key stamp hlapse

/-- Something was scheduled that is not the duty of a slot. -/
theorem yields_schedule {delay : Duration} {duty : Duty K V} {handle : Handle}
    (hduty : ∀ key stamp, duty ≠ .lapse key stamp) (h : a.schedule delay duty = .ok (handle, b)) :
    a.Yields b := by
  have hjob : ∀ key stamp, (Job.once duty).body ≠ .lapse key stamp := hduty
  exact yields_submit hjob h

/-- A chain went on that is not one of duties of slots. -/
theorem yields_arm {chain : Handle} {period : Duration} {run : Nat} {duty : Duty K V}
    (hduty : ∀ key stamp, duty ≠ .lapse key stamp)
    (h : a.arm chain period run duty = .ok b) : a.Yields b := by
  rcases arm_cases h with rfl | ⟨handle, hsubmit⟩
  · exact .refl _
  · have hjob : ∀ key stamp, (Job.link chain period run duty).body ≠ .lapse key stamp := hduty
    exact yields_submit hjob hsubmit

/-- A chain was started that is not one of duties of slots. -/
theorem yields_scheduleRepeating {period : Duration} {duty : Duty K V} {handle : Handle}
    (hduty : ∀ key stamp, duty ≠ .lapse key stamp)
    (h : a.scheduleRepeating period duty = .ok (handle, b)) : a.Yields b := by
  obtain ⟨_, harm⟩ := scheduleRepeating_eq_ok_iff.mp h
  exact (yields_freshHandle a).trans (yields_arm hduty harm)

end

end Agenda

end Caching
