import Caching.Proofs.Agenda.Drain
import Caching.Proofs.Timed.Deeds
import Mathlib.Algebra.GroupWithZero.Nat
import Mathlib.Algebra.Order.BigOperators.Group.List
import Mathlib.Algebra.Order.Group.Nat

/-!
# The workload of an agenda

Letting time pass on the agenda of a timed cache comes to an end. A duty that comes too early, as
reads have pushed the deadline back, is scheduled anew for the deadline itself, and then it is in
time. So every entry has its turn twice at most, and each turn leaves less to be done.
-/

namespace Caching.Timed

variable {K V : Type} [DecidableEq K]

/-- How often an entry and what comes of it have their turn. -/
def turns (s : Timed K V) (e : Entry (Duty K V)) : Nat :=
  match e.job.body with
  | .lapse key stamp =>
    match s.find? key with
    | some slot =>
      if slot.stamp = stamp ∧ slot.deadline.any fun deadline ↦ decide (e.due < deadline) then 2
      else 1
    | none => 1
  | .upkeep | .errand _ => 1

/-- The turns that all entries of a queue have. -/
def workload (s : Timed K V) (queue : List (Entry (Duty K V))) : Nat :=
  (queue.map s.turns).sum

section

variable (s : Timed K V) (key : K)

/-- Every entry has its turn. -/
theorem turns_pos (e : Entry (Duty K V)) : 1 ≤ s.turns e := by
  unfold turns
  repeat' split
  all_goals omega

private theorem turns_erase_le (e : Entry (Duty K V)) : (s.erase key).turns e ≤ s.turns e := by
  have hpos := s.turns_pos e
  unfold turns at hpos ⊢
  split
  · next k stamp hbody =>
    by_cases hk : k = key
    · rw [hk, find?, erase, Keyed.find?_erase_self]
      rw [hbody, hk] at hpos
      exact hpos
    · rw [find?, erase, Keyed.find?_erase_of_ne hk, find?]
  · exact Nat.le_refl _
  · exact Nat.le_refl _

private theorem turns_set_timer {slot : Slot V} (hfind : s.find? key = some slot)
    (timer : Option Handle)
    (e : Entry (Duty K V)) : (s.set key { slot with timer }).turns e = s.turns e := by
  unfold turns
  split
  · next k stamp _ =>
    by_cases hk : k = key
    · rw [hk, hfind, find?, set, Keyed.find?_insert_self]
    · rw [find?, set, Keyed.find?_insert_of_ne hk, find?]
  · rfl
  · rfl

private theorem workload_erase_le (queue : List (Entry (Duty K V))) :
    (s.erase key).workload queue ≤ s.workload queue :=
  List.sum_le_sum fun e _ ↦ s.turns_erase_le key e

private theorem workload_set_timer {slot : Slot V} (hfind : s.find? key = some slot)
    (timer : Option Handle) (queue : List (Entry (Duty K V))) :
    (s.set key { slot with timer }).workload queue = s.workload queue := by
  rw [workload, workload]
  exact congrArg List.sum (List.map_congr_left fun e _ ↦ s.turns_set_timer key hfind timer e)

private theorem workload_insertEntry (e : Entry (Duty K V)) (queue : List (Entry (Duty K V))) :
    s.workload (Agenda.insertEntry e queue) = s.turns e + s.workload queue := by
  rw [workload, ((Agenda.insertEntry_perm e queue).map s.turns).sum_eq, List.map_cons,
    List.sum_cons]
  rfl

end

/-- The turn of a duty leaves less work than there was. -/
theorem workload_comeDue {w : Running (Timed K V) K V} {x : Expiry}
    (hexpiry : w.store.expiry = some x) {now : Instant} (hnow : w.agenda.clock.now = .ok now)
    (hstopped : w.agenda.stopped = false) {e : Entry (Duty K V)} (hdue : e.due ≤ now) {key : K}
    {stamp : Nat} (hbody : e.job.body = .lapse key stamp) :
    (comeDue key stamp w).2.store.workload (comeDue key stamp w).2.agenda.queue <
      w.store.turns e + w.store.workload w.agenda.queue := by
  have hpos := w.store.turns_pos e
  rw [comeDue, hnow]
  cases hslot : w.store.find? key with
  | none => dsimp only; omega
  | some slot =>
    by_cases hstamp : slot.stamp = stamp
    · simp only [if_pos hstamp]
      cases hd : slot.deadline with
      | none => dsimp only; omega
      | some deadline =>
        dsimp only
        by_cases hle : deadline ≤ now
        · rw [if_pos hle]
          have herase := w.store.workload_erase_le key w.agenda.queue
          dsimp only
          omega
        · -- The duty came before the deadline, so it has another turn, the last one.
          rw [if_neg hle, ← hstamp, arm_eq key w hexpiry hnow hstopped hslot]
          rw [Instant.le_iff] at hle hdue
          have htwice : w.store.turns e = 2 := by
            have hlt : e.due < deadline := by rw [Instant.lt_iff]; omega
            simp only [turns, hbody, hslot, hstamp, hd, Option.any_some, hlt, decide_true,
              and_self, if_true]
          have hadd : now.add? (deadline.since now) = some deadline := by
            have hsince := Instant.nanos_since deadline now
            rw [Instant.add?_eq_some_iff]
            omega
          simp only [hadd, Agenda.booked]
          rw [workload_insertEntry, workload_set_timer _ _ hslot, turns_set_timer _ _ hslot]
          have honce : w.store.turns ⟨deadline, w.agenda.nextSeq, ⟨w.agenda.nextHandle⟩,
              .once (.lapse key slot.stamp)⟩ = 1 := by
            have hnot : ¬ deadline < deadline := by rw [Instant.lt_iff]; omega
            simp only [turns, Job.body, hslot, hd, Option.any_some, hnot, decide_false,
              Bool.false_eq_true, and_false, if_false]
          omega
    · simp only [if_neg hstamp]
      omega

end Caching.Timed
