import Caching.Proofs.Closing.Plan
import Caching.Proofs.Closing.Yielding
import Caching.Proofs.Timed.Bookkeeping

/-!
# Tended timers

Whether or not the clock can be read and the agenda runs, and whatever others do with both, a cache
tends its timers: of every duty that may still have its turn there is a slot that knows its handle.
So all of them can be cancelled when the cache is closed, and from then on there are none.
-/

namespace Caching

variable {K V : Type}

namespace Agenda

section

variable {a b : Agenda (Duty K V)} [DecidableEq K]

/-- The duties of a slot are duties of slots. -/
theorem duties_eq_filter_timers (a : Agenda (Duty K V)) (key : K) (stamp : Nat) :
    a.duties key stamp =
      a.timers.filter fun e ↦ e.isDutyOf key stamp && !a.isCancelled e.handle := by
  rw [duties, timers, List.filter_filter]
  apply List.filter_congr
  intro e _
  cases hduty : e.isDutyOf key stamp with
  | false => rfl
  | true =>
    have htimer : e.isTimer = true :=
      Entry.isTimer_iff.mpr ⟨key, stamp, Entry.isDutyOf_iff.mp hduty⟩
    rw [htimer, Bool.true_and, Bool.and_true]

private theorem Yields.duties (h : a.Yields b) (key : K) (stamp : Nat) :
    (b.duties key stamp).Subperm (a.duties key stamp) := by
  rw [duties_eq_filter_timers, duties_eq_filter_timers]
  refine (h.timers.filter _).trans (List.Sublist.subperm (List.monotone_filter_right _ ?_))
  intro e he
  rw [Bool.and_eq_true, Bool.not_eq_true', Bool.eq_false_iff, ne_eq, isCancelled,
    List.contains_iff_mem] at he ⊢
  exact ⟨he.1, fun hin ↦ he.2 (h.cancelled e.handle hin)⟩

private theorem duties_schedule {delay : Duration} {key : K} {stamp : Nat} {handle : Handle}
    (h : a.schedule delay (.lapse key stamp) = .ok (handle, b)) :
    (∃ new, new.length ≤ 1 ∧ (∀ e ∈ new, e.handle = handle) ∧
      (b.duties key stamp).Subperm (new ++ a.duties key stamp)) ∧
      ∀ other n, ¬ (other = key ∧ n = stamp) →
        (b.duties other n).Subperm (a.duties other n) := by
  have hnothing (hyields : a.Yields b) :
      (∃ new, new.length ≤ 1 ∧ (∀ e ∈ new, e.handle = handle) ∧
        (b.duties key stamp).Subperm (new ++ a.duties key stamp)) ∧
        ∀ other n, ¬ (other = key ∧ n = stamp) →
          (b.duties other n).Subperm (a.duties other n) := by
    refine ⟨⟨[], Nat.zero_le 1, ?_, hyields.duties key stamp⟩, ?_⟩
    · intro e he
      cases he
    · intro other n _
      exact hyields.duties other n
  obtain ⟨rfl, rfl | ⟨due, rfl⟩⟩ := submit_eq_ok h
  · exact hnothing ((yields_freshHandle a).trans (yields_cancel _ _))
  · cases due with
    | none => exact hnothing (yields_freshHandle a)
    | some due =>
      have hinsert (other : K) (n : Nat) := duties_insert
        (b := a.booked (some due) (.once (.lapse key stamp))) rfl rfl other n
      refine ⟨⟨[⟨due, a.nextSeq, ⟨a.nextHandle⟩, .once (.lapse key stamp)⟩], Nat.le_refl 1, ?_, ?_⟩,
        ?_⟩
      · intro e he
        rw [List.mem_singleton.mp he]
      · refine (hinsert key stamp).subperm.trans ?_
        split
        · exact .refl _
        · exact (List.sublist_cons_self _ _).subperm
      · intro other n hne
        refine (hinsert other n).subperm.trans ?_
        split
        · next hduty =>
          rw [Bool.and_eq_true, Entry.isDutyOf_iff] at hduty
          cases hduty.1
          exact absurd ⟨rfl, rfl⟩ hne
        · exact .refl _

end

end Agenda

private theorem Slot.withdraw_yields (slot : Slot V) (a : Agenda (Duty K V)) :
    a.Yields (slot.withdraw a) := by
  obtain ⟨cancelled, hwithdraw, hmem⟩ := slot.withdraw_eq a
  rw [hwithdraw]
  exact ⟨.refl _, fun handle hhandle ↦ (hmem handle).mpr (.inr hhandle), id⟩

private theorem Slot.stopped_withdraw (slot : Slot V) (a : Agenda (Duty K V)) :
    (slot.withdraw a).stopped = a.stopped := by
  obtain ⟨cancelled, hwithdraw, _⟩ := slot.withdraw_eq a
  rw [hwithdraw]

namespace Timed

variable [DecidableEq K]

/-- Of every duty that waits there is a slot that knows it, and no slot has two of them. -/
structure Attached (s : Timed K V) (a : Agenda (Duty K V)) : Prop where
  single : ∀ key stamp, (a.duties key stamp).length ≤ 1
  owned : ∀ key stamp, ∀ e ∈ a.duties key stamp, ∃ slot, s.find? key = some slot ∧
    slot.stamp = stamp ∧ slot.timer = some e.handle

namespace Attached

variable {s s' : Timed K V} {a b c : Agenda (Duty K V)} {key : K} {slot : Slot V}

private theorem yields (h : Attached s a) (hyields : a.Yields b) : Attached s b := by
  constructor
  · intro key stamp
    exact Nat.le_trans (hyields.duties key stamp).length_le (h.single key stamp)
  · intro key stamp e he
    exact h.owned key stamp e ((hyields.duties key stamp).subset he)

private theorem of_entries (h : Attached s a) (hentries : s'.entries = s.entries) :
    Attached s' a := by
  refine ⟨h.single, fun key stamp e he ↦ ?_⟩
  rw [find?, hentries]
  exact h.owned key stamp e he

private theorem duties_eq_nil (h : Attached s a) (hfind : s.find? key = none) (stamp : Nat) :
    a.duties key stamp = [] := by
  apply List.eq_nil_iff_forall_not_mem.mpr
  intro e he
  obtain ⟨slot, hslot, _⟩ := h.owned key stamp e he
  rw [hfind] at hslot
  cases hslot

private theorem timer_eq (h : Attached s a) (hfind : s.find? key = some slot) {stamp : Nat}
    {e : Entry (Duty K V)} (he : e ∈ a.duties key stamp) : slot.timer = some e.handle := by
  obtain ⟨slot', hslot, _, htimer⟩ := h.owned key stamp e he
  rw [hfind, Option.some.injEq] at hslot
  rw [hslot]
  exact htimer

private theorem duties_withdraw (h : Attached s a) (hfind : s.find? key = some slot) (stamp : Nat) :
    (slot.withdraw a).duties key stamp = [] := by
  apply List.eq_nil_iff_forall_not_mem.mpr
  intro e he
  obtain ⟨hmem, hother⟩ := (slot.mem_duties_withdraw a).mp he
  exact hother (h.timer_eq hfind hmem)

private theorem erase (h : Attached s a) (hnone : ∀ stamp, a.duties key stamp = []) :
    Attached (s.erase key) a := by
  refine ⟨h.single, fun other stamp e he ↦ ?_⟩
  have hne : other ≠ key := by
    intro hk
    rw [hk, hnone] at he
    cases he
  rw [find?_erase_of_ne s hne]
  exact h.owned other stamp e he

private theorem set (h : Attached s a)
    (hothers : ∀ other stamp, other ≠ key → (b.duties other stamp).Subperm (a.duties other stamp))
    (hsingle : ∀ stamp, (b.duties key stamp).length ≤ 1)
    (howned : ∀ stamp, ∀ e ∈ b.duties key stamp,
      slot.stamp = stamp ∧ slot.timer = some e.handle) : Attached (s.set key slot) b := by
  constructor
  · intro other stamp
    by_cases hk : other = key
    · rw [hk]
      exact hsingle stamp
    · exact Nat.le_trans (hothers other stamp hk).length_le (h.single other stamp)
  · intro other stamp e he
    by_cases hk : other = key
    · rw [hk] at he ⊢
      exact ⟨slot, find?_set_self s key slot, howned stamp e he⟩
    · rw [find?_set_of_ne s hk]
      exact h.owned other stamp e ((hothers other stamp hk).subset he)

private theorem setBare (h : Attached s a) (hyields : a.Yields b)
    (hnone : ∀ stamp, b.duties key stamp = []) (slot : Slot V) :
    Attached (s.set key slot) b := by
  apply h.set
  · intro other stamp _
    exact hyields.duties other stamp
  · intro stamp
    rw [hnone]
    exact Nat.zero_le 1
  · intro stamp e he
    rw [hnone] at he
    cases he

/-- A slot may come under a key with a duty that was scheduled for it, if all duties that the key
had before are gone in the end. -/
theorem setArmed (h : Attached s a) {delay : Duration} {handle : Handle}
    (hschedule : a.schedule delay (.lapse key slot.stamp) = .ok (handle, b))
    (htimer : slot.timer = some handle) (hyields : b.Yields c) {p : Entry (Duty K V) → Bool}
    (hleft : ∀ stamp, ∀ e ∈ c.duties key stamp, p e = true)
    (hgone : ∀ stamp, ∀ e ∈ a.duties key stamp, ¬ p e = true) :
    Attached (s.set key slot) c := by
  obtain ⟨⟨new, hlength, hhandle, hself⟩, hothers⟩ := Agenda.duties_schedule hschedule
  have hnew : (c.duties key slot.stamp).Subperm new := by
    have hsub := ((hyields.duties key slot.stamp).trans hself).filter p
    rw [List.filter_append, List.filter_eq_self.mpr (hleft slot.stamp),
      List.filter_eq_nil_iff.mpr (hgone slot.stamp), List.append_nil] at hsub
    exact hsub.trans List.filter_sublist.subperm
  have hnone (stamp : Nat) (hne : stamp ≠ slot.stamp) : c.duties key stamp = [] := by
    apply List.eq_nil_iff_forall_not_mem.mpr
    intro e he
    have hbefore := (hothers key stamp fun hsame ↦ hne hsame.2).subset
      ((hyields.duties key stamp).subset he)
    exact hgone stamp e hbefore (hleft stamp e he)
  apply h.set
  · intro other stamp hne
    exact (hyields.duties other stamp).trans (hothers other stamp fun hsame ↦ hne hsame.1)
  · intro stamp
    by_cases hs : stamp = slot.stamp
    · rw [hs]
      exact Nat.le_trans hnew.length_le hlength
    · rw [hnone stamp hs]
      exact Nat.zero_le 1
  · intro stamp e he
    by_cases hs : stamp = slot.stamp
    · rw [hs] at he
      rw [hhandle e (hnew.subset he)]
      exact ⟨hs.symm, htimer⟩
    · rw [hnone stamp hs] at he
      cases he

private theorem setSole (h : Attached s a) {delay : Duration} {handle : Handle}
    (hschedule : a.schedule delay (.lapse key slot.stamp) = .ok (handle, b))
    (htimer : slot.timer = some handle) (hnone : ∀ stamp, a.duties key stamp = []) :
    Attached (s.set key slot) b := by
  refine h.setArmed hschedule htimer (.refl b) (fun _ _ _ ↦ rfl) (p := fun _ ↦ true) ?_
  intro stamp e he
  rw [hnone] at he
  cases he

end Attached

section

variable (key : K) (w : Running (Timed K V) K V)

/-- Whatever the clock and the agenda are like, arming a slot does nothing, or else it schedules the
duty and puts its handle into the slot. -/
theorem arm_cases {slot : Slot V} (hfind : w.store.find? key = some slot) (delay : Duration) :
    arm key slot.stamp delay w = w ∨
      ∃ handle a, w.agenda.schedule delay (.lapse key slot.stamp) = .ok (handle, a) ∧
        arm key slot.stamp delay w = { w with
          store := w.store.set key { slot with timer := some handle }
          agenda := a } := by
  rw [arm, hfind]
  cases w.store.expiry with
  | none => exact .inl rfl
  | some x =>
    cases hschedule : w.agenda.schedule delay (.lapse key slot.stamp) with
    | error abort => exact .inl rfl
    | ok scheduled => exact .inr ⟨scheduled.1, scheduled.2, rfl, if_pos rfl⟩

/-- Whatever the clock and the agenda are like, a write puts a new slot under the key, and schedules
its duty or does not. -/
theorem write_cases (now : Instant) (value : V) : ∃ slot agenda,
    write now key value w = { w with
      store := { w.store.set key slot with nextStamp := w.store.nextStamp + 1 }
      agenda } ∧
    (agenda = w.agenda ∨ ∃ handle delay, slot.timer = some handle ∧
      w.agenda.schedule delay (.lapse key slot.stamp) = .ok (handle, agenda)) := by
  rw [write]
  cases w.store.expiry with
  | none => exact ⟨_, w.agenda, rfl, .inl rfl⟩
  | some x =>
    obtain hsame | ⟨handle, a, hschedule, harmed⟩ := arm_cases key
      { w with store := { w.store.set key ⟨value, w.store.nextStamp, w.store.deadlineFrom now, none⟩
        with nextStamp := w.store.nextStamp + 1 } } (find?_set_self w.store key _) x.time
    · exact ⟨_, w.agenda, hsame, .inl rfl⟩
    · refine ⟨⟨value, w.store.nextStamp, w.store.deadlineFrom now, some handle⟩, a,
        harmed.trans ?_, .inr ⟨handle, x.time, rfl, hschedule⟩⟩
      simp only [set, Keyed.insert_insert]

end

/-- A cache tends its timers, and its own schedule if it keeps one: it knows which duties wait, and
once it is closed there are no entries, and no schedule of its own that runs. -/
structure Tended (own : Bool) (w : Running (Timed K V) K V) : Prop where
  attached : Attached w.store w.agenda
  owns : ownsSchedule w = own
  ended : w.phase = .closed → w.store.entries = [] ∧ (own = true → w.agenda.stopped = true)

namespace Tended

variable {own : Bool} {w : Running (Timed K V) K V}

/-- Others may do with the agenda what they like, and the records of the cache have no part in it.
-/
theorem aside (h : Tended own w) {agenda : Agenda (Duty K V)} (hyields : w.agenda.Yields agenda)
    (dispatching : Nat) (listener : Option (Listener K V)) (heard : List (Heard K V))
    (host : Clock) (log : List LogEntry) :
    Tended own { w with dispatching, listener, heard, agenda, host, log } := by
  refine ⟨h.attached.yields hyields, h.owns, fun hclosed ↦ ?_⟩
  obtain ⟨hnil, hstopped⟩ := h.ended hclosed
  exact ⟨hnil, fun hown ↦ hyields.stopped (hstopped hown)⟩

/-- All timers of a closed cache are cancelled. -/
theorem cancelled_of_closed (h : Tended own w) (hclosed : w.phase = .closed)
    {e : Entry (Duty K V)} (he : e ∈ w.agenda.queue) {key : K} {stamp : Nat}
    (hbody : e.job.body = .lapse key stamp) : e.handle ∈ w.agenda.cancelled := by
  by_contra hlive
  have hduty : e ∈ w.agenda.duties key stamp := Agenda.mem_duties.mpr ⟨he, hbody, hlive⟩
  rw [h.attached.duties_eq_nil] at hduty
  · cases hduty
  · rw [find?, (h.ended hclosed).1, Keyed.find?]

end Tended

section

variable {own : Bool} {w : Running (Timed K V) K V}

/-- What a cache does to its slots and to their duties tends its timers, as long as the duties stay
attached and nothing is stored once the cache is closed. -/
theorem passes_of_attached {w' : Running (Timed K V) K V} (hframes : w.Frames w')
    (hstopped : w'.agenda.stopped = w.agenda.stopped)
    (hexpiry : w'.store.expiry = w.store.expiry)
    (hnil : w.phase = .closed → w.store.entries = [] → w'.store.entries = [])
    (hattached : Attached w.store w.agenda → Attached w'.store w'.agenda) :
    w.Passes (Tended own) w' := by
  refine ⟨hframes, fun _ ↦ hstopped, fun h ↦ ⟨hattached h.attached, ?_, ?_⟩⟩
  · obtain ⟨store, agenda, log, rfl⟩ := hframes
    rw [← h.owns, ownsSchedule, ownsSchedule, hexpiry]
  · intro hclosed
    have hbefore : w.phase = .closed := by
      obtain ⟨store, agenda, log, rfl⟩ := hframes
      exact hclosed
    obtain ⟨hempty, hended⟩ := h.ended hbefore
    refine ⟨hnil hbefore hempty, fun hown ↦ ?_⟩
    rw [hstopped]
    exact hended hown

private theorem takeOut_passes (now : Instant) (key : K) :
    w.Passes (Tended own) (takeOut now key w).2 := by
  cases hfind : w.store.find? key with
  | none =>
    rw [takeOut, hfind]
    exact .refl w
  | some slot =>
    have htaken : (takeOut now key w).2 =
        { w with store := w.store.erase key, agenda := slot.withdraw w.agenda } := by
      rw [takeOut, hfind]
      exact disarm_eq slot _
    rw [htaken]
    refine passes_of_attached (w.frames_of_store _ _) (slot.stopped_withdraw w.agenda) rfl ?_ ?_
    · intro _ hnil
      rw [erase, hnil, Keyed.erase, List.filter_nil]
    · intro h
      exact (h.yields (slot.withdraw_yields w.agenda)).erase (h.duties_withdraw hfind)

private theorem readOut_passes (now : Instant) {key : K} {slot : Slot V}
    (hfind : w.store.find? key = some slot) :
    w.Passes (Tended own) (readOut now key slot w) := by
  rw [readOut]
  split
  · refine passes_of_attached (w.frames_of_store _ w.agenda) rfl rfl ?_ ?_
    · intro _ hnil
      rw [find?, hnil] at hfind
      cases hfind
    · intro h
      apply h.set (fun other stamp _ ↦ .refl _) (h.single key)
      intro stamp e he
      obtain ⟨slot', hslot, hstamp, htimer⟩ := h.owned key stamp e he
      rw [hfind, Option.some.injEq] at hslot
      rw [hslot]
      exact ⟨hstamp, htimer⟩
  · exact .refl w

/-- A write tends the timers of an open cache. It schedules the new duty before it cancels the old
one. -/
theorem writeOver_passes (hopen : w.phase ≠ .closed) (now : Instant) (key : K) (value : V) :
    w.Passes (Tended own) (writeOver now key value w).2 := by
  obtain ⟨new, agenda, hwrite, hagenda⟩ := write_cases key w now value
  have hstopped : agenda.stopped = w.agenda.stopped := by
    rcases hagenda with rfl | ⟨handle, delay, _, hschedule⟩
    · rfl
    · exact (Agenda.stopped_submit hschedule)
  cases hfind : w.store.find? key with
  | none =>
    rw [writeOver, hfind]
    dsimp only
    rw [hwrite]
    refine passes_of_attached (w.frames_of_store _ _) hstopped rfl (absurd · hopen) ?_
    intro h
    refine Attached.of_entries (s := w.store.set key new) ?_ rfl
    have hnone := h.duties_eq_nil hfind
    rcases hagenda with rfl | ⟨handle, delay, htimer, hschedule⟩
    · exact h.setBare (.refl _) hnone new
    · exact h.setSole hschedule htimer hnone
  | some slot =>
    have hwritten : (writeOver now key value w).2 = { w with
        store := { w.store.set key new with nextStamp := w.store.nextStamp + 1 }
        agenda := slot.withdraw agenda } := by
      rw [writeOver, hfind]
      dsimp only
      rw [hwrite]
      exact disarm_eq slot _
    rw [hwritten]
    refine passes_of_attached (w.frames_of_store _ _)
      ((slot.stopped_withdraw agenda).trans hstopped) rfl (absurd · hopen) ?_
    intro h
    refine Attached.of_entries (s := w.store.set key new) ?_ rfl
    rcases hagenda with rfl | ⟨handle, delay, htimer, hschedule⟩
    · exact h.setBare (slot.withdraw_yields w.agenda) (h.duties_withdraw hfind) new
    · refine h.setArmed hschedule htimer (slot.withdraw_yields agenda)
        (p := fun e ↦ decide (slot.timer ≠ some e.handle)) ?_ ?_
      · intro stamp e he
        exact decide_eq_true ((slot.mem_duties_withdraw agenda).mp he).2
      · intro stamp e he hleft
        exact of_decide_eq_true hleft (h.timer_eq hfind he)

/-- A deed tends the timers, if nothing is stored once the cache is closed. -/
theorem carryOut_passes (now : Instant) (key : K) {deed : Deed V}
    (hopen : w.phase = .active ∨ deed.stored = none) :
    w.Passes (Tended own) (carryOut now key deed w).2 := by
  unfold carryOut
  split
  · exact .refl w
  · exact .refl w
  · next hlive => exact readOut_passes now (live?_eq_some_iff.mp hlive).1
  · exact .refl w
  · exact takeOut_passes now key
  · exact takeOut_passes now key
  · exact takeOut_passes now key
  · rcases hopen with hactive | hstored
    · refine writeOver_passes ?_ now key _
      intro hclosed
      rw [hactive] at hclosed
      cases hclosed
    · cases hstored

/-- The duty of an entry tends the timers, once it was the last one of its key as it came due. -/
theorem comeDue_passes {key : K} (hlast : ∀ stamp, w.agenda.duties key stamp = []) (stamp : Nat) :
    w.Passes (Tended own) (comeDue key stamp w).2 := by
  rw [comeDue]
  split
  · next slot _ hfind =>
    split
    · next hstamp =>
      split
      · next deadline _ =>
        split
        · refine passes_of_attached (w.frames_of_store _ w.agenda) rfl rfl ?_ ?_
          · intro _ hnil
            rw [erase, hnil, Keyed.erase, List.filter_nil]
          · exact fun h ↦ h.erase hlast
        · rw [← hstamp]
          obtain hsame | ⟨handle, a, hschedule, harmed⟩ := arm_cases key w hfind _
          · rw [hsame]
            exact .refl w
          · rw [harmed]
            refine passes_of_attached (w.frames_of_store _ a)
              (Agenda.stopped_submit hschedule) rfl ?_ ?_
            · intro _ hnil
              rw [find?, hnil] at hfind
              cases hfind
            · intro h
              exact Attached.setSole h hschedule rfl hlast
      · exact .refl w
    · exact .refl w
  · exact .refl w

/-- The duty whose turn has come was the last one of its key. -/
theorem Attached.duties_take {s : Timed K V} {a b : Agenda (Duty K V)} (h : Attached s a)
    {target : Option Instant} {e : Entry (Duty K V)} (htake : a.take? target = some (true, e, b))
    {key : K} {stamp : Nat} (hbody : e.job.body = .lapse key stamp) (n : Nat) :
    b.duties key n = [] := by
  obtain ⟨_, hqueue, _, hlive, journal, hb⟩ := Agenda.take?_eq_some htake
  have hcancelled : b.cancelled = a.cancelled := by rw [hb]
  have htaken := Agenda.duties_take hqueue hcancelled
  have hmine : a.duties key stamp = e :: b.duties key stamp := by
    rw [htaken, Entry.isDutyOf_iff.mpr hbody, ← hlive]
    rfl
  apply List.eq_nil_iff_forall_not_mem.mpr
  intro e' he'
  have hother : e' ∈ a.duties key n := by
    rw [htaken]
    split
    · exact List.mem_cons_of_mem e he'
    · exact he'
  obtain ⟨slot, hslot, hstamp, _⟩ := h.owned key n e' hother
  have hin : e ∈ a.duties key stamp := by
    rw [hmine]
    exact List.mem_cons_self
  obtain ⟨slot', hslot', hstamp', _⟩ := h.owned key stamp e hin
  obtain rfl := Option.some.inj (hslot.symm.trans hslot')
  -- Both belong to the slot of the key, which has only one.
  have hsingle := h.single key stamp
  rw [← hstamp', hstamp] at hmine hsingle
  rw [hmine, List.length_cons] at hsingle
  rw [List.eq_nil_of_length_eq_zero (by omega : (b.duties key n).length = 0)] at he'
  cases he'

/-- The end of a cache tends its timers: all of them are cancelled. -/
theorem Tended.teardown (h : Tended own w) :
    Tended own (Engine.teardown { w with phase := .closed }) := by
  obtain ⟨cancelled, hends, hmem⟩ := teardown_eq { w with phase := .closed }
  have hnone (key : K) (stamp : Nat) :
      ({ w.agenda with cancelled } : Agenda (Duty K V)).duties key stamp = [] := by
    refine duties_cancelled hmem ?_ key stamp
    intro key stamp e he
    obtain ⟨slot, hslot, _, htimer⟩ := h.attached.owned key stamp e he
    exact ⟨slot, hslot, htimer⟩
  have hattached : Attached { w.store with entries := [] } { w.agenda with cancelled } := by
    constructor
    · intro key stamp
      rw [hnone]
      exact Nat.zero_le 1
    · intro key stamp e he
      rw [hnone] at he
      cases he
  rw [hends, endSchedule]
  split
  · exact ⟨hattached.yields (Agenda.yields_shutdown _), h.owns, fun _ ↦ ⟨rfl, fun _ ↦ rfl⟩⟩
  · next hgiven =>
    refine ⟨hattached, h.owns, fun _ ↦ ⟨rfl, fun hown ↦ ?_⟩⟩
    exact absurd (h.owns.trans hown) hgiven

/-- The end of a cache does not shut a supplied agenda down. -/
theorem stopped_teardown (hsupplied : w.supplied = true) :
    (Engine.teardown w).agenda.stopped = w.agenda.stopped := by
  obtain ⟨cancelled, hends, _⟩ := teardown_eq w
  rw [hends, endSchedule_of_supplied]
  exact hsupplied

end

end Timed

end Caching
