import Caching.Proofs.Timed.Bookkeeping

/-!
# Timekeeping

A cache with expiry keeps time if no entry outlives its deadline: the clock has passed none of the
deadlines, every entry has a duty that is due by then, and the duties are attended to in their
order. Every change that an operation or a duty makes keeps that up.
-/

namespace Caching

variable {K V : Type}

/-- An agenda that runs and stands at the instant. -/
structure Agenda.IsOrderly {B : Type} (now : Instant) (a : Agenda B) : Prop where
  running : a.stopped = false
  clock : a.clock.now = .ok now
  ordered : InOrder a.queue
  /-- Handles were given out before they were cancelled. -/
  cancelled_lt : ∀ handle ∈ a.cancelled, handle.id < a.nextHandle

namespace Agenda.IsOrderly

variable {B : Type} {now : Instant} {a b : Agenda B}

/-- An agenda without entries is orderly, as long as its clock can be read. -/
theorem ofClock {clock : Clock} (hnow : clock.now = .ok now) :
    (Agenda.ofClock clock : Agenda B).IsOrderly now :=
  ⟨rfl, hnow, List.Pairwise.nil, fun _ hhandle ↦ absurd hhandle List.not_mem_nil⟩

/-- Booking keeps an agenda orderly. -/
theorem booked (h : a.IsOrderly now) (due : Option Instant) (job : Job B) :
    (a.booked due job).IsOrderly now := by
  have hcancelled (handle : Handle) (hmem : handle ∈ a.cancelled) :
      handle.id < a.nextHandle + 1 :=
    Nat.lt_succ_of_lt (h.cancelled_lt handle hmem)
  cases due with
  | none => exact ⟨h.running, h.clock, h.ordered, hcancelled⟩
  | some due => exact ⟨h.running, h.clock, h.ordered.insertEntry _, hcancelled⟩

/-- Cancelling handles that were given out keeps an agenda orderly. -/
theorem cancelled (h : a.IsOrderly now) {cancelled : List Handle}
    (hcancelled : ∀ handle ∈ cancelled, handle.id < a.nextHandle) :
    ({ a with cancelled } : Agenda B).IsOrderly now :=
  ⟨h.running, h.clock, h.ordered, hcancelled⟩

/-- Taking the first entry keeps an agenda orderly. All others are due no earlier. -/
theorem take (h : a.IsOrderly now) {target : Option Instant} {live : Bool} {e : Entry B}
    (htake : a.take? target = some (live, e, b)) :
    b.IsOrderly (if now ≤ e.due then e.due else now) ∧ ∀ other ∈ a.queue, e.due ≤ other.due := by
  obtain ⟨_, hqueue, _, _, journal, hb⟩ := take?_eq_some htake
  have hordered := h.ordered
  rw [hqueue] at hordered
  obtain ⟨hfirst, hrest⟩ := List.pairwise_cons.mp hordered
  constructor
  · rw [hb]
    exact ⟨h.running, Clock.now_advanceTo h.clock e.due, hrest, h.cancelled_lt⟩
  · rw [hqueue]
    intro other hother
    rcases List.mem_cons.mp hother with rfl | hother
    · exact Int.le_refl _
    · exact hfirst other hother

end Agenda.IsOrderly

namespace Timed

variable [DecidableEq K]

/-- What the slots tell is right: stamps are those of different writes, and each deadline is that of
a write or a read that has taken place. -/
structure Dated (x : Expiry) (now : Instant) (s : Timed K V) : Prop where
  expiry : s.expiry = some x
  distinct : Keyed.Distinct s.entries
  stamp_lt : ∀ key slot, s.find? key = some slot → slot.stamp < s.nextStamp
  stamp_inj : ∀ key other slot slot', s.find? key = some slot → s.find? other = some slot' →
    slot.stamp = slot'.stamp → key = other
  /-- The clock has not passed the deadline, and a write or a read now would not put it forward. -/
  timely : ∀ key slot deadline, s.find? key = some slot → slot.deadline = some deadline →
    now ≤ deadline ∧ deadline.nanos ≤ now.nanos + x.time.nanos
  /-- Without a deadline, a write or a read now would not give one. -/
  lasting : ∀ key slot, s.find? key = some slot → slot.deadline = none → now.add? x.time = none

namespace Dated

variable {x : Expiry} {now : Instant} {s s' : Timed K V} {key : K}

private theorem erase (h : Dated x now s) (key : K) : Dated x now (s.erase key) := by
  refine ⟨h.expiry, h.distinct.erase key, ?_, ?_, ?_, ?_⟩
  · intro other slot hslot
    exact h.stamp_lt other slot (find?_of_erase hslot).2
  · intro k other slot slot' hslot hslot'
    exact h.stamp_inj k other slot slot' (find?_of_erase hslot).2 (find?_of_erase hslot').2
  · intro other slot deadline hslot
    exact h.timely other slot deadline (find?_of_erase hslot).2
  · intro other slot hslot
    exact h.lasting other slot (find?_of_erase hslot).2

/-- Another slot under a key tells what is right if its stamp is new or stays, and if its deadline
is that of a use now or stays. -/
theorem set (h : Dated x now s) {slot : Slot V} {nextStamp : Nat}
    (hnext : s.nextStamp ≤ nextStamp) (hstamp : slot.stamp < nextStamp)
    (hothers : ∀ other slot', other ≠ key → s.find? other = some slot' →
      slot'.stamp ≠ slot.stamp)
    (hdeadline : slot.deadline = now.add? x.time ∨
      ∃ old, s.find? key = some old ∧ slot.deadline = old.deadline) :
    Dated x now { s.set key slot with nextStamp } := by
  have hcases (other : K) (slot' : Slot V)
      (hslot' : ({ s.set key slot with nextStamp } : Timed K V).find? other = some slot') :
      (other = key ∧ slot' = slot) ∨ (other ≠ key ∧ s.find? other = some slot') :=
    find?_of_set hslot'
  refine ⟨h.expiry, h.distinct.insert key slot, ?_, ?_, ?_, ?_⟩
  · intro other slot' hslot'
    rcases hcases other slot' hslot' with ⟨_, rfl⟩ | ⟨_, hbefore⟩
    · exact hstamp
    · exact Nat.lt_of_lt_of_le (h.stamp_lt other slot' hbefore) hnext
  · intro k other slot₁ slot₂ hslot₁ hslot₂ hsame
    rcases hcases k slot₁ hslot₁ with ⟨hk, rfl⟩ | ⟨hk, hbefore₁⟩
    · rcases hcases other slot₂ hslot₂ with ⟨ho, _⟩ | ⟨ho, hbefore₂⟩
      · exact hk.trans ho.symm
      · exact absurd hsame.symm (hothers other slot₂ ho hbefore₂)
    · rcases hcases other slot₂ hslot₂ with ⟨_, rfl⟩ | ⟨_, hbefore₂⟩
      · exact absurd hsame (hothers k slot₁ hk hbefore₁)
      · exact h.stamp_inj k other slot₁ slot₂ hbefore₁ hbefore₂ hsame
  · intro other slot' deadline hslot' hsome
    rcases hcases other slot' hslot' with ⟨_, rfl⟩ | ⟨_, hbefore⟩
    · rcases hdeadline with hnow | ⟨old, hold, hkept⟩
      · rw [hnow, Instant.add?_eq_some_iff] at hsome
        rw [Instant.le_iff]
        omega
      · exact h.timely key old deadline hold (hkept.symm.trans hsome)
    · exact h.timely other slot' deadline hbefore hsome
  · intro other slot' hslot' hnone
    rcases hcases other slot' hslot' with ⟨_, rfl⟩ | ⟨_, hbefore⟩
    · rcases hdeadline with hnow | ⟨old, hold, hkept⟩
      · exact hnow.symm.trans hnone
      · exact h.lasting key old hold (hkept.symm.trans hnone)
    · exact h.lasting other slot' hbefore hnone

private theorem renew (h : Dated x now s) {slot old : Slot V} (hfind : s.find? key = some old)
    (hstamp : slot.stamp = old.stamp)
    (hdeadline : slot.deadline = now.add? x.time ∨ slot.deadline = old.deadline) :
    Dated x now (s.set key slot) := by
  have hlt : slot.stamp < s.nextStamp := by
    rw [hstamp]
    exact h.stamp_lt key old hfind
  refine h.set (Nat.le_refl s.nextStamp) hlt ?_ ?_
  · intro other slot' hne hslot' hsame
    exact hne (h.stamp_inj other key slot' old hslot' hfind (hsame.trans hstamp))
  · rcases hdeadline with hnow | hold
    · exact .inl hnow
    · exact .inr ⟨old, hfind, hold⟩

/-- Time may pass up to the first deadline. -/
theorem later (h : Dated x now s) {later : Instant} (hle : now ≤ later)
    (hdeadlines : ∀ key slot deadline, s.find? key = some slot → slot.deadline = some deadline →
      later ≤ deadline) : Dated x later s := by
  refine ⟨h.expiry, h.distinct, h.stamp_lt, h.stamp_inj, ?_, ?_⟩
  · intro key slot deadline hslot hsome
    have htimely := h.timely key slot deadline hslot hsome
    rw [Instant.le_iff] at hle
    exact ⟨hdeadlines key slot deadline hslot hsome, by omega⟩
  · intro key slot hslot hnone
    have hlasting := h.lasting key slot hslot hnone
    cases hadd : later.add? x.time with
    | none => rfl
    | some instant =>
      have hsum := Instant.add?_eq_some_iff.mp hadd
      have hbound := instant.nanos_lt
      rw [Instant.le_iff] at hle
      have hfits : now.nanos + x.time.nanos < instantBound := by omega
      obtain ⟨b, hb⟩ := Instant.exists_add? hfits
      rw [hlasting] at hb
      cases hb

/-- Without entries there is nothing to tell. -/
theorem nil (hexpiry : s.expiry = some x) (hentries : s.entries = []) : Dated x now s := by
  have hnone (key : K) (slot : Slot V) : s.find? key ≠ some slot := by
    rw [Timed.find?, hentries]
    intro h
    cases h
  refine ⟨hexpiry, ?_, ?_, ?_, ?_, ?_⟩
  · rw [hentries]
    exact Keyed.distinct_nil
  · intro key slot hslot
    exact absurd hslot (hnone key slot)
  · intro key _ slot _ hslot
    exact absurd hslot (hnone key slot)
  · intro key slot _ hslot
    exact absurd hslot (hnone key slot)
  · intro key slot hslot
    exact absurd hslot (hnone key slot)

end Dated

/-- The cache keeps time on an agenda that it was given, but that the duty of an exempt key is open.
-/
structure KeepsTime (x : Expiry) (exempt : K → Prop) (now : Instant)
    (w : Running (Timed K V) K V) : Prop where
  supplied : w.supplied = true
  dated : Dated x now w.store
  orderly : w.agenda.IsOrderly now
  matched : Matched exempt w.store w.agenda

namespace KeepsTime

variable {x : Expiry} {exempt : K → Prop} {now : Instant} {w : Running (Timed K V) K V} {key : K}
  {slot : Slot V}

/-- The instant of an operation is that of the agenda. -/
theorem reading (h : KeepsTime x exempt now w) : Engine.reading w = .ok now := by
  simp only [Engine.reading, h.dated.expiry, h.orderly.clock]

private theorem deadlineFrom (h : KeepsTime x exempt now w) :
    w.store.deadlineFrom now = now.add? x.time := by
  rw [Timed.deadlineFrom, h.dated.expiry, Option.bind_some]

/-- Whatever has lapsed has its deadline right now. -/
theorem deadline_of_isLapsed (h : KeepsTime x exempt now w)
    (hfind : w.store.find? key = some slot) (hlapsed : slot.isLapsed now = true) :
    slot.deadline = some now := by
  unfold Slot.isLapsed at hlapsed
  cases hd : slot.deadline with
  | none => simp only [hd, Bool.false_eq_true] at hlapsed
  | some deadline =>
    rw [hd] at hlapsed
    have hle := Instant.le_iff.mp (of_decide_eq_true hlapsed)
    have hge := Instant.le_iff.mp (h.dated.timely key slot deadline hfind hd).1
    rw [Option.some.injEq, Instant.ext_iff]
    omega

private theorem withdraw (h : KeepsTime x nobody now w) (hfind : w.store.find? key = some slot) :
    KeepsTime x (· = key) now (disarm slot w) := by
  obtain ⟨cancelled, hwithdraw, hmem⟩ := slot.withdraw_eq w.agenda
  rw [disarm_eq]
  refine ⟨h.supplied, h.dated, ?_, h.matched.withdraw hfind⟩
  dsimp only
  rw [hwithdraw]
  apply h.orderly.cancelled
  intro handle hhandle
  rcases (hmem handle).mp hhandle with htimer | hbefore
  · exact h.matched.handle_lt key slot handle hfind htimer
  · exact h.orderly.cancelled_lt handle hbefore

private theorem takeOut (h : KeepsTime x nobody now w) (key : K) :
    KeepsTime x nobody now (takeOut now key w).2 := by
  rw [Timed.takeOut]
  cases hfind : w.store.find? key with
  | none => exact h
  | some slot =>
    have hopen := h.withdraw hfind
    dsimp only
    rw [disarm_eq] at hopen ⊢
    exact ⟨hopen.supplied, hopen.dated.erase key, hopen.orderly, hopen.matched.erase⟩

private theorem write (h : KeepsTime x (· = key) now w) (value : V) :
    KeepsTime x nobody now (write now key value w) := by
  rw [write_eq key w h.dated.expiry h.orderly.clock h.orderly.running]
  refine ⟨h.supplied, ?_, h.orderly.booked _ _, ?_⟩
  · apply h.dated.set (Nat.le_succ _) (Nat.lt_succ_self _)
    · intro other slot' _ hslot' hstamp
      exact Nat.ne_of_lt (h.dated.stamp_lt other slot' hslot') hstamp
    · exact .inl rfl
  · have hbook : Matched nobody
        (w.store.set key ⟨value, w.store.nextStamp, now.add? x.time, some ⟨w.agenda.nextHandle⟩⟩)
        (w.agenda.booked (now.add? x.time) (.once (.lapse key w.store.nextStamp))) :=
      h.matched.book h.orderly.cancelled_lt rfl
        fun deadline hdeadline ↦ ⟨deadline, hdeadline, Int.le_refl _⟩
    exact hbook.of_entries rfl

private theorem disarm_write (h : KeepsTime x nobody now w) (hfind : w.store.find? key = some slot)
    (value : V) :
    disarm slot (Timed.write now key value w) = Timed.write now key value (disarm slot w) := by
  have hopen := h.withdraw hfind
  rw [write_eq key _ hopen.dated.expiry hopen.orderly.clock hopen.orderly.running,
    write_eq key w h.dated.expiry h.orderly.clock h.orderly.running, disarm_eq, disarm_eq]
  obtain ⟨cancelled, hwithdraw, _⟩ := slot.withdraw_eq w.agenda
  dsimp only
  rw [Slot.withdraw_booked, hwithdraw]

private theorem writeOver (h : KeepsTime x nobody now w) (key : K) (value : V) :
    KeepsTime x nobody now (writeOver now key value w).2 := by
  rw [Timed.writeOver]
  cases hfind : w.store.find? key with
  | none =>
    have hopen := h.matched.open_of_find?_eq_none hfind
    exact KeepsTime.write ⟨h.supplied, h.dated, h.orderly, hopen⟩ value
  | some slot =>
    dsimp only
    rw [h.disarm_write hfind]
    exact (h.withdraw hfind).write value

private theorem readOut (h : KeepsTime x nobody now w) (hfind : w.store.find? key = some slot) :
    KeepsTime x nobody now (readOut now key slot w) := by
  rw [Timed.readOut, h.deadlineFrom]
  split
  · refine ⟨h.supplied, h.dated.renew hfind rfl (.inl rfl), h.orderly, ?_⟩
    apply h.matched.pushBack hfind
    intro later hlater
    cases hd : slot.deadline with
    | none =>
      -- The deadline was out of range, and one that starts later is out of range as well.
      rw [h.dated.lasting key slot hfind hd] at hlater
      cases hlater
    | some deadline =>
      have htimely := h.dated.timely key slot deadline hfind hd
      rw [Instant.add?_eq_some_iff] at hlater
      refine ⟨deadline, rfl, ?_⟩
      rw [Instant.le_iff]
      omega
  · exact h

/-- A deed keeps time. -/
theorem carryOut (h : KeepsTime x nobody now w) (key : K) (deed : Deed V) :
    KeepsTime x nobody now (carryOut now key deed w).2 := by
  unfold Timed.carryOut
  split
  · exact h
  · exact h
  · next hlive => exact h.readOut (live?_eq_some_iff.mp hlive).1
  · exact h
  · exact h.takeOut key
  · exact h.takeOut key
  · exact h.takeOut key
  · exact h.writeOver key _

/-- The duty of a slot keeps time again, once it was open as it came due. -/
theorem comeDue (h : KeepsTime x (· = key) now w) (hfind : w.store.find? key = some slot) :
    KeepsTime x nobody now (comeDue key slot.stamp w).2 := by
  rw [Timed.comeDue, h.orderly.clock, hfind]
  simp only [if_true]
  cases hd : slot.deadline with
  | none =>
    refine ⟨h.supplied, h.dated, h.orderly, h.matched.close ?_⟩
    intro slot' hslot'
    obtain rfl := Option.some.inj (hfind.symm.trans hslot')
    exact hd
  | some deadline =>
    dsimp only
    by_cases hle : deadline ≤ now
    · rw [if_pos hle]
      exact ⟨h.supplied, h.dated.erase key, h.orderly, h.matched.erase⟩
    · rw [if_neg hle, arm_eq key w h.dated.expiry h.orderly.clock h.orderly.running hfind]
      have hadd : now.add? (deadline.since now) = some deadline := by
        have hsince := Instant.nanos_since deadline now
        rw [Instant.le_iff] at hle
        rw [Instant.add?_eq_some_iff]
        omega
      refine ⟨h.supplied, h.dated.renew hfind rfl (.inr rfl), h.orderly.booked _ _, ?_⟩
      apply h.matched.book h.orderly.cancelled_lt rfl
      intro deadline' hdeadline'
      obtain rfl := Option.some.inj (hd.symm.trans hdeadline')
      exact ⟨deadline, hadd, Int.le_refl _⟩

/-- The end of a cache keeps time: nothing is left to be done in time. -/
theorem teardown (h : KeepsTime x nobody now w) : KeepsTime x nobody now (Engine.teardown w) := by
  obtain ⟨cancelled, hends, hmem⟩ := teardown_eq w
  have hfind (e : K × Slot V) (he : e ∈ w.store.entries) : w.store.find? e.1 = some e.2 :=
    (Keyed.find?_eq_some_iff h.dated.distinct).mpr he
  have hkept : endSchedule { w with
      store := { w.store with entries := [] }
      agenda := { w.agenda with cancelled } } = _ := endSchedule_of_supplied h.supplied
  rw [hends, hkept]
  refine ⟨h.supplied, .nil h.dated.expiry rfl, ?_, .nil rfl ?_⟩
  · apply h.orderly.cancelled
    intro handle hhandle
    rcases (hmem handle).mp hhandle with ⟨e, he, htimer⟩ | hbefore
    · exact h.matched.handle_lt e.1 e.2 handle (hfind e he) htimer
    · exact h.orderly.cancelled_lt handle hbefore
  · refine duties_cancelled hmem ?_
    intro key stamp e he
    obtain ⟨_, slot, hslot, _, htimer⟩ := h.matched.owned key stamp e he
    exact ⟨slot, hslot, htimer⟩

end KeepsTime

end Timed

end Caching
