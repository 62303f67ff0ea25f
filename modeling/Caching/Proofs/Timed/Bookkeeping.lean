import Caching.Proofs.Timed.Deeds

/-!
# The books of slots and duties

Slots and duties know each other: a slot keeps the handle of its duty, and a duty the key and the
stamp of its slot. The books match if every slot with a deadline has one duty that is due in time,
and every duty that was not cancelled has a slot. Between two steps of a change the duty of one key
may be open: there is none, whether or not there should be one.
-/

namespace Caching

variable {K V : Type} [DecidableEq K]

/-- The entry is the duty of the slot that was written under the key with the stamp. -/
def Entry.isDutyOf (key : K) (stamp : Nat) (e : Entry (Duty K V)) : Bool :=
  match e.job.body with
  | .lapse k n => decide (k = key) && decide (n = stamp)
  | .upkeep | .errand _ => false

/-- The duties of a slot that wait on the agenda and were not cancelled. -/
def Agenda.duties (a : Agenda (Duty K V)) (key : K) (stamp : Nat) : List (Entry (Duty K V)) :=
  a.queue.filter fun e ↦ e.isDutyOf key stamp && !a.isCancelled e.handle

/-- Whose duty an entry is. -/
theorem Entry.isDutyOf_iff {key : K} {stamp : Nat} {e : Entry (Duty K V)} :
    e.isDutyOf key stamp = true ↔ e.job.body = .lapse key stamp := by
  rw [isDutyOf]
  cases e.job.body <;> simp

namespace Agenda

variable {a b : Agenda (Duty K V)} {key : K} {stamp : Nat} {e : Entry (Duty K V)}

/-- A duty waits and was not cancelled. -/
theorem mem_duties :
    e ∈ a.duties key stamp ↔ e ∈ a.queue ∧ e.job.body = .lapse key stamp ∧
      e.handle ∉ a.cancelled := by
  simp [duties, Entry.isDutyOf_iff, isCancelled]

/-- Cancelling a handle takes the duties that go by it. -/
theorem duties_cancel (a : Agenda (Duty K V)) (handle : Handle) (key : K) (stamp : Nat) :
    (a.cancel handle).duties key stamp =
      (a.duties key stamp).filter fun e ↦ decide (e.handle ≠ handle) := by
  rw [duties, duties, queue_cancel, List.filter_filter]
  apply List.filter_congr
  intro e _
  rw [isCancelled_cancel, Bool.not_or, ← decide_not, Bool.and_left_comm]

/-- A duty that is put on the agenda is one more. -/
theorem duties_insert {e : Entry (Duty K V)} (hqueue : b.queue = insertEntry e a.queue)
    (hcancelled : b.cancelled = a.cancelled) (key : K) (stamp : Nat) :
    (b.duties key stamp).Perm
      (if e.isDutyOf key stamp && !a.isCancelled e.handle then e :: a.duties key stamp
        else a.duties key stamp) := by
  have hp := (insertEntry_perm e a.queue).filter fun e ↦
    e.isDutyOf key stamp && !a.isCancelled e.handle
  rw [List.filter_cons] at hp
  simp only [duties, hqueue, isCancelled_congr hcancelled]
  exact hp

private theorem duties_insert_duty {e : Entry (Duty K V)} (hqueue : b.queue = insertEntry e a.queue)
    (hcancelled : b.cancelled = a.cancelled) (hlive : a.isCancelled e.handle = false)
    (hbody : e.job.body = .lapse key stamp) :
    (b.duties key stamp).Perm (e :: a.duties key stamp) ∧
      ∀ other n, ¬ (other = key ∧ n = stamp) → (b.duties other n).Perm (a.duties other n) := by
  constructor
  · have hp := duties_insert hqueue hcancelled key stamp
    rw [Entry.isDutyOf_iff.mpr hbody, hlive] at hp
    exact hp
  · intro other n hne
    have hnot : ¬ e.isDutyOf other n = true := by
      rw [Entry.isDutyOf_iff, hbody, Duty.lapse.injEq]
      intro heq
      exact hne ⟨heq.1.symm, heq.2.symm⟩
    have hp := duties_insert hqueue hcancelled other n
    rw [Bool.not_eq_true] at hnot
    rw [hnot] at hp
    exact hp

private theorem duties_congr (hqueue : b.queue = a.queue) (hcancelled : b.cancelled = a.cancelled)
    (key : K) (stamp : Nat) : b.duties key stamp = a.duties key stamp := by
  simp only [duties, hqueue, isCancelled_congr hcancelled]

/-- An entry that leaves the agenda is one less, if it was a duty. -/
theorem duties_take {e : Entry (Duty K V)} (hqueue : a.queue = e :: b.queue)
    (hcancelled : b.cancelled = a.cancelled) (key : K) (stamp : Nat) :
    a.duties key stamp =
      if e.isDutyOf key stamp && !a.isCancelled e.handle then e :: b.duties key stamp
      else b.duties key stamp := by
  simp only [duties, hqueue, List.filter_cons, isCancelled_congr hcancelled]

end Agenda

namespace Slot

variable (slot : Slot V) (a : Agenda (Duty K V))

/-- Withdrawing takes the duty that the slot knows. -/
theorem mem_duties_withdraw {key : K} {stamp : Nat} {e : Entry (Duty K V)} :
    e ∈ (slot.withdraw a).duties key stamp ↔
      e ∈ a.duties key stamp ∧ slot.timer ≠ some e.handle := by
  unfold withdraw
  cases slot.timer with
  | none => simp only [ne_eq, reduceCtorEq, not_false_eq_true, and_true]
  | some handle =>
    rw [Agenda.duties_cancel, List.mem_filter]
    simp only [decide_eq_true_eq, ne_eq, Option.some.injEq, @eq_comm _ handle]

private theorem length_duties_withdraw_le (key : K) (stamp : Nat) :
    ((slot.withdraw a).duties key stamp).length ≤ (a.duties key stamp).length := by
  unfold withdraw
  cases slot.timer with
  | none => exact Nat.le_refl _
  | some handle =>
    rw [Agenda.duties_cancel]
    exact List.length_filter_le _ _

end Slot

namespace Timed

section

variable (s : Timed K V)

/-- Nothing is under a key that was erased. -/
@[simp]
theorem find?_erase_self (key : K) : (s.erase key).find? key = none :=
  Keyed.find?_erase_self key s.entries

/-- Erasing a key leaves the others as they are. -/
theorem find?_erase_of_ne {key other : K} (h : other ≠ key) :
    (s.erase key).find? other = s.find? other :=
  Keyed.find?_erase_of_ne h s.entries

/-- What was put under a key is found. -/
@[simp]
theorem find?_set_self (key : K) (slot : Slot V) : (s.set key slot).find? key = some slot :=
  Keyed.find?_insert_self key slot s.entries

/-- Putting something under a key leaves the others as they are. -/
theorem find?_set_of_ne {key other : K} (h : other ≠ key) (slot : Slot V) :
    (s.set key slot).find? other = s.find? other :=
  Keyed.find?_insert_of_ne h slot s.entries

end

/-- What is found after erasing a key was found before. -/
theorem find?_of_erase {s : Timed K V} {key other : K} {slot : Slot V}
    (h : (s.erase key).find? other = some slot) : other ≠ key ∧ s.find? other = some slot := by
  have hne : other ≠ key := by
    intro hk
    rw [hk, find?_erase_self] at h
    cases h
  rw [find?_erase_of_ne s hne] at h
  exact ⟨hne, h⟩

/-- What is found after putting a slot under a key is that slot, or was found before. -/
theorem find?_of_set {s : Timed K V} {key other : K} {slot slot' : Slot V}
    (h : (s.set key slot).find? other = some slot') :
    (other = key ∧ slot' = slot) ∨ (other ≠ key ∧ s.find? other = some slot') := by
  by_cases hk : other = key
  · rw [hk, find?_set_self, Option.some.injEq] at h
    exact .inl ⟨hk, h.symm⟩
  · rw [find?_set_of_ne s hk] at h
    exact .inr ⟨hk, h⟩

/-- If every duty is known to a slot, none is left once the handles of all slots are cancelled. -/
theorem duties_cancelled {s : Timed K V} {a : Agenda (Duty K V)} {cancelled : List Handle}
    (hmem : ∀ handle, handle ∈ cancelled ↔
      (∃ e ∈ s.entries, e.2.timer = some handle) ∨ handle ∈ a.cancelled)
    (howned : ∀ key stamp, ∀ e ∈ a.duties key stamp, ∃ slot, s.find? key = some slot ∧
      slot.timer = some e.handle) (key : K) (stamp : Nat) :
    ({ a with cancelled } : Agenda (Duty K V)).duties key stamp = [] := by
  apply List.eq_nil_iff_forall_not_mem.mpr
  intro e he
  obtain ⟨hqueue, hbody, hlive⟩ := Agenda.mem_duties.mp he
  have hbefore : e ∈ a.duties key stamp := by
    refine Agenda.mem_duties.mpr ⟨hqueue, hbody, ?_⟩
    intro hin
    exact hlive ((hmem e.handle).mpr (.inr hin))
  obtain ⟨slot, hslot, htimer⟩ := howned key stamp e hbefore
  exact hlive ((hmem e.handle).mpr (.inl ⟨(key, slot), Keyed.mem_of_find? hslot, htimer⟩))

/-- The books match, but that the duty of an exempt key is open. -/
structure Matched (exempt : K → Prop) (s : Timed K V) (a : Agenda (Duty K V)) : Prop where
  /-- Handles were given out before they got into a slot. -/
  handle_lt : ∀ key slot handle, s.find? key = some slot → slot.timer = some handle →
    handle.id < a.nextHandle
  handle_inj : ∀ key other slot slot' handle, s.find? key = some slot →
    s.find? other = some slot' → slot.timer = some handle → slot'.timer = some handle →
    key = other
  single : ∀ key stamp, (a.duties key stamp).length ≤ 1
  /-- Duties are not repeated. -/
  once : ∀ key stamp, ∀ e ∈ a.duties key stamp, e.job = .once (.lapse key stamp)
  owned : ∀ key stamp, ∀ e ∈ a.duties key stamp, ¬ exempt key ∧
    ∃ slot, s.find? key = some slot ∧ slot.stamp = stamp ∧ slot.timer = some e.handle
  armed : ∀ key slot deadline, s.find? key = some slot → slot.deadline = some deadline →
    ¬ exempt key → ∃ e ∈ a.duties key slot.stamp, e.due ≤ deadline

/-- No key is exempt. -/
def nobody : K → Prop := fun _ ↦ False

namespace Matched

variable {exempt : K → Prop} {s s' : Timed K V} {a b : Agenda (Duty K V)} {key : K}

/-- Cancelling the duty of a slot leaves it open. -/
theorem withdraw (h : Matched nobody s a) {slot : Slot V} (hfind : s.find? key = some slot) :
    Matched (· = key) s (slot.withdraw a) := by
  have hnext : (slot.withdraw a).nextHandle = a.nextHandle := by
    obtain ⟨cancelled, hwithdraw, _⟩ := slot.withdraw_eq a
    rw [hwithdraw]
  constructor
  · rw [hnext]
    exact h.handle_lt
  · exact h.handle_inj
  · intro other stamp
    exact Nat.le_trans (slot.length_duties_withdraw_le a other stamp) (h.single other stamp)
  · intro other stamp e he
    exact h.once other stamp e ((slot.mem_duties_withdraw a).mp he).1
  · intro other stamp e he
    obtain ⟨hmem, hother⟩ := (slot.mem_duties_withdraw a).mp he
    obtain ⟨_, slot', hfind', hstamp, htimer⟩ := h.owned other stamp e hmem
    refine ⟨?_, slot', hfind', hstamp, htimer⟩
    intro hk
    rw [hk, hfind, Option.some.injEq] at hfind'
    rw [hfind'] at hother
    exact hother htimer
  · intro other slot' deadline hfind' hdeadline hne
    obtain ⟨e, hmem, hdue⟩ := h.armed other slot' deadline hfind' hdeadline not_false
    refine ⟨e, (slot.mem_duties_withdraw a).mpr ⟨hmem, ?_⟩, hdue⟩
    -- The cancelled handle is that of one slot only, so the duties of the others go on.
    intro htimer
    obtain ⟨_, slot₂, hfind₂, _, htimer₂⟩ := h.owned other slot'.stamp e hmem
    exact hne (h.handle_inj other key slot₂ slot e.handle hfind₂ hfind htimer₂ htimer)

/-- Without a slot under it, the duty of a key is as good as open. -/
theorem open_of_find?_eq_none (h : Matched nobody s a) (hfind : s.find? key = none) :
    Matched (· = key) s a := by
  refine ⟨h.handle_lt, h.handle_inj, h.single, h.once, ?_, ?_⟩
  · intro other stamp e he
    obtain ⟨_, slot, hslot, hrest⟩ := h.owned other stamp e he
    refine ⟨?_, slot, hslot, hrest⟩
    intro hk
    rw [hk, hfind] at hslot
    cases hslot
  · intro other slot deadline hslot hdeadline _
    exact h.armed other slot deadline hslot hdeadline not_false

/-- Without a deadline under it, the open duty of a key need not be. -/
theorem close (h : Matched (· = key) s a)
    (hnone : ∀ slot, s.find? key = some slot → slot.deadline = none) : Matched nobody s a := by
  refine ⟨h.handle_lt, h.handle_inj, h.single, h.once, ?_, ?_⟩
  · intro other stamp e he
    obtain ⟨_, hslot⟩ := h.owned other stamp e he
    exact ⟨not_false, hslot⟩
  · intro other slot deadline hslot hdeadline _
    refine h.armed other slot deadline hslot hdeadline ?_
    intro hk
    rw [hk] at hslot
    rw [hnone slot hslot] at hdeadline
    cases hdeadline

/-- A key whose duty is open may be erased. -/
theorem erase (h : Matched (· = key) s a) : Matched nobody (s.erase key) a := by
  constructor
  · intro other slot handle hslot
    exact h.handle_lt other slot handle (find?_of_erase hslot).2
  · intro k other slot slot' handle hslot hslot'
    exact h.handle_inj k other slot slot' handle (find?_of_erase hslot).2
      (find?_of_erase hslot').2
  · exact h.single
  · exact h.once
  · intro other stamp e he
    obtain ⟨hne, slot, hslot, hrest⟩ := h.owned other stamp e he
    refine ⟨not_false, slot, ?_, hrest⟩
    rw [find?_erase_of_ne s hne]
    exact hslot
  · intro other slot deadline hslot hdeadline _
    obtain ⟨hne, hslot⟩ := find?_of_erase hslot
    exact h.armed other slot deadline hslot hdeadline hne

private theorem duties_of_exempt (h : Matched exempt s a) (hexempt : exempt key) (stamp : Nat) :
    a.duties key stamp = [] := by
  apply List.eq_nil_iff_forall_not_mem.mpr
  intro e he
  exact (h.owned key stamp e he).1 hexempt

/-- Only the duties matter, and which handles were given out. -/
theorem congr (h : Matched exempt s a) (hnext : a.nextHandle ≤ b.nextHandle)
    (hduties : ∀ key stamp, (b.duties key stamp).Perm (a.duties key stamp)) :
    Matched exempt s b := by
  constructor
  · intro key slot handle hslot htimer
    exact Nat.lt_of_lt_of_le (h.handle_lt key slot handle hslot htimer) hnext
  · exact h.handle_inj
  · intro key stamp
    rw [(hduties key stamp).length_eq]
    exact h.single key stamp
  · intro key stamp e he
    exact h.once key stamp e ((hduties key stamp).mem_iff.mp he)
  · intro key stamp e he
    exact h.owned key stamp e ((hduties key stamp).mem_iff.mp he)
  · intro key slot deadline hslot hdeadline hexempt
    obtain ⟨e, he, hdue⟩ := h.armed key slot deadline hslot hdeadline hexempt
    exact ⟨e, (hduties key slot.stamp).mem_iff.mpr he, hdue⟩

/-- Only the entries of the store matter. -/
theorem of_entries (h : Matched exempt s a) (hentries : s'.entries = s.entries) :
    Matched exempt s' a := by
  have hfind (key : K) : s'.find? key = s.find? key := by rw [find?, find?, hentries]
  constructor
  · intro key slot handle hslot
    exact h.handle_lt key slot handle ((hfind key).symm.trans hslot)
  · intro key other slot slot' handle hslot hslot'
    exact h.handle_inj key other slot slot' handle ((hfind key).symm.trans hslot)
      ((hfind other).symm.trans hslot')
  · exact h.single
  · exact h.once
  · intro key stamp e he
    rw [hfind]
    exact h.owned key stamp e he
  · intro key slot deadline hslot
    exact h.armed key slot deadline ((hfind key).symm.trans hslot)

/-- Another slot under a key, which is the only one that may be exempt, closes the books if its
duties do. -/
theorem set (h : Matched exempt s a) (hexempt : ∀ other, exempt other → other = key)
    {slot : Slot V} (hnext : a.nextHandle ≤ b.nextHandle)
    (htimer : ∀ handle, slot.timer = some handle → handle.id < b.nextHandle ∧
      ∀ other slot', other ≠ key → s.find? other = some slot' → slot'.timer ≠ some handle)
    (hothers : ∀ other stamp, other ≠ key → (b.duties other stamp).Perm (a.duties other stamp))
    (hsingle : ∀ stamp, (b.duties key stamp).length ≤ 1)
    (honce : ∀ stamp, ∀ e ∈ b.duties key stamp, e.job = .once (.lapse key stamp))
    (howned : ∀ stamp, ∀ e ∈ b.duties key stamp,
      slot.stamp = stamp ∧ slot.timer = some e.handle)
    (harmed : ∀ deadline, slot.deadline = some deadline →
      ∃ e ∈ b.duties key slot.stamp, e.due ≤ deadline) :
    Matched nobody (s.set key slot) b := by
  constructor
  · intro other slot' handle hslot' htimer'
    rcases find?_of_set hslot' with ⟨_, rfl⟩ | ⟨_, hbefore⟩
    · exact (htimer handle htimer').1
    · exact Nat.lt_of_lt_of_le (h.handle_lt other slot' handle hbefore htimer') hnext
  · intro k other slot₁ slot₂ handle hslot₁ hslot₂ htimer₁ htimer₂
    rcases find?_of_set hslot₁ with ⟨hk, rfl⟩ | ⟨hk, hbefore₁⟩
    · rcases find?_of_set hslot₂ with ⟨ho, _⟩ | ⟨ho, hbefore₂⟩
      · exact hk.trans ho.symm
      · exact absurd htimer₂ ((htimer handle htimer₁).2 other slot₂ ho hbefore₂)
    · rcases find?_of_set hslot₂ with ⟨_, rfl⟩ | ⟨_, hbefore₂⟩
      · exact absurd htimer₁ ((htimer handle htimer₂).2 k slot₁ hk hbefore₁)
      · exact h.handle_inj k other slot₁ slot₂ handle hbefore₁ hbefore₂ htimer₁ htimer₂
  · intro other stamp
    by_cases hk : other = key
    · rw [hk]
      exact hsingle stamp
    · rw [(hothers other stamp hk).length_eq]
      exact h.single other stamp
  · intro other stamp e he
    by_cases hk : other = key
    · rw [hk] at he ⊢
      exact honce stamp e he
    · exact h.once other stamp e ((hothers other stamp hk).mem_iff.mp he)
  · intro other stamp e he
    refine ⟨not_false, ?_⟩
    by_cases hk : other = key
    · rw [hk] at he ⊢
      exact ⟨slot, find?_set_self s key slot, howned stamp e he⟩
    · obtain ⟨_, slot', hslot', hrest⟩ :=
        h.owned other stamp e ((hothers other stamp hk).mem_iff.mp he)
      refine ⟨slot', ?_, hrest⟩
      rw [find?_set_of_ne s hk]
      exact hslot'
  · intro other slot' deadline hslot' hdeadline _
    rcases find?_of_set hslot' with ⟨hk, rfl⟩ | ⟨hk, hbefore⟩
    · rw [hk]
      exact harmed deadline hdeadline
    · obtain ⟨e, he, hdue⟩ :=
        h.armed other slot' deadline hbefore hdeadline fun he ↦ hk (hexempt other he)
      exact ⟨e, (hothers other slot'.stamp hk).mem_iff.mpr he, hdue⟩

private theorem fresh_timer (h : Matched exempt s a) {slot : Slot V}
    (htimer : slot.timer = some ⟨a.nextHandle⟩) (handle : Handle)
    (hhandle : slot.timer = some handle) :
    handle.id < a.nextHandle + 1 ∧
      ∀ other slot', other ≠ key → s.find? other = some slot' → slot'.timer ≠ some handle := by
  rw [htimer, Option.some.injEq] at hhandle
  rw [← hhandle]
  refine ⟨Nat.lt_succ_self _, ?_⟩
  intro other slot' _ hslot' htimer'
  exact Nat.lt_irrefl _ (h.handle_lt other slot' ⟨a.nextHandle⟩ hslot' htimer')

private theorem setLasting (h : Matched (· = key) s a) {slot : Slot V}
    (hdeadline : slot.deadline = none)
    (htimer : slot.timer = some ⟨a.nextHandle⟩) (hnext : b.nextHandle = a.nextHandle + 1)
    (hqueue : b.queue = a.queue) (hcancels : b.cancelled = a.cancelled) :
    Matched nobody (s.set key slot) b := by
  have hsame := Agenda.duties_congr hqueue hcancels
  have hnone (stamp : Nat) : b.duties key stamp = [] := by
    rw [hsame]
    exact h.duties_of_exempt rfl stamp
  apply h.set (fun _ hother ↦ hother)
  · omega
  · rw [hnext]
    exact h.fresh_timer htimer
  · intro other stamp _
    rw [hsame]
  · intro stamp
    rw [hnone]
    exact Nat.zero_le 1
  · intro stamp e he
    rw [hnone] at he
    cases he
  · intro stamp e he
    rw [hnone] at he
    cases he
  · intro deadline hsome
    rw [hdeadline] at hsome
    cases hsome

private theorem setArmed (h : Matched (· = key) s a)
    (hcancelled : ∀ handle ∈ a.cancelled, handle.id < a.nextHandle) {slot : Slot V}
    {e : Entry (Duty K V)} (hdue : ∀ deadline, slot.deadline = some deadline → e.due ≤ deadline)
    (htimer : slot.timer = some ⟨a.nextHandle⟩) (hnext : b.nextHandle = a.nextHandle + 1)
    (hqueue : b.queue = Agenda.insertEntry e a.queue) (hcancels : b.cancelled = a.cancelled)
    (hhandle : e.handle = ⟨a.nextHandle⟩) (hjob : e.job = .once (.lapse key slot.stamp)) :
    Matched nobody (s.set key slot) b := by
  have hlive : a.isCancelled e.handle = false := by
    rw [hhandle, Bool.eq_false_iff]
    intro hmem
    exact Nat.lt_irrefl _ (hcancelled _ (List.contains_iff_mem.mp hmem))
  have hbody : e.job.body = .lapse key slot.stamp := by rw [hjob, Job.body]
  obtain ⟨hnew, hold⟩ := Agenda.duties_insert_duty hqueue hcancels hlive hbody
  have hnone := h.duties_of_exempt rfl
  rw [hnone] at hnew
  have honly (stamp : Nat) (e' : Entry (Duty K V)) (he' : e' ∈ b.duties key stamp) :
      stamp = slot.stamp ∧ e' = e := by
    by_cases hs : stamp = slot.stamp
    · rw [hs, hnew.mem_iff, List.mem_singleton] at he'
      exact ⟨hs, he'⟩
    · rw [(hold key stamp fun heq ↦ hs heq.2).mem_iff, hnone] at he'
      cases he'
  apply h.set (fun _ hother ↦ hother)
  · omega
  · rw [hnext]
    exact h.fresh_timer htimer
  · intro other stamp hne
    exact hold other stamp fun heq ↦ hne heq.1
  · intro stamp
    by_cases hs : stamp = slot.stamp
    · rw [hs, hnew.length_eq]
      exact Nat.le_refl 1
    · rw [(hold key stamp fun heq ↦ hs heq.2).length_eq, hnone]
      exact Nat.zero_le 1
  · intro stamp e' he'
    obtain ⟨rfl, rfl⟩ := honly stamp e' he'
    exact hjob
  · intro stamp e' he'
    obtain ⟨rfl, rfl⟩ := honly stamp e' he'
    rw [hhandle]
    exact ⟨rfl, htimer⟩
  · intro deadline hdeadline
    exact ⟨e, hnew.mem_iff.mpr List.mem_cons_self, hdue deadline hdeadline⟩

/-- A slot whose duty is booked closes the books, unless it has a deadline and its duty is too late
for that. -/
theorem book (h : Matched (· = key) s a)
    (hcancelled : ∀ handle ∈ a.cancelled, handle.id < a.nextHandle) {slot : Slot V}
    (htimer : slot.timer = some ⟨a.nextHandle⟩) {due : Option Instant}
    (hdue : ∀ deadline, slot.deadline = some deadline → ∃ d, due = some d ∧ d ≤ deadline) :
    Matched nobody (s.set key slot) (a.booked due (.once (.lapse key slot.stamp))) := by
  cases due with
  | none =>
    have hnone : slot.deadline = none := by
      cases hd : slot.deadline with
      | none => rfl
      | some deadline =>
        obtain ⟨d, hsome, _⟩ := hdue deadline hd
        cases hsome
    exact h.setLasting hnone htimer rfl rfl rfl
  | some due =>
    have hintime (deadline : Instant) (hd : slot.deadline = some deadline) : due ≤ deadline := by
      obtain ⟨d, hsome, hle⟩ := hdue deadline hd
      rw [Option.some.inj hsome]
      exact hle
    exact h.setArmed hcancelled hintime htimer rfl rfl rfl rfl rfl

/-- A deadline that is pushed back leaves the books matched, as its duty still comes in time. -/
theorem pushBack (h : Matched nobody s a) {slot : Slot V} (hfind : s.find? key = some slot)
    {deadline : Option Instant}
    (hlater : ∀ later, deadline = some later → ∃ d, slot.deadline = some d ∧ d ≤ later) :
    Matched nobody (s.set key { slot with deadline }) a := by
  apply h.set (fun _ hother ↦ hother.elim) (Nat.le_refl _)
  · intro handle htimer
    refine ⟨h.handle_lt key slot handle hfind htimer, ?_⟩
    intro other slot' hne hslot' htimer'
    exact hne (h.handle_inj other key slot' slot handle hslot' hfind htimer' htimer)
  · intro other stamp _
    exact List.Perm.refl _
  · exact h.single key
  · exact h.once key
  · intro stamp e he
    obtain ⟨_, slot', hslot', hrest⟩ := h.owned key stamp e he
    rw [hfind, Option.some.injEq] at hslot'
    rw [hslot']
    exact hrest
  · intro later hsome
    obtain ⟨d, hd, hle⟩ := hlater later hsome
    obtain ⟨e, he, hdue⟩ := h.armed key slot d hfind hd not_false
    refine ⟨e, he, ?_⟩
    rw [Instant.le_iff] at *
    omega

/-- An entry that leaves the agenda and is nobody's duty leaves the books matched. -/
theorem takeOther (h : Matched exempt s a) {e : Entry (Duty K V)}
    (hqueue : a.queue = e :: b.queue) (hcancels : b.cancelled = a.cancelled)
    (hnext : b.nextHandle = a.nextHandle)
    (hother : a.isCancelled e.handle = true ∨ ∀ key stamp, e.job.body ≠ .lapse key stamp) :
    Matched exempt s b := by
  refine h.congr (Nat.le_of_eq hnext.symm) ?_
  intro key stamp
  have hnot : (e.isDutyOf key stamp && !a.isCancelled e.handle) = false := by
    rcases hother with hcancelled | hbody
    · rw [hcancelled, Bool.not_true, Bool.and_false]
    · rw [Bool.and_eq_false_iff, Bool.eq_false_iff]
      exact .inl fun hduty ↦ hbody key stamp (Entry.isDutyOf_iff.mp hduty)
  rw [Agenda.duties_take hqueue hcancels, hnot]
  exact List.Perm.refl _

/-- A duty that leaves the agenda is that of the slot under its key, and leaves the duty of the key
open. -/
theorem takeDuty (h : Matched nobody s a) {e : Entry (Duty K V)} {stamp : Nat}
    (hqueue : a.queue = e :: b.queue) (hcancels : b.cancelled = a.cancelled)
    (hnext : b.nextHandle = a.nextHandle) (hbody : e.job.body = .lapse key stamp)
    (hlive : a.isCancelled e.handle = false) :
    Matched (· = key) s b ∧ e.job = .once (.lapse key stamp) ∧
      ∃ slot, s.find? key = some slot ∧ slot.stamp = stamp := by
  have htake := Agenda.duties_take hqueue hcancels
  have hfirst : a.duties key stamp = e :: b.duties key stamp := by
    rw [htake, Entry.isDutyOf_iff.mpr hbody, hlive]
    rfl
  have hrest (other : K) (n : Nat) (e' : Entry (Duty K V)) (he' : e' ∈ b.duties other n) :
      e' ∈ a.duties other n := by
    rw [htake]
    split
    · exact List.mem_cons_of_mem e he'
    · exact he'
  have hmem : e ∈ a.duties key stamp := by
    rw [hfirst]
    exact List.mem_cons_self
  obtain ⟨_, slot, hslot, hstamp, _⟩ := h.owned key stamp e hmem
  refine ⟨?_, h.once key stamp e hmem, slot, hslot, hstamp⟩
  constructor
  · rw [hnext]
    exact h.handle_lt
  · exact h.handle_inj
  · intro other n
    have hle := h.single other n
    rw [htake] at hle
    split at hle
    · rw [List.length_cons] at hle
      omega
    · exact hle
  · intro other n e' he'
    exact h.once other n e' (hrest other n e' he')
  · intro other n e' he'
    obtain ⟨_, slot', hslot', hstamp', htimer'⟩ := h.owned other n e' (hrest other n e' he')
    refine ⟨?_, slot', hslot', hstamp', htimer'⟩
    intro hk
    -- A second duty of the key would be one of the same slot, which has only one.
    rw [hk, hslot, Option.some.injEq] at hslot'
    have hsame : n = stamp := by rw [← hstamp', ← hslot', hstamp]
    have hle := h.single key stamp
    rw [hk, hsame] at he'
    have hpos := List.length_pos_of_mem he'
    rw [hfirst, List.length_cons] at hle
    omega
  · intro other slot' deadline hslot' hdeadline hne
    obtain ⟨e', he', hdue⟩ := h.armed other slot' deadline hslot' hdeadline not_false
    refine ⟨e', ?_, hdue⟩
    have hnot : ¬ e.isDutyOf other slot'.stamp = true := by
      rw [Entry.isDutyOf_iff, hbody, Duty.lapse.injEq]
      exact fun heq ↦ hne heq.1.symm
    rw [Bool.not_eq_true] at hnot
    rw [htake, hnot] at he'
    exact he'

/-- Without slots and duties the books match. -/
theorem nil (hentries : s.entries = []) (hduties : ∀ key stamp, a.duties key stamp = []) :
    Matched nobody s a := by
  have hnone (key : K) (slot : Slot V) : s.find? key ≠ some slot := by
    rw [Timed.find?, hentries]
    exact nofun
  constructor
  · intro key slot _ hslot
    exact absurd hslot (hnone key slot)
  · intro key _ slot _ _ hslot
    exact absurd hslot (hnone key slot)
  · intro key stamp
    rw [hduties]
    exact Nat.zero_le 1
  · intro key stamp e he
    rw [hduties] at he
    cases he
  · intro key stamp e he
    rw [hduties] at he
    cases he
  · intro key slot _ hslot
    exact absurd hslot (hnone key slot)

end Matched

end Timed

end Caching
