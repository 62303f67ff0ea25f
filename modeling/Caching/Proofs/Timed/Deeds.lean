import Caching.Cache.Factory
import Caching.Engine.Timed
import Caching.Proofs.Agenda.Laws
import Caching.Proofs.Engine.Keyed
import Caching.Proofs.Engine.Lawful

/-!
# Deeds of the timed engine

What each deed does to the entries and to the duties that are scheduled for them. An entry that is
taken out after its deadline is said to have expired, whatever took it out. A cache starts without
entries, on the executor that it is given.
-/

namespace Caching

variable {K V : Type}

/-- Cancels the duty of a slot. -/
def Slot.withdraw (slot : Slot V) (a : Agenda (Duty K V)) : Agenda (Duty K V) :=
  match slot.timer with
  | some handle => a.cancel handle
  | none => a

namespace Slot

variable (slot : Slot V) (a : Agenda (Duty K V))

/-- Withdrawing cancels no other handle, and changes nothing else. -/
theorem withdraw_eq : ∃ cancelled, slot.withdraw a = { a with cancelled } ∧
    ∀ handle, handle ∈ cancelled ↔ slot.timer = some handle ∨ handle ∈ a.cancelled := by
  unfold withdraw
  cases slot.timer with
  | none =>
    refine ⟨a.cancelled, rfl, ?_⟩
    intro other
    simp only [reduceCtorEq, false_or]
  | some handle =>
    obtain ⟨cancelled, hcancel, hmem⟩ := a.cancel_eq handle
    refine ⟨cancelled, hcancel, ?_⟩
    intro other
    rw [Option.some.injEq, @eq_comm _ handle]
    exact hmem other

/-- Withdrawing does not touch what is booked. -/
theorem withdraw_booked (due : Option Instant) (job : Job (Duty K V)) :
    slot.withdraw (a.booked due job) = (slot.withdraw a).booked due job := by
  unfold withdraw
  cases slot.timer with
  | none => rfl
  | some handle =>
    have hsame : (a.booked due job).isCancelled handle = a.isCancelled handle := by
      obtain ⟨queue, nextSeq, hbooked⟩ := a.booked_eq due job
      rw [hbooked]
      rfl
    dsimp only
    unfold Agenda.cancel
    rw [hsame]
    by_cases hcancelled : a.isCancelled handle = true
    · rw [if_pos hcancelled, if_pos hcancelled]
    · rw [if_neg hcancelled, if_neg hcancelled]
      cases due <;> rfl

end Slot

namespace Timed

/-- Cancelling the duty of a slot changes the agenda only. -/
theorem disarm_eq (slot : Slot V) (w : Running (Timed K V) K V) :
    disarm slot w = { w with agenda := slot.withdraw w.agenda } := by
  unfold disarm Slot.withdraw
  cases slot.timer <;> rfl

private theorem foldl_disarm_eq (entries : List (K × Slot V)) (w : Running (Timed K V) K V) :
    ∃ cancelled, entries.foldl (fun w e ↦ disarm e.2 w) w =
        { w with agenda := { w.agenda with cancelled } } ∧
      ∀ handle, handle ∈ cancelled ↔
        (∃ e ∈ entries, e.2.timer = some handle) ∨ handle ∈ w.agenda.cancelled := by
  induction entries generalizing w with
  | nil =>
    refine ⟨w.agenda.cancelled, rfl, ?_⟩
    intro handle
    simp only [List.not_mem_nil, false_and, exists_false, false_or]
  | cons e rest ih =>
    obtain ⟨first, hfirst, hmem⟩ := e.2.withdraw_eq w.agenda
    obtain ⟨cancelled, hrest, hmem'⟩ := ih (disarm e.2 w)
    refine ⟨cancelled, ?_, ?_⟩
    · rw [List.foldl_cons, hrest, disarm_eq, hfirst]
    · intro handle
      rw [hmem', disarm_eq, hfirst, hmem]
      simp only [List.mem_cons, exists_eq_or_imp, or_left_comm, or_assoc]

variable [DecidableEq K]

/-- What is told of an entry that leaves: a lapsed one has expired, any other one left for the given
cause. -/
def removal (now : Instant) (key : K) (cause : RemovalCause) (slot : Slot V) : Removal K V :=
  ⟨key, slot.value, if slot.isLapsed now then .expired else cause⟩

/-- Takes out what is stored under a key, and cancels its duty. -/
def takeOut (now : Instant) (key : K) (w : Running (Timed K V) K V) :
    List (Removal K V) × Running (Timed K V) K V :=
  match w.store.find? key with
  | some slot =>
    ([removal now key .explicit slot], disarm slot { w with store := w.store.erase key })
  | none => ([], w)

/-- Writes a value, and cancels the duty of what was stored under the key. -/
def writeOver (now : Instant) (key : K) (value : V) (w : Running (Timed K V) K V) :
    List (Removal K V) × Running (Timed K V) K V :=
  match w.store.find? key with
  | some slot => ([removal now key .replaced slot], disarm slot (write now key value w))
  | none => ([], write now key value w)

/-- A read, which may restart the time of the entry. -/
def readOut (now : Instant) (key : K) (slot : Slot V) (w : Running (Timed K V) K V) :
    Running (Timed K V) K V :=
  if w.store.resetsOnRead then
    { w with store := w.store.set key { slot with deadline := w.store.deadlineFrom now } }
  else w

/-- What a deed changes, and the removals to be told. Whoever looks for an entry and finds it lapsed
takes it out, but for a mere look and a change that was given up. -/
def carryOut (now : Instant) (key : K) (deed : Deed V) (w : Running (Timed K V) K V) :
    List (Removal K V) × Running (Timed K V) K V :=
  match deed, w.store.live? now key with
  | .ignore, _ | .abandon, _ => ([], w)
  | .read, some slot => ([], readOut now key slot w)
  | .keep, some _ => ([], w)
  | .read, none | .keep, none | .remove, _ => takeOut now key w
  | .store value, _ => writeOver now key value w

/-- What the duty of an entry changes, and the removals to be told. -/
def comeDue (key : K) (stamp : Nat) (w : Running (Timed K V) K V) :
    List (Removal K V) × Running (Timed K V) K V :=
  match w.agenda.clock.now, w.store.find? key with
  | .ok now, some slot =>
    if slot.stamp = stamp then
      match slot.deadline with
      | some deadline =>
        if deadline ≤ now then
          ([⟨key, slot.value, .expired⟩], { w with store := w.store.erase key })
        else ([], arm key stamp (deadline.since now) w)
      | none => ([], w)
    else ([], w)
  | _, _ => ([], w)

/-- An entry lives exactly until it has lapsed. -/
theorem live?_eq_some_iff {s : Timed K V} {now : Instant} {key : K}
    {slot : Slot V} :
    s.live? now key = some slot ↔ s.find? key = some slot ∧ slot.isLapsed now = false := by
  simp only [live?, Option.filter_eq_some_iff, Bool.not_eq_eq_eq_not, Bool.not_true]

/-- Whether what is stored lives. -/
theorem live?_of_find? {s : Timed K V} {key : K} {slot : Slot V} (h : s.find? key = some slot)
    (now : Instant) : s.live? now key = if slot.isLapsed now then none else some slot := by
  cases hl : slot.isLapsed now <;> simp [live?, h, hl]

/-- Nothing lives where nothing is stored. -/
theorem live?_of_find?_eq_none {s : Timed K V} {key : K} (h : s.find? key = none)
    (now : Instant) : s.live? now key = none := by
  rw [live?, h, Option.filter_none]

section

variable (report : Report (Timed K V) K V) (now : Instant) (key : K) (w : Running (Timed K V) K V)

omit [DecidableEq K] in
private theorem retire_eq (cause : RemovalCause) (slot : Slot V) :
    retire report now key cause slot w =
      (if slot.isLapsed now then none else some slot.value,
        Running.settle report ([removal now key cause slot], disarm slot w)) := by
  cases h : slot.isLapsed now <;> simp [retire, removal, Running.settle, h]

/-- A removal answers the live value. -/
theorem drop_eq : drop report now key w =
    ((w.store.live? now key).map Slot.value, Running.settle report (takeOut now key w)) := by
  cases h : w.store.find? key with
  | none => simp only [drop, takeOut, live?_of_find?_eq_none h, h]; rfl
  | some slot =>
    simp only [drop, takeOut, h, retire_eq, live?_of_find? h]
    split <;> rfl

private theorem expire_eq :
    expire report now key w = Running.settle report (carryOut now key .keep w) := by
  cases h : w.store.find? key with
  | none => simp only [expire, carryOut, takeOut, live?_of_find?_eq_none h, h]; rfl
  | some slot =>
    simp only [expire, carryOut, live?_of_find? h, h, drop_eq]
    cases slot.isLapsed now <;> rfl

/-- A write answers the live value. -/
theorem overwrite_eq (value : V) : overwrite report now key value w =
    ((w.store.live? now key).map Slot.value,
      Running.settle report (carryOut now key (.store value) w)) := by
  cases h : w.store.find? key with
  | none => simp only [overwrite, carryOut, writeOver, live?_of_find?_eq_none h, h]; rfl
  | some slot =>
    simp only [overwrite, carryOut, writeOver, h, retire_eq, live?_of_find? h]
    split <;> rfl

/-- The duty of an entry. -/
theorem lapseEntry_eq (stamp : Nat) :
    lapseEntry report key stamp w = Running.settle report (comeDue key stamp w) := by
  rw [lapseEntry, comeDue]
  cases w.agenda.clock.now with
  | error abort => rfl
  | ok now =>
    cases w.store.find? key with
    | none => rfl
    | some slot =>
      by_cases hs : slot.stamp = stamp
      · simp only [if_pos hs]
        cases slot.deadline with
        | none => rfl
        | some deadline =>
          by_cases hd : deadline ≤ now
          · simp only [if_pos hd]; rfl
          · simp only [if_neg hd]; rfl
      · simp only [if_neg hs]; rfl

end

section

variable (key : K) (w : Running (Timed K V) K V)

omit [DecidableEq K] in
/-- Cancelling a duty leaves the store as it is. -/
@[simp]
theorem store_disarm (slot : Slot V) : (disarm slot w).store = w.store := by
  rw [disarm_eq]

/-- Taking out erases the entry of the key and no other one. -/
theorem entries_takeOut (now : Instant) :
    (takeOut now key w).2.store.entries = Keyed.erase key w.store.entries := by
  rw [takeOut]
  cases h : w.store.find? key with
  | none => exact (Keyed.erase_of_find?_eq_none h).symm
  | some slot => rw [store_disarm]; rfl

/-- Scheduling a duty puts its handle into the slot, at most. -/
theorem store_arm (stamp : Nat) (delay : Duration) : (arm key stamp delay w).store = w.store ∨
    ∃ slot timer, w.store.find? key = some slot ∧
      (arm key stamp delay w).store = w.store.set key { slot with timer } := by
  rw [arm]
  split
  · next slot _ _ hfind =>
    split
    · exact .inr ⟨slot, _, hfind, rfl⟩
    · exact .inl rfl
  · exact .inl rfl
  · exact .inl rfl

/-- While time can be told, arming schedules the duty and puts its handle into the slot. -/
theorem arm_eq {e : Expiry} (hexpiry : w.store.expiry = some e) {now : Instant}
    (hnow : w.agenda.clock.now = .ok now) (hstopped : w.agenda.stopped = false) {slot : Slot V}
    (hfind : w.store.find? key = some slot) (delay : Duration) :
    arm key slot.stamp delay w =
      { w with
        store := w.store.set key { slot with timer := some ⟨w.agenda.nextHandle⟩ }
        agenda := w.agenda.booked (now.add? delay) (.once (.lapse key slot.stamp)) } := by
  have hsubmit := Agenda.submit_eq hnow hstopped delay (.once (.lapse key slot.stamp))
  rw [arm, Agenda.schedule, hexpiry, hsubmit, hfind]
  exact if_pos rfl

/-- A write puts a slot with a new stamp under the key. -/
theorem store_write (now : Instant) (value : V) : ∃ timer, (write now key value w).store =
    { w.store with
      entries := Keyed.insert key ⟨value, w.store.nextStamp, w.store.deadlineFrom now, timer⟩
        w.store.entries
      nextStamp := w.store.nextStamp + 1 } := by
  rw [write]
  cases w.store.expiry with
  | none => exact ⟨none, rfl⟩
  | some e =>
    obtain hsame | ⟨slot, timer, hfind, harmed⟩ := store_arm key
      { w with store := { w.store.set key ⟨value, w.store.nextStamp, w.store.deadlineFrom now, none⟩
        with nextStamp := w.store.nextStamp + 1 } } w.store.nextStamp e.time
    · exact ⟨none, hsame⟩
    · have hslot : some _ = some slot := (Keyed.find?_insert_self key _ _).symm.trans hfind
      obtain rfl := Option.some.inj hslot
      refine ⟨timer, harmed.trans ?_⟩
      simp only [set, Keyed.insert_insert]

/-- While time can be told, a write schedules the duty of its slot. -/
theorem write_eq {e : Expiry} (hexpiry : w.store.expiry = some e) {now : Instant}
    (hnow : w.agenda.clock.now = .ok now) (hstopped : w.agenda.stopped = false) (value : V) :
    write now key value w =
      { w with
        store := { w.store.set key ⟨value, w.store.nextStamp, now.add? e.time,
            some ⟨w.agenda.nextHandle⟩⟩ with nextStamp := w.store.nextStamp + 1 }
        agenda :=
          w.agenda.booked (now.add? e.time) (.once (.lapse key w.store.nextStamp)) } := by
  have hdeadline : w.store.deadlineFrom now = now.add? e.time := by
    rw [deadlineFrom, hexpiry, Option.bind_some]
  have hfind : (w.store.set key ⟨value, w.store.nextStamp, now.add? e.time, none⟩).find? key =
      some ⟨value, w.store.nextStamp, now.add? e.time, none⟩ :=
    Keyed.find?_insert_self key _ _
  rw [write, hdeadline, hexpiry]
  have harm := arm_eq key { w with
    store := { w.store.set key ⟨value, w.store.nextStamp, now.add? e.time, none⟩ with
      nextStamp := w.store.nextStamp + 1 } } hexpiry hnow hstopped hfind e.time
  refine harm.trans ?_
  simp only [set, Keyed.insert_insert]

omit [DecidableEq K] in
private theorem disarm_frames (slot : Slot V) : w.Frames (disarm slot w) := by
  rw [disarm_eq]
  exact w.frames_of_store _ _

private theorem arm_frames (stamp : Nat) (delay : Duration) : w.Frames (arm key stamp delay w) := by
  rw [arm]
  split
  · split
    · exact w.frames_of_store _ _
    · exact w.frames_of_store _ _
  · exact w.frames_of_store _ _
  · exact .refl w

private theorem write_frames (now : Instant) (value : V) : w.Frames (write now key value w) := by
  rw [write]
  cases w.store.expiry with
  | none => exact w.frames_of_store _ w.agenda
  | some e => exact (w.frames_of_store _ w.agenda).trans (arm_frames key _ _ _)

private theorem takeOut_frames (now : Instant) : w.Frames (takeOut now key w).2 := by
  rw [takeOut]
  cases w.store.find? key with
  | none => exact .refl w
  | some slot => exact (w.frames_of_store _ w.agenda).trans (disarm_frames _ slot)

/-- A deed changes the store and the agenda. -/
theorem carryOut_frames (now : Instant) (deed : Deed V) :
    w.Frames (carryOut now key deed w).2 := by
  unfold carryOut
  split
  · exact .refl w
  · exact .refl w
  · rw [readOut]
    split
    · exact w.frames_of_store _ w.agenda
    · exact .refl w
  · exact .refl w
  · exact takeOut_frames key w now
  · exact takeOut_frames key w now
  · exact takeOut_frames key w now
  · rw [writeOver]
    cases w.store.find? key with
    | none => exact write_frames key w now _
    | some slot => exact (write_frames key w now _).trans (disarm_frames _ slot)

/-- The duty of an entry changes the store and the agenda. -/
theorem comeDue_frames (stamp : Nat) : w.Frames (comeDue key stamp w).2 := by
  rw [comeDue]
  split
  · split
    · split
      · split
        · exact w.frames_of_store _ w.agenda
        · exact arm_frames key w stamp _
      · exact .refl w
    · exact .refl w
  · exact .refl w

end

/-- The end of a cache cancels the duties of its slots and leaves no entries, and it ends the
schedule that the cache keeps for itself. -/
theorem teardown_eq (w : Running (Timed K V) K V) :
    ∃ cancelled, Engine.teardown w = endSchedule { w with
        store := { w.store with entries := [] }
        agenda := { w.agenda with cancelled } } ∧
      ∀ handle, handle ∈ cancelled ↔
        (∃ e ∈ w.store.entries, e.2.timer = some handle) ∨ handle ∈ w.agenda.cancelled := by
  obtain ⟨cancelled, hdisarmed, hmem⟩ := foldl_disarm_eq w.store.entries w
  refine ⟨cancelled, ?_, hmem⟩
  simp only [Engine.teardown, hdisarmed]

omit [DecidableEq K] in
/-- A supplied executor is not a schedule of the cache's own. -/
theorem endSchedule_of_supplied {w : Running (Timed K V) K V} (h : w.supplied = true) :
    endSchedule w = w := by
  have hgiven : ¬ ownsSchedule w = true := by
    rw [ownsSchedule, h]
    simp
  rw [endSchedule, if_neg hgiven]

/-- The end of a cache leaves no entries. -/
theorem store_teardown (w : Running (Timed K V) K V) :
    (Engine.teardown w).store = { w.store with entries := [] } := by
  obtain ⟨cancelled, hends, _⟩ := teardown_eq w
  rw [hends, endSchedule]
  split <;> rfl

/-- The end of a cache changes the store, the agenda and the log. -/
theorem teardown_frames (w : Running (Timed K V) K V) : w.Frames (Engine.teardown w) := by
  obtain ⟨cancelled, hends, _⟩ := teardown_eq w
  rw [hends, endSchedule]
  split
  · exact ⟨_, _, _, rfl⟩
  · exact ⟨_, _, _, rfl⟩

instance : LawfulEngine (Timed K V) K V where
  current? now key w := (w.store.live? now key).map Slot.value
  carry := carryOut
  stale now w := w.store.lapsedKeys now
  count w := w.store.entries.length
  sweep w := ([], w)
  remaining w := w.store.entries.map Prod.fst
  lapsed := comeDue
  carry_ignore _ _ _ := rfl
  get_eq report now key w := by
    simp only [Engine.get, carryOut]
    cases h : w.store.live? now key with
    | none => simp [expire_eq, carryOut, h]
    | some slot =>
      simp only [readOut, Option.map_some, Running.settle, Running.tell_nil]
      split <;> rfl
  put_eq report now key value w := overwrite_eq report now key w value
  putIfAbsent_eq report now key value w := by
    simp only [Engine.putIfAbsent, overwrite_eq]
    cases h : w.store.live? now key with
    | none => rfl
    | some slot => simp [carryOut, h, Running.settle]
  replace_eq report now key value w := by
    simp only [Engine.replace, overwrite_eq, expire_eq]
    cases h : w.store.live? now key <;> rfl
  alter_eq report now key decide w := by
    simp only [Engine.alter, expire_eq, overwrite_eq, drop_eq]
    rcases decide ((w.store.live? now key).map Slot.value) with abort | (_ | value | _) <;> rfl
  remove_eq report now key w := drop_eq report now key w
  containsKey_eq now key w := by simp [Engine.containsKey]
  size_eq report now w := by simp only [Engine.size, expire_eq]
  clear_eq report now w := by
    simp only [Engine.clear, drop_eq]
    rfl
  lapse_eq report key stamp w := lapseEntry_eq report key w stamp
  upkeep_eq _ _ := rfl
  carry_frames now key deed w := carryOut_frames key w now deed
  sweep_frames w := ⟨w.store, w.agenda, w.log, rfl⟩
  lapsed_frames key stamp w := comeDue_frames key w stamp
  teardown_frames := teardown_frames

section

variable {spec : CacheSpec K V}

omit [DecidableEq K] in
/-- A cache that the factory builds starts without entries. -/
theorem start_of_buildTimed {host : Host} {cache : Running (Timed K V) K V}
    {log : List LogEntry} (h : Factory.buildTimed spec host = (.ok ⟨.timed, cache⟩, log)) :
    cache = Running.start (empty spec.engineExpiry) .dashMap spec host.clock := by
  rw [Factory.buildTimed] at h
  split at h
  · cases h
  · cases h
    rfl

omit [DecidableEq K] in
/-- A cache starts on the executor that it is given. -/
theorem agenda_start {executor : Agenda (Duty K V)} (h : spec.executor = some executor)
    (s : Timed K V) (provider : Provider) (host : Clock) :
    (Running.start s provider spec host).agenda = executor := by
  rw [Running.start, h, Option.getD_some]

end

end Timed

end Caching
