import Caching.Proofs.Timed.Punctuality

/-!
# The timers of a cache

A cache with expiry that is given an executor and whose time passes on it only. Whatever happens,
every entry with a deadline has exactly one timer, and no timer outlives its entry. So entries
expire exactly at their deadlines.
-/

namespace Caching

variable {K V : Type} [DecidableEq K] [DecidableEq V]

namespace Timed

/-- The states that a cache comes to while time passes on its executor only. Those in the middle of
an operation and of an advance are among them, so that the listener, errands and others may act at
any of them. -/
inductive Reaches (start : Running (Timed K V) K V) : Running (Timed K V) K V → Prop where
  | start : Reaches start start
  /-- Somebody performs an operation, maybe in a call of the listener. -/
  | operate {w : Running (Timed K V) K V} (h : Reaches start w) (bound : Nat)
      (operation : Operation K V) :
      Reaches start (Running.performWith (Running.reportAt bound) operation w).2
  /-- A part of an operation is done, before the listener is told. -/
  | deed {w : Running (Timed K V) K V} (h : Reaches start w) {now : Instant}
      (hnow : Engine.reading w = .ok now) (key : K) (deed : Deed V) :
      Reaches start (carryOut now key deed w).2
  /-- A call of the listener starts or ends. -/
  | call {w : Running (Timed K V) K V} (h : Reaches start w) (dispatching : Nat)
      (listener : Option (Listener K V)) (heard : List (Heard K V)) (log : List LogEntry) :
      Reaches start { w with dispatching, listener, heard, log }
  /-- The last who used the cache lets go of it. -/
  | release {w : Running (Timed K V) K V} (h : Reaches start w) : Reaches start w.release
  /-- Time passes. -/
  | advance {w w' : Running (Timed K V) K V} (h : Reaches start w) {fuel : Nat} {d : Duration}
      {r : Except Abort Nat} (hadvance : w.advance fuel d = some (r, w')) : Reaches start w'
  /-- The turn of an entry comes that was cancelled, or is nobody's duty. -/
  | take {w : Running (Timed K V) K V} (h : Reaches start w) {target : Option Instant}
      {live : Bool} {e : Entry (Duty K V)} {a : Agenda (Duty K V)}
      (htake : w.agenda.take? target = some (live, e, a))
      (hother : w.agenda.isCancelled e.handle = true ∨
        ∀ key stamp, e.job.body ≠ .lapse key stamp) : Reaches start (withAgenda w a)
  /-- The turn of a duty comes, and it is done, before the listener is told. -/
  | duty {w : Running (Timed K V) K V} (h : Reaches start w) {target : Option Instant}
      {e : Entry (Duty K V)} {a : Agenda (Duty K V)}
      (htake : w.agenda.take? target = some (true, e, a)) {key : K} {stamp : Nat}
      (hbody : e.job.body = .lapse key stamp) :
      Reaches start (comeDue key stamp (withAgenda w a)).2
  /-- Somebody else schedules something on the executor. -/
  | schedule {w : Running (Timed K V) K V} (h : Reaches start w) {delay : Duration}
      {duty : Duty K V} (hother : ∀ key stamp, duty ≠ .lapse key stamp) {handle : Handle}
      {a : Agenda (Duty K V)} (hschedule : w.agenda.schedule delay duty = .ok (handle, a)) :
      Reaches start (withAgenda w a)
  /-- Somebody else starts a chain on the executor. -/
  | scheduleRepeating {w : Running (Timed K V) K V} (h : Reaches start w) {period : Duration}
      {duty : Duty K V} (hother : ∀ key stamp, duty ≠ .lapse key stamp) {handle : Handle}
      {a : Agenda (Duty K V)}
      (hschedule : w.agenda.scheduleRepeating period duty = .ok (handle, a)) :
      Reaches start (withAgenda w a)
  /-- Somebody else cancels what is not a duty of the cache. -/
  | cancel {w : Running (Timed K V) K V} (h : Reaches start w) {handle : Handle}
      (hgiven : handle.id < w.agenda.nextHandle)
      (hother : ∀ e ∈ w.agenda.queue, e.handle = handle → ∀ key stamp,
        e.job.body ≠ .lapse key stamp) : Reaches start (withAgenda w (w.agenda.cancel handle))

/-- Slots and timers match: stamps tell the slots apart, every slot with a deadline has one timer,
which it knows and which is due in time, and no timer is left of a slot that is not there. -/
structure TimersMatch (s : Timed K V) (a : Agenda (Duty K V)) : Prop where
  stamps_nodup : (s.entries.map fun e ↦ e.2.stamp).Nodup
  stamp_lt : ∀ e ∈ s.entries, e.2.stamp < s.nextStamp
  timer : ∀ key slot deadline, s.find? key = some slot → slot.deadline = some deadline →
    ∃ e, a.duties key slot.stamp = [e] ∧ slot.timer = some e.handle ∧ e.due ≤ deadline
  slot : ∀ key stamp, ∀ e ∈ a.duties key stamp, ∃ slot, s.find? key = some slot ∧
    slot.stamp = stamp ∧ slot.timer = some e.handle

namespace KeepsTime

variable {x : Expiry} {now : Instant} {w : Running (Timed K V) K V}

omit [DecidableEq V] in
/-- Slots and timers match as long as the cache keeps time. -/
theorem timersMatch (h : KeepsTime x nobody now w) : TimersMatch w.store w.agenda := by
  have hfind (e : K × Slot V) (he : e ∈ w.store.entries) : w.store.find? e.1 = some e.2 :=
    (Keyed.find?_eq_some_iff h.dated.distinct).mpr he
  constructor
  · apply List.pairwise_map.mpr
    apply List.Pairwise.imp_of_mem ?_ (List.pairwise_map.mp h.dated.distinct)
    intro e e' he he' hne hstamp
    exact hne (h.dated.stamp_inj e.1 e'.1 e.2 e'.2 (hfind e he) (hfind e' he') hstamp)
  · intro e he
    exact h.dated.stamp_lt e.1 e.2 (hfind e he)
  · intro key slot deadline hslot hdeadline
    obtain ⟨e, he, hdue⟩ := h.matched.armed key slot deadline hslot hdeadline not_false
    obtain ⟨_, slot', hslot', _, htimer⟩ := h.matched.owned key slot.stamp e he
    obtain rfl := Option.some.inj (hslot.symm.trans hslot')
    -- There is one duty by `armed` and no other one by `single`.
    have hle := h.matched.single key slot.stamp
    have hpos := List.length_pos_of_mem he
    obtain ⟨e', hsingle⟩ := List.length_eq_one_iff.mp (Nat.le_antisymm hle hpos)
    rw [hsingle, List.mem_singleton] at he
    rw [he] at hdue htimer
    exact ⟨e', hsingle, htimer, hdue⟩
  · intro key stamp e he
    exact (h.matched.owned key stamp e he).2

omit [DecidableEq V] in
private theorem scheduleRepeating (h : KeepsTime x nobody now w) {period : Duration}
    {duty : Duty K V}
    (hother : ∀ key stamp, duty ≠ .lapse key stamp) {handle : Handle} {a : Agenda (Duty K V)}
    (hschedule : w.agenda.scheduleRepeating period duty = .ok (handle, a)) :
    KeepsTime x nobody now (withAgenda w a) := by
  have hfresh : KeepsTime x nobody now (withAgenda w w.agenda.freshHandle.2) := by
    refine ⟨h.supplied, h.dated, ?_, ?_⟩
    · exact h.orderly.booked none (.once duty)
    · exact h.matched.congr (Nat.le_succ _) fun _ _ ↦ List.Perm.refl _
  simp only [Agenda.scheduleRepeating, Agenda.freshHandle] at hschedule
  cases harm : ({ w.agenda with nextHandle := w.agenda.nextHandle + 1 } : Agenda (Duty K V)).arm
      ⟨w.agenda.nextHandle⟩ period 1 duty with
  | error abort =>
    rw [harm] at hschedule
    cases hschedule
  | ok b =>
    rw [harm] at hschedule
    cases hschedule
    exact hfresh.arm harm hother

omit [DecidableEq V] in
private theorem cancel (h : KeepsTime x nobody now w) {handle : Handle}
    (hgiven : handle.id < w.agenda.nextHandle)
    (hother : ∀ e ∈ w.agenda.queue, e.handle = handle → ∀ key stamp,
      e.job.body ≠ .lapse key stamp) :
    KeepsTime x nobody now (withAgenda w (w.agenda.cancel handle)) := by
  obtain ⟨cancelled, hcancel, hmem⟩ := w.agenda.cancel_eq handle
  refine ⟨h.supplied, h.dated, ?_, ?_⟩
  · show (w.agenda.cancel handle).IsOrderly now
    rw [hcancel]
    apply h.orderly.cancelled
    intro other hin
    rcases (hmem other).mp hin with rfl | hbefore
    · exact hgiven
    · exact h.orderly.cancelled_lt other hbefore
  · have hnext : (w.agenda.cancel handle).nextHandle = w.agenda.nextHandle := by rw [hcancel]
    apply h.matched.congr (Nat.le_of_eq hnext.symm)
    intro key stamp
    show ((w.agenda.cancel handle).duties key stamp).Perm (w.agenda.duties key stamp)
    rw [Agenda.duties_cancel, List.filter_eq_self.mpr]
    intro e he
    obtain ⟨hqueue, hbody, _⟩ := Agenda.mem_duties.mp he
    apply decide_eq_true
    intro hhandle
    exact hother e hqueue hhandle key stamp hbody

/-- An operation takes a punctual course. -/
theorem performWith_course (h : KeepsTime x nobody now w) (bound : Nat)
    {operation : Operation K V} (hclose : operation ≠ .close) (hactive : w.phase = .active) :
    Running.Course (Punctual now) (Running.reportAt bound) w
      (operation.accepted (Running.performWith (Running.reportAt bound) operation w).1).toList
      (Running.performWith (Running.reportAt bound) operation w).2 := by
  have hcarry (key : K) (deed : Deed V) (w : Running (Timed K V) K V) (_ : True)
      (h : KeepsTime x nobody now w) :
      Punctual now w (deed.storedUnder key) (LawfulEngine.carry now key deed w).1
        (LawfulEngine.carry now key deed w).2 :=
    ⟨.carry key deed w, h.prompt_carryOut key deed⟩
  have hkept (key : K) (deed : Deed V) (w : Running (Timed K V) K V)
      (h : KeepsTime x nobody now w) :
      KeepsTime x nobody now
        (Running.settle (Running.reportAt bound) (LawfulEngine.carry now key deed w)) :=
    Running.tell_kept (fun removal _ h ↦ h.reportAt bound removal) _ (h.carryOut key deed)
  have hsweep (w : Running (Timed K V) K V) (_ : True) (_ : KeepsTime x nobody now w) :
      Punctual now w [] (LawfulEngine.sweep w).1 (LawfulEngine.sweep w).2 :=
    ⟨.sweep w, prompt_nil w w⟩
  refine Running.performWith_course hcarry hsweep hkept (fun _ h ↦ h) hclose h ?_ hactive h.reading
  exact ⟨fun _ _ ↦ trivial, fun _ ↦ trivial, fun _ ↦ trivial⟩

/-- A duty whose turn has come takes a punctual course. -/
theorem lapse_course (h : KeepsTime x nobody now w) (bound : Nat) {target : Option Instant}
    {e : Entry (Duty K V)} {a : Agenda (Duty K V)}
    (htake : w.agenda.take? target = some (true, e, a)) {key : K} {stamp : Nat}
    (hbody : e.job.body = .lapse key stamp) :
    ∃ later, a.clock.now = .ok later ∧
      Running.Course (Punctual later) (Running.reportAt bound) (withAgenda w a) []
        (Engine.lapse (Running.reportAt bound) key stamp (withAgenda w a)) := by
  obtain ⟨_, later, slot, _, hopen, hfind, hstamp⟩ := h.takeDuty htake hbody
  refine ⟨later, hopen.orderly.clock, ?_⟩
  rw [LawfulEngine.lapse_eq, ← hstamp]
  exact .single ⟨.lapsed key slot.stamp _, hopen.prompt_comeDue hfind⟩
    (LawfulEngine.lapsed_frames key slot.stamp _)

omit [DecidableEq V] in
/-- A cache keeps time when it starts on an executor that runs. -/
theorem start {spec : CacheSpec K V} (hexpiry : spec.engineExpiry = some x)
    {executor : Agenda (Duty K V)} (hexecutor : spec.executor = some executor)
    (horderly : executor.IsOrderly now)
    (hothers : ∀ e ∈ executor.queue, ∀ key stamp, e.job.body ≠ .lapse key stamp) (host : Clock) :
    KeepsTime x nobody now (Running.start (empty spec.engineExpiry) .dashMap spec host) := by
  have hagenda := agenda_start hexecutor (empty spec.engineExpiry) .dashMap host
  refine ⟨?_, .nil hexpiry rfl, ?_, .nil rfl ?_⟩
  · rw [Running.start, hexecutor, Option.isSome_some]
  · rw [hagenda]
    exact horderly
  · intro key stamp
    apply List.eq_nil_iff_forall_not_mem.mpr
    intro e he
    rw [hagenda] at he
    obtain ⟨hqueue, hbody, _⟩ := Agenda.mem_duties.mp he
    exact hothers e hqueue key stamp hbody

end KeepsTime

/-- A cache that keeps time goes on doing so. -/
theorem Reaches.keepsTime {x : Expiry} {start w : Running (Timed K V) K V}
    (hstart : ∃ now, KeepsTime x nobody now start) (h : Reaches start w) :
    ∃ now, KeepsTime x nobody now w := by
  induction h with
  | start => exact hstart
  | operate h bound operation ih =>
    obtain ⟨now, hkeeps⟩ := ih
    exact ⟨now, hkeeps.performWith (fun removal _ h ↦ h.reportAt bound removal) operation⟩
  | deed h hnow key deed ih =>
    obtain ⟨now, hkeeps⟩ := ih
    obtain rfl := Except.ok.inj (hkeeps.reading.symm.trans hnow)
    exact ⟨now, hkeeps.carryOut key deed⟩
  | call h dispatching listener heard log ih =>
    obtain ⟨now, hkeeps⟩ := ih
    exact ⟨now, hkeeps.records _ dispatching listener heard log⟩
  | release h ih =>
    obtain ⟨now, hkeeps⟩ := ih
    exact ⟨now, hkeeps.release⟩
  | advance h hadvance ih =>
    obtain ⟨now, hkeeps⟩ := ih
    obtain ⟨later, hlater, _⟩ := hkeeps.advance hadvance
    exact ⟨later, hlater⟩
  | take h htake hother ih =>
    obtain ⟨now, hkeeps⟩ := ih
    obtain ⟨later, _, hlater⟩ := hkeeps.takeOther htake hother
    exact ⟨later, hlater⟩
  | duty h htake hbody ih =>
    obtain ⟨now, hkeeps⟩ := ih
    obtain ⟨_, later, slot, _, hopen, hfind, hstamp⟩ := hkeeps.takeDuty htake hbody
    rw [← hstamp]
    exact ⟨later, hopen.comeDue hfind⟩
  | schedule h hother hschedule ih =>
    obtain ⟨now, hkeeps⟩ := ih
    exact ⟨now, hkeeps.submit hschedule hother⟩
  | scheduleRepeating h hother hschedule ih =>
    obtain ⟨now, hkeeps⟩ := ih
    exact ⟨now, hkeeps.scheduleRepeating hother hschedule⟩
  | cancel h hgiven hother ih =>
    obtain ⟨now, hkeeps⟩ := ih
    exact ⟨now, hkeeps.cancel hgiven hother⟩

/-- A cache with expiry that is given a running executor, on which alone its time passes, has its
timers right in every state: each entry with a deadline has exactly one, and none is left of an
entry that is gone. Whatever is done next, be it an operation or a duty whose turn has come, takes a
course of the engine's own changes, which tell of an expired entry just when the clock shows its
deadline. And once an advance has come to its end, every deadline lies ahead. -/
theorem timers_in_time {spec : CacheSpec K V} {host : Host} {cache : Running (Timed K V) K V}
    {log : List LogEntry} (hbuilt : Factory.buildTimed spec host = (.ok ⟨.timed, cache⟩, log))
    {expiry : Expiry} (hexpiry : spec.engineExpiry = some expiry) {executor : Agenda (Duty K V)}
    (hexecutor : spec.executor = some executor) {now : Instant} (horderly : executor.IsOrderly now)
    (hothers : ∀ e ∈ executor.queue, ∀ key stamp, e.job.body ≠ .lapse key stamp)
    {w : Running (Timed K V) K V} (h : Reaches cache w) :
    TimersMatch w.store w.agenda ∧
      (∃ now, Engine.reading w = .ok now ∧
        ∀ bound operation, operation ≠ .close → w.phase = .active →
          Running.Course (Punctual now) (Running.reportAt bound) w
            (operation.accepted (Running.performWith (Running.reportAt bound) operation w).1).toList
            (Running.performWith (Running.reportAt bound) operation w).2) ∧
      (∀ bound target e a key stamp, w.agenda.take? target = some (true, e, a) →
        e.job.body = .lapse key stamp →
        ∃ later, a.clock.now = .ok later ∧
          Running.Course (Punctual later) (Running.reportAt bound) (withAgenda w a) []
            (Engine.lapse (Running.reportAt bound) key stamp (withAgenda w a))) ∧
      ∀ fuel d count w', w.advance fuel d = some (.ok count, w') →
        ∃ now, w'.agenda.clock.now = .ok now ∧ ∀ key slot deadline,
          w'.store.find? key = some slot → slot.deadline = some deadline → now < deadline := by
  have hstart : ∃ now, KeepsTime expiry nobody now cache := by
    rw [start_of_buildTimed hbuilt]
    exact ⟨now, .start hexpiry hexecutor horderly hothers host.clock⟩
  obtain ⟨now', hkeeps⟩ := h.keepsTime hstart
  refine ⟨hkeeps.timersMatch, ⟨now', hkeeps.reading, ?_⟩, ?_, ?_⟩
  · intro bound operation hclose hactive
    exact hkeeps.performWith_course bound hclose hactive
  · intro bound target e a key stamp htake hbody
    exact hkeeps.lapse_course bound htake hbody
  · intro fuel d count w' hadvance
    obtain ⟨later, hlater, hahead⟩ := hkeeps.advance hadvance
    exact ⟨later, hlater.orderly.clock, hahead count rfl⟩

/-- A read after 60 of 100 nanoseconds leaves the value its timer, which comes too early then and is
set anew. After 100 more the value has expired. -/
theorem timers_in_time_after_read :
    let expiry : Expiry := ⟨true, ⟨100, by decide⟩⟩
    let first : Instant := ⟨0, by decide, by decide⟩
    let executor : Agenda (Duty Nat Nat) := .ofClock (.ofStart first)
    let spec : CacheSpec Nat Nat :=
      ⟨some .dashMap, none, .postAccess, some expiry.time, some ⟨[], fun _ ↦ none⟩, some executor,
        false⟩
    let cache : Running (Timed Nat Nat) Nat Nat :=
      Running.start (empty spec.engineExpiry) .dashMap spec (.ofStart first)
    let written := (cache.perform (.put 1 10)).2
    let passed := ((written.advance 9 ⟨60, by decide⟩).getD (.ok 0, written)).2
    let w := (passed.perform (.get 1)).2
    spec.engineExpiry = some expiry ∧ spec.executor = some executor ∧
      executor.IsOrderly first ∧ (w.agenda.duties 1 0).length = 1 ∧
      TimersMatch w.store w.agenda ∧
      ∃ w', w.advance 9 ⟨100, by decide⟩ = some (.ok 2, w') ∧
        w'.heard.map Heard.removal = [⟨1, 10, .expired⟩] ∧
        ∃ now, w'.agenda.clock.now = .ok now ∧ ∀ key slot deadline,
          w'.store.find? key = some slot → slot.deadline = some deadline → now < deadline := by
  intro expiry first executor spec cache written passed w
  have hbuilt : Factory.buildTimed spec ⟨.ofStart first, 0⟩ = (.ok ⟨.timed, cache⟩, []) := rfl
  have hexpiry : spec.engineExpiry = some expiry := rfl
  have hexecutor : spec.executor = some executor := rfl
  have horderly : executor.IsOrderly first := .ofClock (Clock.now_eq_ok_iff.mpr (by decide))
  have hothers (e : Entry (Duty Nat Nat)) (he : e ∈ executor.queue) (key stamp : Nat) :
      e.job.body ≠ .lapse key stamp := absurd he List.not_mem_nil
  have hpassed : Reaches cache passed := by
    have hends : (written.advance 9 ⟨60, by decide⟩).isSome = true := by decide +kernel
    obtain ⟨⟨r, w₁⟩, hadvance⟩ := Option.isSome_iff_exists.mp hends
    have hsame : passed = w₁ := by
      show ((written.advance 9 ⟨60, by decide⟩).getD (.ok 0, written)).2 = w₁
      rw [hadvance]
      rfl
    rw [hsame]
    exact (Reaches.start.operate cache.depth (.put 1 10)).advance hadvance
  have hread : Reaches cache w := hpassed.operate passed.depth (.get 1)
  obtain ⟨hmatch, _, _, hahead⟩ :=
    timers_in_time hbuilt hexpiry hexecutor horderly hothers hread
  have hends : (w.advance 9 ⟨100, by decide⟩).map
      (fun r ↦ (r.1.toOption, r.2.heard.map Heard.removal)) =
        some (some 2, [⟨1, 10, .expired⟩]) := by decide +kernel
  obtain ⟨⟨r, w'⟩, hadvance, hw'⟩ := Option.map_eq_some_iff.mp hends
  obtain ⟨hcount, hheard⟩ := Prod.mk.inj hw'
  cases r with
  | error abort => cases hcount
  | ok count =>
    obtain rfl : count = 2 := Option.some.inj hcount
    have hone : (w.agenda.duties 1 0).length = 1 := by decide +kernel
    exact ⟨hexpiry, hexecutor, horderly, hone, hmatch, w', hadvance, hheard,
      hahead 9 _ 2 w' hadvance⟩

end Timed

end Caching
