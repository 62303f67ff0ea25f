import Caching.Proofs.Agenda.Laws
import Caching.Proofs.Script.Simulation
import Caching.Proofs.Timed.Rendering

/-!
# A timed cache reflects a timed map

A cache on the timed engine reflects a map if it answers as the map does. Its listener makes notes
only, and what waits on its agenda leaves the entries alone unless they have lapsed. Every operation
is then answered alike, and all that the engine itself puts on the agenda is the duties of entries.
-/

namespace Caching

variable {K V : Type}

/-- The duty does not use the cache. -/
def Duty.IsIdle : Duty K V → Prop
  | lapse _ _ | upkeep | errand (.done _) => True
  | errand (.call _ _) => False

/-- Time stands still, and what is new on the agenda is the duties of entries. -/
def Agenda.Extends (a b : Agenda (Duty K V)) : Prop :=
  b.clock = a.clock ∧
    ∀ e ∈ b.queue, e ∈ a.queue ∨ ∃ key stamp, e.job = .once (.lapse key stamp)

namespace Agenda.Extends

variable {a b c : Agenda (Duty K V)}

/-- Nothing need be new. -/
theorem refl (a : Agenda (Duty K V)) : a.Extends a :=
  ⟨rfl, fun _ he ↦ .inl he⟩

/-- Duties may be added in two steps. -/
theorem trans (h : a.Extends b) (h' : b.Extends c) : a.Extends c := by
  refine ⟨h'.1.trans h.1, ?_⟩
  intro e he
  rcases h'.2 e he with hb | hnew
  · exact h.2 e hb
  · exact .inr hnew

private theorem cancel (a : Agenda (Duty K V)) (handle : Handle) : a.Extends (a.cancel handle) := by
  refine ⟨clock_cancel a handle, ?_⟩
  intro e he
  rw [queue_cancel] at he
  exact .inl he

private theorem schedule {delay : Duration} {key : K} {stamp : Nat} {handle : Handle}
    (h : a.schedule delay (.lapse key stamp) = .ok (handle, b)) : a.Extends b := by
  obtain ⟨hclock, hnew⟩ := submit_cases h
  refine ⟨hclock, ?_⟩
  intro e he
  rcases hnew e he with hold | hjob
  · exact .inl hold
  · exact .inr ⟨key, stamp, hjob⟩

end Agenda.Extends

namespace Timed

section

private theorem disarm_extends (slot : Slot V) (w : Running (Timed K V) K V) :
    w.agenda.Extends (disarm slot w).agenda := by
  rw [disarm]
  cases slot.timer with
  | none => exact .refl w.agenda
  | some handle => exact .cancel w.agenda handle

/-- The end of a cache adds nothing. -/
theorem teardown_extends [DecidableEq K] (w : Running (Timed K V) K V) :
    w.agenda.Extends (Engine.teardown w).agenda := by
  obtain ⟨cancelled, hends, _⟩ := teardown_eq w
  rw [hends, endSchedule]
  split
  · refine ⟨rfl, ?_⟩
    intro e he
    cases he
  · exact ⟨rfl, fun _ he ↦ .inl he⟩

variable [DecidableEq K] (key : K) (w : Running (Timed K V) K V)

private theorem arm_extends (stamp : Nat) (delay : Duration) :
    w.agenda.Extends (arm key stamp delay w).agenda := by
  rw [arm]
  split
  · next hschedule _ =>
    split
    · exact .schedule hschedule
    · exact (Agenda.Extends.schedule hschedule).trans (.cancel _ _)
  · next hschedule _ => exact (Agenda.Extends.schedule hschedule).trans (.cancel _ _)
  · exact .refl w.agenda

private theorem write_extends (now : Instant) (value : V) :
    w.agenda.Extends (write now key value w).agenda := by
  rw [write]
  cases w.store.expiry with
  | none => exact .refl w.agenda
  | some e => exact arm_extends key _ _ _

/-- A deed adds duties of entries at most. -/
theorem carryOut_extends (now : Instant) (deed : Deed V) :
    w.agenda.Extends (carryOut now key deed w).2.agenda := by
  have htake : w.agenda.Extends (takeOut now key w).2.agenda := by
    rw [takeOut]
    split
    · next slot _ => exact disarm_extends slot _
    · exact .refl w.agenda
  unfold carryOut
  split
  · exact .refl w.agenda
  · exact .refl w.agenda
  · rw [readOut]
    split <;> exact .refl w.agenda
  · exact .refl w.agenda
  · exact htake
  · exact htake
  · exact htake
  · rw [writeOver]
    split
    · next slot _ => exact (write_extends key w now _).trans (disarm_extends slot _)
    · exact write_extends key w now _

/-- The duty of an entry adds another one at most. -/
theorem comeDue_extends (stamp : Nat) : w.agenda.Extends (comeDue key stamp w).2.agenda := by
  rw [comeDue]
  split
  · split
    · split
      · split
        · exact .refl w.agenda
        · exact arm_extends key w stamp _
      · exact .refl w.agenda
    · exact .refl w.agenda
  · exact .refl w.agenda

end

/-- The cache answers as the map does, now and from now on. -/
structure Reflects (now : Instant) (w : Running (Timed K V) K V) (m : TimedMap K V) : Prop where
  renders : Renders now w.store m
  provider : w.provider = m.provider
  phase : w.phase = m.phase
  quiet : w.IsQuiet
  clock : w.agenda.clock.now = .ok now
  idle : ∀ e ∈ w.agenda.queue, e.job.body.IsIdle

namespace Reflects

variable {now : Instant} {w : Running (Timed K V) K V} {m m' : TimedMap K V}

/-- Another agenda at another time. -/
theorem withAgenda (h : Reflects now w m) {later : Instant} (hle : now ≤ later)
    {a : Agenda (Duty K V)} (hclock : a.clock.now = .ok later)
    (hidle : ∀ e ∈ a.queue, e.job.body.IsIdle) : Reflects later (withAgenda w a) m :=
  ⟨h.renders.of_le hle, h.provider, h.phase, h.quiet, hclock, hidle⟩

private theorem settle [DecidableEq K] [DecidableEq V] (h : Reflects now w m)
    {r : List (Removal K V) × Running (Timed K V) K V} (hframes : w.Frames r.2)
    (hextends : w.agenda.Extends r.2.agenda) (hrenders : Renders now r.2.store m')
    (hprovider : m'.provider = m.provider) (hphase : m'.phase = m.phase) (bound : Nat) :
    Reflects now (Running.settle (Running.reportAt bound) r) m' := by
  obtain ⟨removals, w₁⟩ := r
  obtain ⟨store, agenda, log, rfl⟩ := hframes
  have hquiet : Running.IsQuiet { w with store, agenda, log } := h.quiet
  obtain ⟨heard, log', htell, _⟩ := Running.tell_of_quiet hquiet bound removals
  rw [Running.settle, htell]
  refine ⟨hrenders, h.provider.trans hprovider.symm, h.phase.trans hphase.symm, h.quiet, ?_, ?_⟩
  · exact (congrArg Clock.now hextends.1).trans h.clock
  · intro e he
    rcases hextends.2 e he with hold | ⟨key, stamp, hjob⟩
    · exact h.idle e hold
    · rw [hjob]
      trivial

section

variable [DecidableEq K] [DecidableEq V]

private theorem carryOut (h : Reflects m.now w m) (bound : Nat) (key : K) (deed : Deed V) :
    Reflects m.now
      (Running.settle (Running.reportAt bound) (carryOut m.now key deed w)) (m.carry key deed) := by
  obtain ⟨leases, distinct, hcarry⟩ := m.carry_eq key deed
  refine h.settle (carryOut_frames key w m.now deed) (carryOut_extends key w m.now deed)
    (h.renders.carryOut key deed) ?_ ?_ bound
  · rw [hcarry]
  · rw [hcarry]

/-- The duty of an entry, which nobody sees. -/
theorem comeDue (h : Reflects now w m) (bound : Nat) (key : K) (stamp : Nat) :
    Reflects now (Running.settle (Running.reportAt bound) (comeDue key stamp w)) m :=
  h.settle (comeDue_frames key w stamp) (comeDue_extends key w stamp)
    (h.renders.comeDue h.clock key stamp) rfl rfl bound

omit [DecidableEq V] in
private theorem mem_entries_keep (h : Reflects now w m) {key : K} {e : K × Slot V}
    (he : e ∈ (Timed.carryOut now key .keep w).2.store.entries) :
    e ∈ w.store.entries ∧ (e.2.isLapsed now = true → e.1 ≠ key) := by
  cases hlive : w.store.live? now key with
  | none =>
    simp only [Timed.carryOut, hlive, entries_takeOut] at he
    obtain ⟨hmem, hne⟩ := Keyed.mem_erase_iff.mp he
    exact ⟨hmem, fun _ ↦ hne⟩
  | some slot =>
    simp only [Timed.carryOut, hlive] at he
    refine ⟨he, ?_⟩
    intro hlapsed hk
    obtain ⟨hfind, hlasts⟩ := live?_eq_some_iff.mp hlive
    have hslot : w.store.find? key = some e.2 :=
      (Keyed.find?_eq_some_iff h.renders.distinct_entries).mpr (hk ▸ he)
    rw [hslot, Option.some.injEq] at hfind
    rw [hfind, hlasts] at hlapsed
    cases hlapsed

private theorem clearLapsed (h : Reflects m.now w m) (bound : Nat) (keys : List K) :
    let w' := keys.foldl (fun w key ↦
      Running.settle (Running.reportAt bound) (Timed.carryOut m.now key .keep w)) w
    Reflects m.now w' m ∧ ∀ e ∈ w'.store.entries, e ∈ w.store.entries ∧
      (e.2.isLapsed m.now = true → e.1 ∉ keys) := by
  induction keys generalizing w with
  | nil => exact ⟨h, fun e he ↦ ⟨he, fun _ ↦ List.not_mem_nil⟩⟩
  | cons key rest ih =>
    have hfirst : Reflects m.now
        (Running.settle (Running.reportAt bound) (Timed.carryOut m.now key .keep w)) m :=
      h.carryOut bound key .keep
    obtain ⟨hrest, hleft⟩ := ih hfirst
    refine ⟨hrest, ?_⟩
    intro e he
    obtain ⟨hmem, hnot⟩ := hleft e he
    rw [(Running.settle_of_quiet h.quiet (carryOut_frames key w m.now .keep) bound).1] at hmem
    obtain ⟨hbefore, hne⟩ := h.mem_entries_keep hmem
    refine ⟨hbefore, ?_⟩
    intro hlapsed hin
    rcases List.mem_cons.mp hin with hk | hin
    · exact hne hlapsed hk
    · exact hnot hlapsed hin

private theorem clearAll (h : Reflects now w m) (bound : Nat) (keys : List K) :
    let w' := keys.foldl (fun w key ↦
      Running.settle (Running.reportAt bound) (Timed.carryOut now key .remove w)) w
    (∃ leases distinct, Reflects now w' { m with leases, distinct }) ∧
      ∀ e ∈ w'.store.entries, e ∈ w.store.entries ∧ e.1 ∉ keys := by
  induction keys generalizing w m with
  | nil => exact ⟨⟨m.leases, m.distinct, h⟩, fun e he ↦ ⟨he, List.not_mem_nil⟩⟩
  | cons key rest ih =>
    have hfirst : Reflects now
        (Running.settle (Running.reportAt bound) (Timed.carryOut now key .remove w))
        (m.take key) :=
      h.settle (carryOut_frames key w now .remove) (carryOut_extends key w now .remove)
        (h.renders.takeOut key) rfl rfl bound
    obtain ⟨hrest, hleft⟩ := ih hfirst
    refine ⟨hrest, ?_⟩
    intro e he
    obtain ⟨hmem, hnot⟩ := hleft e he
    rw [(Running.settle_of_quiet h.quiet (carryOut_frames key w now .remove) bound).1,
      Timed.carryOut, entries_takeOut] at hmem
    obtain ⟨hbefore, hne⟩ := Keyed.mem_erase_iff.mp hmem
    refine ⟨hbefore, ?_⟩
    intro hin
    rcases List.mem_cons.mp hin with hk | hin
    · exact hne hk
    · exact hnot hin

omit [DecidableEq V] in
private theorem reading (h : Reflects now w m) : Engine.reading w = .ok now := by
  simp only [Engine.reading, h.renders.expiry, h.clock]

private theorem performKey (h : Reflects m.now w m) (hactive : w.phase = .active)
    {operation : Operation K V} {key : K} (hkey : operation.key? = some key) :
    (w.perform operation).1 = (m.perform operation).1 ∧
      Reflects m.now (w.perform operation).2 (m.perform operation).2 := by
  have hphase : m.phase = .active := h.phase.symm.trans hactive
  have hperform : w.perform operation = (operation.answer (m.current key),
      Running.settle w.report
        (Timed.carryOut m.now key (operation.deed (m.current key)) w)) := by
    rw [← h.renders.current key]
    exact Running.performWith_of_key w.report hkey hactive h.reading
  rw [hperform, TimedMap.perform, hphase]
  simp only [Operation.openReply, TimedMap.serve, hkey, true_and]
  exact h.carryOut w.depth key _

private theorem performSize (h : Reflects m.now w m) (hactive : w.phase = .active) :
    (w.perform .size).1 = (m.perform .size).1 ∧
      Reflects m.now (w.perform .size).2 (m.perform .size).2 := by
  have hphase : m.phase = .active := h.phase.symm.trans hactive
  obtain ⟨hcleared, hleft⟩ := h.clearLapsed w.depth (w.store.lapsedKeys m.now)
  have hcount := hcleared.renders.length_present fun e he ↦ by
    obtain ⟨hmem, hnot⟩ := hleft e he
    cases hlapsed : e.2.isLapsed m.now with
    | false => rfl
    | true =>
      refine absurd (List.mem_map.mpr ⟨e, ?_, rfl⟩) (hnot hlapsed)
      exact List.mem_filter.mpr ⟨hmem, hlapsed⟩
  rw [Running.perform, Running.performWith, Running.guarded_of_reading hactive h.reading,
    LawfulEngine.size_eq, TimedMap.perform, hphase]
  refine ⟨?_, hcleared⟩
  exact congrArg (fun n ↦ Reply.ok (.count n)) hcount.symm

private theorem performClear (h : Reflects m.now w m) (hactive : w.phase = .active) :
    (w.perform .clear).1 = (m.perform .clear).1 ∧
      Reflects m.now (w.perform .clear).2 (m.perform .clear).2 := by
  have hphase : m.phase = .active := h.phase.symm.trans hactive
  obtain ⟨⟨leases, distinct, hcleared⟩, hleft⟩ :=
    h.clearAll w.depth (w.store.entries.map Prod.fst)
  rw [Running.perform, Running.performWith, Running.guarded_of_reading hactive h.reading,
    LawfulEngine.clear_eq, TimedMap.perform, hphase]
  refine ⟨rfl, ?_, hcleared.provider, hcleared.phase, hcleared.quiet, hcleared.clock,
    hcleared.idle⟩
  refine .nil hcleared.renders.expiry ?_ rfl
  apply List.eq_nil_iff_forall_not_mem.mpr
  intro e he
  obtain ⟨hmem, hnot⟩ := hleft e he
  exact hnot (List.mem_map.mpr ⟨e, hmem, rfl⟩)

private theorem performClose (h : Reflects m.now w m) (hactive : w.phase = .active) :
    (w.perform .close).1 = (m.perform .close).1 ∧
      Reflects m.now (w.perform .close).2 (m.perform .close).2 := by
  have hphase : m.phase = .active := h.phase.symm.trans hactive
  obtain ⟨store, agenda, log, hframe⟩ := teardown_frames { w with phase := .closed }
  have hstore := store_teardown { w with phase := .closed }
  have hextends := teardown_extends { w with phase := .closed }
  rw [hframe] at hstore hextends
  dsimp only at hstore hextends
  rw [Running.perform, Running.performWith, Running.close, hactive, TimedMap.perform, hphase]
  simp only [hframe, TimedMap.serve, Operation.key?]
  refine ⟨rfl, ?_, h.provider, rfl, h.quiet, ?_, ?_⟩
  · rw [hstore]
    exact .nil h.renders.expiry rfl rfl
  · exact (congrArg Clock.now hextends.1).trans h.clock
  · intro e he
    rcases hextends.2 e he with hold | ⟨key, stamp, hjob⟩
    · exact h.idle e hold
    · rw [hjob]
      trivial

/-- Every operation is answered alike, and goes on reflecting the map. -/
theorem perform (h : Reflects m.now w m) (operation : Operation K V) :
    (w.perform operation).1 = (m.perform operation).1 ∧
      Reflects m.now (w.perform operation).2 (m.perform operation).2 := by
  cases hp : w.phase with
  | closed =>
    have hphase : m.phase = .closed := h.phase.symm.trans hp
    rw [Running.perform, Running.performWith_of_closed w.report hp, TimedMap.perform, hphase,
      h.provider]
    exact ⟨rfl, h⟩
  | active =>
    have hphase : m.phase = .active := h.phase.symm.trans hp
    cases hkey : operation.key? with
    | some key => exact h.performKey hp hkey
    | none =>
      cases operation with
      | size => exact h.performSize hp
      | clear => exact h.performClear hp
      | close => exact h.performClose hp
      | state =>
        rw [Running.perform, Running.performWith, hp, TimedMap.perform, hphase]
        exact ⟨rfl, h⟩
      | provider =>
        rw [Running.perform, Running.performWith, h.provider, TimedMap.perform, hphase]
        exact ⟨rfl, h⟩
      | _ => cases hkey

end

end Reflects

end Timed

end Caching
