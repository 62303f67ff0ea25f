import Caching.Proofs.Agenda.Drain
import Caching.Proofs.Timed.Reflection
import Caching.Proofs.Timed.Workload

/-!
# Attending to the agenda of a timed cache

Letting time pass on the agenda of a cache that reflects a map, it goes on reflecting the map. What
is attended to clears lapsed entries away, and nobody can tell. Unless something on the agenda is
repeated without end, there is an end to it.
-/

namespace Caching

variable {K V : Type} [DecidableEq K] [DecidableEq V]

namespace Timed.Reflects

variable {now : Instant} {w w' : Running (Timed K V) K V} {m : TimedMap K V}

private theorem attend (h : Reflects now w m) {duty : Duty K V} (hidle : duty.IsIdle) {run : Nat}
    {again : Bool} (hattend : Running.attend duty run w = some (again, w')) :
    Reflects now w' m := by
  cases duty with
  | lapse key stamp =>
    cases hattend
    rw [LawfulEngine.lapse_eq]
    exact h.comeDue w.depth key stamp
  | upkeep =>
    rw [Running.attend_upkeep hattend]
    exact h
  | errand script =>
    cases script with
    | done => cases hattend; exact h
    | call operation next => exact hidle.elim

omit [DecidableEq K] [DecidableEq V] in
private theorem take (h : Reflects now w m) {target : Option Instant} {live : Bool}
    {e : Entry (Duty K V)} {a : Agenda (Duty K V)}
    (htake : w.agenda.take? target = some (live, e, a)) :
    Reflects (if now ≤ e.due then e.due else now) (Caching.withAgenda w a) m ∧
      e.job.body.IsIdle := by
  obtain ⟨_, hqueue, _, _, journal, ha⟩ := Agenda.take?_eq_some htake
  have hidle : e.job.body.IsIdle := by
    apply h.idle
    rw [hqueue]
    exact List.mem_cons_self
  have hclock := Clock.now_advanceTo h.clock e.due
  refine ⟨?_, hidle⟩
  apply h.withAgenda
  · rw [Instant.le_iff]
    split
    · next hle => exact hle
    · exact Int.le_refl _
  · rw [ha]
    exact hclock
  · intro other hother
    apply h.idle
    rw [hqueue]
    exact List.mem_cons_of_mem e hother

private theorem performJob (h : Reflects now w m) {job : Job (Duty K V)} (hidle : job.body.IsIdle)
    {r : Except Abort Unit} (hperform : job.perform Running.attend w = some (r, w')) :
    Reflects now w' m := by
  have honce (body : Duty K V) (again : Bool) (s s' : Running (Timed K V) K V)
      (hjob : job = .once body) (hs : Reflects now s m)
      (hattend : Running.attend body 1 s = some (again, s')) : Reflects now s' m := by
    rw [hjob] at hidle
    exact hs.attend hidle hattend
  refine job.perform_kept honce ?_ (fun _ hs ↦ hs) h hperform
  intro chain period run body again s s' hjob hs hattend
  rw [hjob] at hidle
  have hs' : Reflects now s' m := hs.attend hidle hattend
  refine ⟨hs', ?_⟩
  intro a harm
  rcases Agenda.arm_cases harm with rfl | ⟨handle, hsubmit⟩
  · exact hs'
  · obtain ⟨hclock, hnew⟩ := Agenda.submit_cases hsubmit
    refine hs'.withAgenda (Int.le_refl _) ?_ ?_
    · exact (congrArg Clock.now hclock).trans hs'.clock
    · intro e he
      rcases hnew e he with hold | hjob'
      · exact hs'.idle e hold
      · rw [hjob']
        exact hidle

/-- Nobody sees that the executor attends to what comes due. -/
theorem drain (h : Reflects now w m) {target : Option Instant}
    (hnow : ∀ instant, target = some instant → now ≤ instant) {fuel : Nat}
    {r : Except Abort Nat} (hdrain : drain Running.attend target fuel w = some (r, w')) :
    ∃ later, (∀ instant, target = some instant → later ≤ instant) ∧ Reflects later w' m := by
  have hskip (now : Instant) (w : Running (Timed K V) K V) (e : Entry (Duty K V))
      (a : Agenda (Duty K V)) (h : Reflects now w m)
      (htake : w.agenda.take? target = some (false, e, a)) :
      ∃ later, (later = now ∨ later = e.due) ∧ Reflects later (Caching.withAgenda w a) m :=
    ⟨_, (ite_eq_or_eq _ _ _).symm, (h.take htake).1⟩
  have hstart (now : Instant) (w : Running (Timed K V) K V) (e : Entry (Duty K V))
      (a : Agenda (Duty K V)) (r : Except Abort Unit) (w' : Running (Timed K V) K V)
      (h : Reflects now w m) (htake : w.agenda.take? target = some (true, e, a))
      (hperform : e.job.perform Running.attend (Caching.withAgenda w a) = some (r, w')) :
      ∃ later, (later = now ∨ later = e.due) ∧ Reflects later w' m := by
    obtain ⟨hturn, hidle⟩ := h.take htake
    exact ⟨_, (ite_eq_or_eq _ _ _).symm, hturn.performJob hidle hperform⟩
  exact (drain_kept_within hskip hstart h hnow hdrain).1

private theorem attend_ends (h : Reflects now w m) (hstopped : w.agenda.stopped = false)
    (hbrief : ∀ e ∈ w.agenda.queue, e.job.body ≠ .upkeep) {e : Entry (Duty K V)}
    (hdue : e.due ≤ now) (hidle : e.job.body.IsIdle) (hentry : e.job.body ≠ .upkeep)
    (run : Nat) : ∃ w', Running.attend e.job.body run w = some (false, w') ∧
      (∀ e ∈ w'.agenda.queue, e.job.body ≠ .upkeep) ∧
      w'.store.workload w'.agenda.queue <
        w.store.turns e + w.store.workload w.agenda.queue := by
  have hpos := w.store.turns_pos e
  cases hbody : e.job.body with
  | lapse key stamp =>
    refine ⟨_, rfl, ?_⟩
    obtain ⟨hstore, hagenda, _⟩ :=
      Running.settle_of_quiet h.quiet (comeDue_frames key w stamp) w.depth
    have hextends := comeDue_extends key w stamp
    have hlapse : Engine.lapse w.report key stamp w =
        Running.settle (Running.reportAt w.depth) (Timed.comeDue key stamp w) :=
      LawfulEngine.lapse_eq w.report key stamp w
    rw [hlapse, hstore, hagenda]
    refine ⟨?_, workload_comeDue h.renders.expiry h.clock hstopped hdue hbody⟩
    intro other hother
    rcases hextends.2 other hother with hold | ⟨k, n, hjob⟩
    · exact hbrief other hold
    · rw [hjob]
      exact nofun
  | upkeep => exact absurd hbody hentry
  | errand script =>
    cases script with
    | done =>
      refine ⟨w, rfl, hbrief, ?_⟩
      omega
    | call operation next =>
      rw [hbody] at hidle
      exact hidle.elim

private theorem performJob_ends (h : Reflects now w m) (hstopped : w.agenda.stopped = false)
    (hbrief : ∀ e ∈ w.agenda.queue, e.job.body ≠ .upkeep) {e : Entry (Duty K V)}
    (hdue : e.due ≤ now) (hidle : e.job.body.IsIdle) (hentry : e.job.body ≠ .upkeep) :
    ∃ w', e.job.perform Running.attend w = some (.ok (), w') ∧
      (∀ e ∈ w'.agenda.queue, e.job.body ≠ .upkeep) ∧
      w'.store.workload w'.agenda.queue <
        w.store.turns e + w.store.workload w.agenda.queue := by
  have hpos := w.store.turns_pos e
  obtain ⟨due, seq, handle, job⟩ := e
  cases job with
  | once body =>
    obtain ⟨w', hattend, hrest⟩ := h.attend_ends hstopped hbrief hdue hidle hentry 1
    refine ⟨w', ?_, hrest⟩
    rw [Job.perform, show Running.attend body 1 w = _ from hattend, Option.map_some]
  | link chain period run body =>
    obtain ⟨w', hattend, hrest⟩ := h.attend_ends hstopped hbrief hdue hidle hentry run
    cases hcancelled : (agenda w).isCancelled chain with
    | true =>
      refine ⟨w, ?_, hbrief, ?_⟩
      · rw [Job.perform, if_pos hcancelled]
      · omega
    | false =>
      refine ⟨w', ?_, hrest⟩
      rw [Job.perform, hcancelled, show Running.attend body run w = _ from hattend]
      rfl

omit [DecidableEq K] [DecidableEq V] in
/-- Time passes for the map as well. -/
theorem pass (h : Reflects now w m) {d : Duration} (hnow : m.now.add? d = some now) :
    Reflects (m.pass d).now w (m.pass d) := by
  rw [TimedMap.now_pass hnow]
  exact ⟨⟨h.renders.expiry, h.renders.distinct, h.renders.present⟩, h.provider, h.phase, h.quiet,
    h.clock, h.idle⟩

/-- Nobody sees more of an advance than that time passes. -/
theorem advance (h : Reflects m.now w m) {fuel : Nat} {d : Duration} {count : Nat}
    {later : Instant} (hlater : m.now.add? d = some later)
    (hadvance : w.advance fuel d = some (.ok count, w')) :
    Reflects (m.pass d).now w' (m.pass d) := by
  have hle : m.now ≤ later := by
    have hsum := Instant.add?_eq_some_iff.mp hlater
    rw [Instant.le_iff]
    omega
  rcases advance_cases hadvance with ⟨abort, habort, _⟩ | ⟨start, w₁, hstart, hdrain, hend⟩
  · rw [show (agenda w).clock.now = .ok m.now from h.clock] at habort
    cases habort
  · obtain rfl : m.now = start := Except.ok.inj (h.clock.symm.trans hstart)
    rw [hlater] at hdrain hend
    have hwithin (instant : Instant) (hsome : some later = some instant) : m.now ≤ instant := by
      rw [← Option.some.inj hsome]
      exact hle
    obtain ⟨between, hbefore, hdrained⟩ := h.drain hwithin hdrain
    have hbetween := hbefore later rfl
    rcases hend with ⟨_, habort, _⟩ | ⟨hnone, _⟩ | ⟨instant, _, _, hinstant, rfl⟩
    · cases habort
    · cases hnone
    · obtain rfl : later = instant := Option.some.inj hinstant
      refine Reflects.pass ?_ hlater
      have hclock := Clock.now_advanceTo hdrained.clock later
      rw [if_pos hbetween] at hclock
      exact hdrained.withAgenda hbetween hclock hdrained.idle

omit [DecidableEq V] in
private theorem brief_of_take? (hbrief : ∀ e ∈ w.agenda.queue, e.job.body ≠ .upkeep)
    {target : Option Instant} {live : Bool} {e : Entry (Duty K V)} {a : Agenda (Duty K V)}
    (htake : w.agenda.take? target = some (live, e, a)) :
    a.stopped = false ∧ e.job.body ≠ .upkeep ∧ (∀ e ∈ a.queue, e.job.body ≠ .upkeep) ∧
      w.store.workload w.agenda.queue = w.store.turns e + w.store.workload a.queue := by
  obtain ⟨hstopped, hqueue, _, _, journal, ha⟩ := Agenda.take?_eq_some htake
  rw [hqueue] at hbrief
  refine ⟨?_, hbrief e List.mem_cons_self,
    fun other ho ↦ hbrief other (List.mem_cons_of_mem e ho), ?_⟩
  · rw [ha]
    exact hstopped
  · rw [hqueue, workload, List.map_cons, List.sum_cons]
    rfl

/-- With enough fuel and nothing that is repeated, an advance comes to its end. -/
theorem advance_ends (h : Reflects now w m)
    (hbrief : ∀ e ∈ w.agenda.queue, e.job.body ≠ .upkeep) (d : Duration) :
    ∃ fuel count w', w.advance fuel d = some (.ok count, w') ∧
      ∀ e ∈ w'.agenda.queue, e.job.body ≠ .upkeep := by
  have hskip (w : Running (Timed K V) K V) (e : Entry (Duty K V)) (a : Agenda (Duty K V))
      (hw : (∃ now, Reflects now w m) ∧ ∀ e ∈ w.agenda.queue, e.job.body ≠ .upkeep)
      (htake : (agenda w).take? (now.add? d) = some (false, e, a)) :
      ((∃ now, Reflects now (Caching.withAgenda w a) m) ∧
          ∀ e ∈ (Caching.withAgenda w a).agenda.queue, e.job.body ≠ .upkeep) ∧
        (Caching.withAgenda w a).store.workload (Caching.withAgenda w a).agenda.queue <
          w.store.workload w.agenda.queue := by
    obtain ⟨⟨now', hreflects⟩, hqueue⟩ := hw
    obtain ⟨_, _, hleft, hload⟩ := brief_of_take? hqueue htake
    have hpos := w.store.turns_pos e
    refine ⟨⟨⟨_, (hreflects.take htake).1⟩, hleft⟩, ?_⟩
    show w.store.workload a.queue < w.store.workload w.agenda.queue
    omega
  have hstart (w : Running (Timed K V) K V) (e : Entry (Duty K V)) (a : Agenda (Duty K V))
      (hw : (∃ now, Reflects now w m) ∧ ∀ e ∈ w.agenda.queue, e.job.body ≠ .upkeep)
      (htake : (agenda w).take? (now.add? d) = some (true, e, a)) :
      ∃ w', e.job.perform Running.attend (Caching.withAgenda w a) = some (.ok (), w') ∧
        ((∃ now, Reflects now w' m) ∧ ∀ e ∈ w'.agenda.queue, e.job.body ≠ .upkeep) ∧
        w'.store.workload w'.agenda.queue < w.store.workload w.agenda.queue := by
    obtain ⟨⟨now', hreflects⟩, hqueue⟩ := hw
    obtain ⟨hstopped, hentry, hleft, hload⟩ := brief_of_take? hqueue htake
    obtain ⟨hturn, hidle⟩ := hreflects.take htake
    have hdue : e.due ≤ if now' ≤ e.due then e.due else now' := by
      split
      · exact Int.le_refl _
      · next hnot =>
        rw [Instant.le_iff] at hnot ⊢
        omega
    obtain ⟨w', hperform, hafter, hless⟩ :=
      hturn.performJob_ends hstopped hleft hdue hidle hentry
    refine ⟨w', hperform, ⟨⟨_, hturn.performJob hidle hperform⟩, hafter⟩, ?_⟩
    have hbefore : w.store.workload w.agenda.queue =
        (Caching.withAgenda w a).store.turns e +
          (Caching.withAgenda w a).store.workload (Caching.withAgenda w a).agenda.queue := hload
    omega
  obtain ⟨count, w₁, hdrained, _, hleft⟩ :=
    drain_ends hskip hstart ⟨⟨now, h⟩, hbrief⟩ (Nat.lt_succ_self _)
  obtain ⟨w', hadvance, hw'⟩ := advance_of_drain h.clock hdrained
  refine ⟨_, count, w', hadvance, ?_⟩
  rcases hw' with rfl | ⟨clock, rfl⟩
  · exact hleft
  · exact hleft

end Timed.Reflects

end Caching
