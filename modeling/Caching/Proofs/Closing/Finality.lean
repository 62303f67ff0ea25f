import Caching.Cache.Session
import Caching.Proofs.Closing.Deferred
import Caching.Proofs.Closing.Recounting
import Caching.Proofs.Closing.Silence
import Caching.Proofs.Starting

/-!
# Close is final and silent

Whatever is done to a session from outside, all that happens can be listed. Wherever in it the cache
is closed, be it in the middle of another operation, nothing comes after that but operations that
are refused.
-/

namespace Caching

variable {K V : Type}

/-- What can be done to a session from outside. -/
inductive Dealing (K V : Type) where
  /-- Somebody uses the cache. -/
  | use (script : Script (Operation K V) (Reply V) Unit)
  /-- A handle is added. -/
  | clone
  /-- A handle is dropped. -/
  | drop (handle : Nat)
  /-- Time passes on the executor, which attends to what comes due. -/
  | advance (d : Duration)
  /-- Time passes on the executor, and nobody attends to what comes due. -/
  | moveClock (d : Duration)
  /-- Time passes on the host. -/
  | passTime (d : Duration)
  /-- The executor is shut down. -/
  | shutdown
  /-- Somebody has an errand done later. -/
  | schedule (delay : Duration) (errand : Script (Operation K V) (Reply V) Unit)
  /-- Somebody has an errand repeated. -/
  | scheduleRepeating (period : Duration) (errand : Script (Operation K V) (Reply V) Unit)
  /-- Somebody cancels a handle. -/
  | cancel (handle : Handle)

/-- The executor is shut down. -/
def Dealing.isShutdown : Dealing K V → Bool
  | shutdown => true
  | use _ | clone | drop _ | advance _ | moveClock _ | passTime _ | schedule _ _
  | scheduleRepeating _ _ | cancel _ => false

section

variable [DecidableEq K] [DecidableEq V]

instance (kind : Kind) : PlannedEngine (kind.Store K V) K V :=
  match kind with
  | .vacant => inferInstanceAs (PlannedEngine Vacant K V)
  | .deferred => inferInstanceAs (PlannedEngine (Deferred K V) K V)
  | .recency => inferInstanceAs (PlannedEngine (Recency K V) K V)
  | .timed => inferInstanceAs (PlannedEngine (Timed K V) K V)

end

private theorem Timed.tended_start [DecidableEq K] {spec : CacheSpec K V} {host : Clock}
    (h : (spec.executor.getD (.ofClock host)).timers = []) :
    Tended (!spec.executor.isSome && spec.engineExpiry.isSome)
      (Running.start (empty spec.engineExpiry : Timed K V) .dashMap spec host) := by
  have hduties (key : K) (stamp : Nat) :
      (spec.executor.getD (.ofClock host)).duties key stamp = [] := by
    rw [Agenda.duties_eq_filter_timers, h, List.filter_nil]
  refine ⟨⟨?_, ?_⟩, rfl, ?_⟩
  · intro key stamp
    rw [Running.start, hduties]
    exact Nat.zero_le 1
  · intro key stamp e he
    rw [Running.start, hduties] at he
    cases he
  · intro hclosed
    cases hclosed

open Running (IsUntimed)

namespace Session

/-- Puts what somebody has booked on the agenda, if it could be booked. -/
def booked (r : Except Abort (Handle × Agenda (Duty K V))) (s : Session K V) : Session K V :=
  match r with
  | .ok (_, agenda) => s.update fun w ↦ { w with agenda }
  | .error _ => s

/-- Only the agenda, the clock of the host and the handles may be others. -/
def KeepsCache (s s' : Session K V) : Prop :=
  ∃ agenda host handles, s' = ⟨{ s.cache with body := { s.cache.body with agenda, host } }, handles⟩

section

variable {s s' : Session K V} {d : Duration}

/-- Nothing need be other. -/
theorem KeepsCache.refl (s : Session K V) : s.KeepsCache s :=
  ⟨s.agenda, s.cache.body.host, s.handles, rfl⟩

/-- The agenda and the clock of the host may be others. -/
theorem KeepsCache.update (s : Session K V) (host : Clock) (agenda : Agenda (Duty K V)) :
    s.KeepsCache (s.update fun w ↦ { w with host, agenda }) :=
  ⟨agenda, host, s.handles, rfl⟩

/-- Something may be booked. -/
theorem KeepsCache.booked (s : Session K V) (r : Except Abort (Handle × Agenda (Duty K V))) :
    s.KeepsCache (s.booked r) := by
  rcases r with abort | ⟨handle, agenda⟩
  · exact .refl s
  · exact .update s s.cache.body.host agenda

/-- Moving the clock of the executor changes nothing else. -/
theorem moveClock_eq_ok (h : s.moveClock d = .ok s') :
    ∃ clock, s' = s.update fun w ↦ { w with agenda := { s.agenda with clock } } := by
  rw [moveClock, Agenda.moveClock] at h
  cases hclock : s.agenda.clock.advance d with
  | error abort =>
    rw [hclock] at h
    cases h
  | ok clock =>
    rw [hclock] at h
    cases h
    exact ⟨clock, rfl⟩

/-- Time that passes on the host changes the clocks only. -/
theorem passTime_eq_ok (h : s.passTime d = .ok s') :
    ∃ host clock, s' = s.update fun w ↦ { w with host, agenda := { s.agenda with clock } } := by
  rw [passTime, Agenda.moveClock] at h
  cases hhost : s.cache.body.host.advance d with
  | error abort =>
    rw [hhost] at h
    cases h
  | ok host =>
    rw [hhost] at h
    cases hgiven : s.cache.body.supplied with
    | true =>
      rw [hgiven] at h
      cases h
      exact ⟨host, s.agenda.clock, rfl⟩
    | false =>
      rw [hgiven] at h
      cases hclock : s.agenda.clock.advance d with
      | error abort =>
        rw [hclock] at h
        cases h
      | ok clock =>
        rw [hclock] at h
        cases h
        exact ⟨host, clock, rfl⟩

end

variable [DecidableEq K] [DecidableEq V]

private theorem snd_follow {α : Type} (script : Script (Operation K V) (Reply V) α)
    (s : Session K V) :
    (s.follow script).2 = ⟨{ s.cache with body := (s.cache.body.follow script).2 }, s.handles⟩ :=
  rfl

/-- What happens when a handle is dropped. -/
def dropping (handle : Nat) (s : Session K V) : List (Happening K V) :=
  if isHeld { s with handles := s.handles.set handle false } then [] else s.cache.body.releasing

/-- What happens in a dealing, and what it comes to. -/
def deal (fuel : Nat) (dealing : Dealing K V) (s : Session K V) :
    Option (List (Happening K V) × Session K V) :=
  match dealing with
  | .use script => some (s.cache.body.following script, (s.follow script).2)
  | .clone => some ([], s.clone.2)
  | .drop handle => some (s.dropping handle, s.drop handle)
  | .advance d => (s.advance fuel d).map fun r ↦ (s.cache.body.advancing fuel d, r.2)
  | .moveClock d => some ([], (s.moveClock d).toOption.getD s)
  | .passTime d => some ([], (s.passTime d).toOption.getD s)
  | .shutdown => some ([], s.shutdownExecutor)
  | .schedule delay errand => some ([], s.booked (s.agenda.schedule delay (.errand errand)))
  | .scheduleRepeating period errand =>
    some ([], s.booked (s.agenda.scheduleRepeating period (.errand errand)))
  | .cancel handle => some ([], s.update fun w ↦ { w with agenda := w.agenda.cancel handle })

/-- What happens in dealings one after the other, and what they come to. -/
def deals (fuel : Nat) : List (Dealing K V) → Session K V →
    Option (List (Happening K V) × Session K V)
  | [], s => some ([], s)
  | dealing :: rest, s => do
    let (first, s) ← s.deal fuel dealing
    let (later, s) ← s.deals fuel rest
    return (first ++ later, s)

/-- What has happened to a session tells the whole of it. All the while its cache tended its timers,
and a supplied executor was not shut down but by others, as one flag tells. -/
structure Recorded (own given shut : Bool) (trace : List (Happening K V)) (s : Session K V) :
    Prop where
  told : s.cache.body.told = trace.filterMap Happening.removal?
  closed : s.cache.phase = .closed ↔ .closed ∈ trace
  final : trace.Pairwise fun h h' ↦ h = .closed → h'.IsLate
  supplied : s.cache.body.supplied = given
  stopped : given = true → s.agenda.stopped = shut
  tended : PlannedEngine.IsTended own s.cache.body

namespace Recorded

variable {own given shut : Bool} {trace later : List (Happening K V)} {s s' : Session K V}

private theorem extend (h : Recorded own given shut trace s)
    {body : Running (s.cache.kind.Store K V) K V}
    (hrecounts : Running.Recounts own s.cache.body later body) (handles : List Bool) :
    Recorded own given shut (trace ++ later) ⟨{ s.cache with body }, handles⟩ := by
  constructor
  · rw [List.filterMap_append, ← h.told]
    exact hrecounts.told
  · rw [List.mem_append, ← h.closed]
    exact hrecounts.closed
  · refine List.pairwise_append.mpr ⟨h.final, hrecounts.final, ?_⟩
    intro x hx y hy hclosed
    rw [hclosed] at hx
    exact hrecounts.late (h.closed.mpr hx) y hy
  · exact hrecounts.supplied.trans h.supplied
  · intro hgiven
    exact (hrecounts.stopped (h.supplied.trans hgiven)).trans (h.stopped hgiven)
  · exact hrecounts.tended

private theorem quiet (h : Recorded own given shut trace s) :
    Recorded own given (shut || false) (trace ++ []) s := by
  rwa [Bool.or_false, List.append_nil]

private theorem others (h : Recorded own given shut trace s) {agenda : Agenda (Duty K V)}
    (hyields : s.agenda.Yields agenda) (hstopped : agenda.stopped = s.agenda.stopped) :
    Recorded own given shut trace (s.update fun w ↦ { w with agenda }) := by
  have hextended := h.extend (.withAgenda h.tended hyields hstopped) s.handles
  rwa [List.append_nil] at hextended

private theorem booked (h : Recorded own given shut trace s)
    {r : Except Abort (Handle × Agenda (Duty K V))}
    (hyields : ∀ handle agenda, r = .ok (handle, agenda) →
      s.agenda.Yields agenda ∧ agenda.stopped = s.agenda.stopped) :
    Recorded own given shut trace (s.booked r) := by
  rcases r with abort | ⟨handle, agenda⟩
  · exact h
  · obtain ⟨hyield, hstopped⟩ := hyields handle agenda rfl
    exact h.others hyield hstopped

private theorem shutdown (h : Recorded own given shut trace s) :
    Recorded own given true trace s.shutdownExecutor :=
  ⟨h.told, h.closed, h.final, h.supplied, fun _ ↦ rfl,
    PlannedEngine.aside h.tended (Agenda.yields_shutdown _) _ _ _ _ _⟩

private theorem drop (h : Recorded own given shut trace s) (handle : Nat) :
    Recorded own given shut (trace ++ s.dropping handle) (s.drop handle) := by
  rw [dropping, Session.drop]
  dsimp only
  split
  · exact h.extend (.refl h.tended) _
  · exact h.extend (.release h.tended) _

private theorem clocks (h : Recorded own given shut trace s) (host clock : Clock) :
    Recorded own given shut trace
      (s.update fun w ↦ { w with host, agenda := { s.agenda with clock } }) := by
  have hyields : s.agenda.Yields { s.agenda with clock } := ⟨.refl _, fun _ h ↦ h, id⟩
  have hextended := h.extend (.of_yields h.tended hyields (fun _ ↦ rfl) rfl
    s.cache.body.dispatching s.cache.body.listener host s.cache.body.log) s.handles
  rwa [List.append_nil] at hextended

private theorem deal (h : Recorded own given shut trace s) {fuel : Nat} {dealing : Dealing K V}
    (hdeal : s.deal fuel dealing = some (later, s')) :
    Recorded own given (shut || dealing.isShutdown) (trace ++ later) s' := by
  cases dealing with
  | use script =>
    cases hdeal
    rw [Dealing.isShutdown, Bool.or_false]
    exact h.extend (.follow script h.tended) s.handles
  | drop handle =>
    cases hdeal
    rw [Dealing.isShutdown, Bool.or_false]
    exact h.drop handle
  | advance d =>
    rw [Dealing.isShutdown, Bool.or_false]
    simp only [Session.deal, Session.advance, Cache.advance, Option.map_map,
      Option.map_eq_some_iff] at hdeal
    obtain ⟨⟨r, body⟩, hadvance, hdeal⟩ := hdeal
    cases hdeal
    exact h.extend (.advance h.tended hadvance) s.handles
  | clone =>
    cases hdeal
    rw [Dealing.isShutdown, Bool.or_false]
    exact h.extend (.refl h.tended) _
  | moveClock d =>
    cases hdeal
    cases hmoved : s.moveClock d with
    | error abort => exact h.quiet
    | ok s' =>
      obtain ⟨clock, rfl⟩ := moveClock_eq_ok hmoved
      exact (h.clocks s.cache.body.host clock).quiet
  | passTime d =>
    cases hdeal
    cases hpassed : s.passTime d with
    | error abort => exact h.quiet
    | ok s' =>
      obtain ⟨host, clock, rfl⟩ := passTime_eq_ok hpassed
      exact (h.clocks host clock).quiet
  | shutdown =>
    cases hdeal
    rw [Dealing.isShutdown, Bool.or_true, List.append_nil]
    exact h.shutdown
  | schedule delay errand =>
    cases hdeal
    refine (h.booked fun handle agenda hbooked ↦ ?_).quiet
    exact ⟨Agenda.yields_schedule (by simp) hbooked, Agenda.stopped_submit hbooked⟩
  | scheduleRepeating period errand =>
    cases hdeal
    refine (h.booked fun handle agenda hbooked ↦ ?_).quiet
    exact ⟨Agenda.yields_scheduleRepeating (by simp) hbooked,
      Agenda.stopped_scheduleRepeating hbooked⟩
  | cancel handle =>
    cases hdeal
    exact (h.others (Agenda.yields_cancel s.agenda handle)
      (Agenda.stopped_cancel s.agenda handle)).quiet

/-- The record goes on with all dealings. -/
theorem deals (h : Recorded own given shut trace s) {fuel : Nat}
    {dealings : List (Dealing K V)} (hdeals : s.deals fuel dealings = some (later, s')) :
    Recorded own given (shut || dealings.any Dealing.isShutdown) (trace ++ later) s' := by
  induction dealings generalizing shut trace later s with
  | nil =>
    cases hdeals
    rw [List.any_nil, Bool.or_false, List.append_nil]
    exact h
  | cons dealing rest ih =>
    simp only [Session.deals, Option.bind_eq_bind, Option.bind_eq_some_iff, Option.pure_def,
      Option.some.injEq, Prod.mk.injEq] at hdeals
    obtain ⟨⟨first, s₁⟩, hdeal, ⟨more, s₂⟩, hrest, rfl, rfl⟩ := hdeals
    rw [List.any_cons, ← Bool.or_assoc, ← List.append_assoc]
    exact ih (h.deal hdeal) hrest

/-- Whatever is done with a session, its cache is kept as it is once it is closed. -/
theorem deal_of_closed (h : Recorded own given shut trace s) (hclosed : s.cache.phase = .closed)
    {fuel : Nat} {dealing : Dealing K V} (hdeal : s.deal fuel dealing = some (later, s')) :
    s.KeepsCache s' := by
  cases dealing with
  | use script =>
    cases hdeal
    rw [snd_follow, Running.follow_of_closed hclosed]
    exact .refl s
  | clone =>
    cases hdeal
    exact ⟨s.agenda, s.cache.body.host, _, rfl⟩
  | drop handle =>
    cases hdeal
    rw [Session.drop]
    dsimp only
    split
    · exact ⟨s.agenda, s.cache.body.host, _, rfl⟩
    · rw [Cache.release, Running.release_of_closed hclosed]
      exact ⟨s.agenda, s.cache.body.host, _, rfl⟩
  | advance d =>
    simp only [Session.deal, Session.advance, Cache.advance, Option.map_map,
      Option.map_eq_some_iff] at hdeal
    obtain ⟨⟨r, body⟩, hadvance, hdeal⟩ := hdeal
    cases hdeal
    have hrests : Running.Rests own s.cache.body s.cache.body :=
      ⟨hclosed, ⟨s.agenda, rfl⟩, h.tended⟩
    obtain ⟨agenda, hsame⟩ := (hrests.advance hadvance).same
    rw [hsame]
    exact ⟨agenda, s.cache.body.host, s.handles, rfl⟩
  | moveClock d =>
    cases hdeal
    cases hmoved : s.moveClock d with
    | error abort => exact .refl s
    | ok s' =>
      obtain ⟨clock, rfl⟩ := moveClock_eq_ok hmoved
      exact .update s s.cache.body.host _
  | passTime d =>
    cases hdeal
    cases hpassed : s.passTime d with
    | error abort => exact .refl s
    | ok s' =>
      obtain ⟨host, clock, rfl⟩ := passTime_eq_ok hpassed
      exact .update s host _
  | shutdown =>
    cases hdeal
    exact .update s s.cache.body.host _
  | schedule delay errand =>
    cases hdeal
    exact .booked s _
  | scheduleRepeating period errand =>
    cases hdeal
    exact .booked s _
  | cancel handle =>
    cases hdeal
    exact .update s s.cache.body.host _

private theorem ofCache {cache : Cache K V} (hactive : cache.phase = .active)
    (hheard : cache.body.heard = []) (hsupplied : cache.body.supplied = given)
    (hstopped : cache.body.agenda.stopped = shut)
    (htended : PlannedEngine.IsTended own cache.body) :
    Recorded own given shut [] (ofCache cache) := by
  refine ⟨?_, ?_, .nil, hsupplied, fun _ ↦ hstopped, htended⟩
  · rw [Running.told, Session.ofCache, hheard]
    rfl
  · rw [Session.ofCache, hactive]
    simp

end Recorded

/-- Every cache starts with no history, and with its timers tended if there are none yet. If it
keeps a schedule of its own, it tends that, too. -/
theorem recorded_of_starts {spec : CacheSpec K V} {host : Clock} {cache : Cache K V}
    (h : cache.Starts spec host) (hnone : ∀ executor ∈ spec.executor, executor.timers = []) :
    ∃ own, (cache.kind = .timed → spec.executor = none → spec.engineExpiry.isSome = true →
        own = true) ∧
      Recorded own spec.executor.isSome (spec.executor.getD (.ofClock host)).stopped []
        (ofCache cache) := by
  have htimers : (spec.executor.getD (.ofClock host)).timers = [] := by
    cases hexecutor : spec.executor with
    | none => rfl
    | some executor => exact hnone executor hexecutor
  cases h with
  | vacant p =>
    have htended : IsUntimed false (Running.start (⟨⟩ : Vacant) p spec host) := ⟨htimers, rfl⟩
    exact ⟨false, by simp, .ofCache rfl rfl rfl rfl htended⟩
  | recency =>
    have htended : IsUntimed false
        (Running.start (Recency.empty (Factory.boundOf spec) : Recency K V) .lru spec host) :=
      ⟨htimers, rfl⟩
    exact ⟨false, by simp, .ofCache rfl rfl rfl rfl htended⟩
  | deferred =>
    have htended : IsUntimed false (Running.start
        (Deferred.empty (Factory.boundOf spec) spec.engineExpiry : Deferred K V) .moka spec host) :=
      ⟨htimers, rfl⟩
    exact ⟨false, by simp, .ofCache rfl rfl rfl rfl htended⟩
  | @kept x chain agenda hbooked =>
    have hyields := Agenda.yields_scheduleRepeating (by simp) hbooked
    have hsub := hyields.timers
    rw [htimers, List.subperm_nil] at hsub
    have htended : IsUntimed false { Running.start
        ({ Deferred.empty (Factory.boundOf spec) spec.engineExpiry with chain := some chain } :
          Deferred K V) .moka spec host with agenda } := ⟨hsub, rfl⟩
    have hstopped := Agenda.stopped_scheduleRepeating hbooked
    exact ⟨false, by simp, .ofCache rfl rfl rfl hstopped htended⟩
  | timed =>
    refine ⟨!spec.executor.isSome && spec.engineExpiry.isSome, ?_,
      .ofCache rfl rfl rfl rfl (Timed.tended_start htimers)⟩
    intro _ hexecutor hexpiry
    rw [hexecutor, hexpiry]
    rfl

/-- Close is final and silent, wherever in the history of a cache it comes, and be it in the middle
of another operation or of a duty, in a call of the listener. Once the cache has been closed,
nothing happens to it but that operations come too late: the listener is told of nothing more, and
neither does the duty of an entry have its turn nor the upkeep. The cache stays closed, replies as a
closed one to every operation, and is not changed by anything. All duties of its entries are
cancelled. An executor that was supplied is shut down by others only, and a schedule of the cache's
own is ended. -/
theorem close_is_final {registry : Registry} {spec : CacheSpec K V} {host : Host}
    {cache : Cache K V} {log : List LogEntry}
    (hcreated : registry.create spec host = (.ok cache, log))
    (hnone : ∀ executor ∈ spec.executor, executor.timers = []) {fuel : Nat}
    {dealings : List (Dealing K V)} {trace : List (Happening K V)} {s : Session K V}
    (hdeals : (ofCache cache).deals fuel dealings = some (trace, s)) :
    s.cache.body.told = trace.filterMap Happening.removal? ∧
      (∀ before after, trace = before ++ .closed :: after →
        s.cache.body.told = before.filterMap Happening.removal? ∧ ∀ h ∈ after, h.IsLate) ∧
      (∀ executor ∈ spec.executor,
        s.agenda.stopped = (executor.stopped || dealings.any Dealing.isShutdown)) ∧
      (s.cache.phase = .closed ↔ .closed ∈ trace) ∧
      (s.cache.phase = .closed →
        (∀ operation, s.perform operation = (operation.closedReply s.cache.provider, s)) ∧
        (∀ more dealing later s', s.deal more dealing = some (later, s') → s.KeepsCache s') ∧
        (∀ e ∈ s.agenda.queue, ∀ key stamp, e.job.body = .lapse key stamp →
          s.agenda.isCancelled e.handle = true) ∧
        (cache.kind = .timed → spec.executor = none → spec.engineExpiry.isSome = true →
          s.agenda.stopped = true)) := by
  obtain ⟨own, hown, hstart⟩ := recorded_of_starts (Registry.starts_create hcreated) hnone
  have hrecorded := hstart.deals hdeals
  rw [List.nil_append] at hrecorded
  refine ⟨hrecorded.told, ?_, ?_, hrecorded.closed, fun hclosed ↦ ⟨?_, ?_, ?_, ?_⟩⟩
  · intro before after htrace
    have hlate : ∀ h ∈ after, h.IsLate := by
      intro x hx
      have hfinal := hrecorded.final
      rw [htrace, List.pairwise_append, List.pairwise_cons] at hfinal
      exact hfinal.2.1.1 x hx rfl
    refine ⟨?_, hlate⟩
    have hsilent : after.filterMap Happening.removal? = [] := by
      apply List.filterMap_eq_nil_iff.mpr
      intro x hx
      obtain ⟨operation, rfl⟩ := hlate x hx
      rfl
    rw [hrecorded.told, htrace, List.filterMap_append, List.filterMap_cons_none rfl, hsilent,
      List.append_nil]
  · intro executor hexecutor
    have hstopped := hrecorded.stopped
    rw [Option.mem_def.mp hexecutor] at hstopped
    exact hstopped rfl
  · intro operation
    have hrefused := Running.performWith_of_closed s.cache.body.report hclosed operation
    rw [perform, follow, Cache.follow, Running.follow, Script.run_single, Running.perform, hrefused]
    rfl
  · intro more dealing later s' hdeal
    exact hrecorded.deal_of_closed hclosed hdeal
  · intro e he key stamp hbody
    exact List.contains_iff_mem.mpr
      (PlannedEngine.cancelled_of_closed hrecorded.tended hclosed e he key stamp hbody)
  · intro hkind hexecutor hexpiry
    have htended := hrecorded.tended
    rw [hown hkind hexecutor hexpiry] at htended
    exact PlannedEngine.stopped_of_closed htended hclosed

/-- A listener closes its cache in the middle of a put, in the call that tells of the value that was
replaced. The new value has a duty already, and it never has its turn. -/
theorem close_is_final_in_put :
    let reaction (_ : Removal Nat Nat) : Script (Operation Nat Nat) (Reply Nat) (Verdict Nat) :=
      .call .close fun _ ↦ .done ⟨[], none⟩
    let executor : Agenda (Duty Nat Nat) := .ofClock (.ofStart ⟨0, by decide, by decide⟩)
    let spec : CacheSpec Nat Nat :=
      ⟨some .dashMap, none, .postWrite, some ⟨100, by decide⟩, some ⟨[reaction], fun _ ↦ none⟩,
        some executor, false⟩
    let cache : Cache Nat Nat :=
      ⟨.timed, Running.start (Timed.empty spec.engineExpiry) .dashMap spec .fresh⟩
    let dealings : List (Dealing Nat Nat) :=
      [.use (.call (.put 1 10) fun _ ↦ .call (.put 1 20) fun _ ↦ .call .size fun _ ↦ .done ()),
        .advance ⟨200, by decide⟩]
    (Registry.builtin.create spec .fresh).1 = .ok cache ∧
      ∃ s, (ofCache cache).deals 3 dealings = some ([.served (.put 1 10), .served (.put 1 20),
        .called ⟨1, 10, .replaced⟩, .served .close, .closed, .late .size], s) ∧
        s.cache.body.told = [⟨1, 10, .replaced⟩] ∧ s.agenda.stopped = false := by
  intro reaction executor spec cache dealings
  have hcreated : Registry.builtin.create spec .fresh =
      (.ok cache, (Registry.builtin.create spec .fresh).2) := rfl
  have hnone (other : Agenda (Duty Nat Nat)) (hother : other ∈ spec.executor) :
      other.timers = [] := by
    cases hother
    rfl
  have htrace : ((ofCache cache).deals 3 dealings).map Prod.fst =
      some [.served (.put 1 10), .served (.put 1 20), .called ⟨1, 10, .replaced⟩, .served .close,
        .closed, .late .size] := by
    dsimp only [dealings, cache, spec, executor, reaction]
    rfl
  obtain ⟨⟨_, s⟩, hdeals, rfl⟩ := Option.map_eq_some_iff.mp htrace
  obtain ⟨htold, _, hstopped, _⟩ := close_is_final hcreated hnone hdeals
  exact ⟨rfl, s, hdeals, htold, hstopped executor rfl⟩

end Session

end Caching
