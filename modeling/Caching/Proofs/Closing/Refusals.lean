import Caching.Proofs.Closing.Finality
import Caching.Proofs.Engine.Course
import Caching.Proofs.History

/-!
# What a closed cache refuses

A cache goes by one provider for its whole life, and whatever is done with it after it was closed,
it stays closed. So everything that is asked of it from then on is refused in the name of that
provider. Only to close it again succeeds, and to store no entries at all, as that comes down to no
operation.
-/

namespace Caching

variable {K V : Type}

/-- What a script comes to if each of its operations is answered as on a closed cache. -/
def Script.refusedBy {α : Type} (p : Provider) (script : Script (Operation K V) (Reply V) α) : α :=
  (script.run (fun operation (_ : Unit) ↦ (operation.closedReply p, ())) ()).1

/-- Where every operation is refused and changes nothing, so is a script. -/
theorem Script.run_refused {α σ : Type} {p : Provider} {s : σ}
    {act : Operation K V → σ → Reply V × σ}
    (hact : ∀ operation, act operation s = (operation.closedReply p, s))
    (script : Script (Operation K V) (Reply V) α) : script.run act s = (script.refusedBy p, s) := by
  induction script with
  | done result => rfl
  | call operation next ih =>
    simp only [run, hact operation]
    exact ih (operation.closedReply p)

section

variable {σ : Type} {start w w' : Running σ K V}

/-- The cache goes by the same provider, and was not opened again. -/
structure Running.Endures (w w' : Running σ K V) : Prop where
  provider : w'.provider = w.provider
  closed : w.phase = .closed → w'.phase = .closed

private theorem Running.Endures.frames (h : start.Endures w) (hframes : w.Frames w') :
    start.Endures w' := by
  obtain ⟨store, agenda, log, rfl⟩ := hframes
  exact ⟨h.provider, h.closed⟩

/-- What engines keep between reports, and reports keep, plans keep. -/
theorem Plan.run_kept {good : Running σ K V → Prop} {report : Report σ K V}
    {tended : Running σ K V → Prop} (hframes : ∀ w w', w.Frames w' → good w → good w')
    (hreport : ∀ removal w, good w → good (report removal w)) {p : Plan σ K V}
    (hmoves : p.Moves tended w) (h : good w) : good (p.run report) := by
  induction p generalizing w with
  | done w' => exact hframes w w' hmoves.frames h
  | tell removal w' next ih =>
    have hpassed := hframes w w' hmoves.1.frames h
    exact ih (report removal w') (hmoves.2 _) (hreport removal w' hpassed)

namespace Running

variable [Engine σ K V] [DecidableEq V] [PlannedEngine σ K V]

/-- After `close` the cache is closed. -/
theorem phase_close (w : Running σ K V) : w.close.phase = .closed := by
  unfold Running.close
  split
  · next hclosed => exact hclosed
  · obtain ⟨store, agenda, log, hframes⟩ :=
      PlannedEngine.teardown_frames { w with phase := .closed }
    rw [hframes]

private theorem Endures.release (h : start.Endures w) : start.Endures w.release := by
  unfold Running.release
  split
  · exact h
  · have hshut : start.Endures { w with phase := .closed } := ⟨h.provider, fun _ ↦ rfl⟩
    exact hshut.frames (PlannedEngine.teardown_frames _)

/-- Operations keep the provider, and the phase of a closed cache. -/
theorem Endures.performWith {report : Report σ K V}
    (hreport : ∀ removal w, start.Endures w → start.Endures (report removal w))
    (operation : Operation K V) (h : start.Endures w) :
    start.Endures (Running.performWith report operation w).2 := by
  cases hphase : w.phase with
  | closed =>
    rw [performWith_of_closed report hphase]
    exact h
  | active =>
    by_cases hclose : operation = .close
    · subst hclose
      have hreleased := h.release
      rw [Running.release, hphase] at hreleased
      rw [Running.performWith, Running.close, hphase]
      exact ⟨hreleased.provider, hreleased.closed⟩
    · cases hnow : Engine.reading w with
      | error abort =>
        rw [performWith_of_abort report hphase hnow hclose]
        exact h
      | ok now =>
        rw [PlannedEngine.serve_eq report hclose hphase hnow]
        exact Plan.run_kept (fun _ _ hframes h ↦ h.frames hframes) hreport
          (PlannedEngine.serve_moves false now operation hphase) h

private theorem Endures.reportAt (bound : Nat) (removal : Removal K V) (h : start.Endures w) :
    start.Endures (Running.reportAt bound removal w) :=
  reportAt_kept (fun _ hreport operation _ h ↦ h.performWith hreport operation)
    (fun _ _ _ _ _ h ↦ ⟨h.provider, h.closed⟩) bound removal h

private theorem Endures.upkeep (h : start.Endures w) :
    start.Endures (Engine.upkeep w.report w) := by
  rw [PlannedEngine.upkeep_eq]
  exact Plan.run_kept (fun _ _ hframes h ↦ h.frames hframes)
    (fun removal _ h ↦ h.reportAt _ removal) (PlannedEngine.upkeep_moves false w) h

private theorem Endures.lapse_of_lawful [LawfulEngine σ K V] (key : K) (stamp : Nat)
    (h : start.Endures w) : start.Endures (Engine.lapse w.report key stamp w) := by
  rw [LawfulEngine.lapse_eq]
  have hlapsed := h.frames (LawfulEngine.lapsed_frames key stamp w)
  exact tell_kept (fun removal _ h ↦ h.reportAt _ removal) _ hlapsed

end Running

end

variable [DecidableEq K] [DecidableEq V]

namespace Running

variable {kind : Kind} {start w : Running (kind.Store K V) K V}

private theorem Endures.lapse (key : K) (stamp : Nat) (h : start.Endures w) :
    start.Endures (Engine.lapse w.report key stamp w) := by
  have hvacant {start w : Running Vacant K V} (h : start.Endures w) :
      start.Endures (Engine.lapse w.report key stamp w) := h.lapse_of_lawful key stamp
  have hrecency {start w : Running (Recency K V) K V} (h : start.Endures w) :
      start.Endures (Engine.lapse w.report key stamp w) := h.lapse_of_lawful key stamp
  have htimed {start w : Running (Timed K V) K V} (h : start.Endures w) :
      start.Endures (Engine.lapse w.report key stamp w) := h.lapse_of_lawful key stamp
  cases kind with
  | vacant => exact hvacant h
  | recency => exact hrecency h
  | timed => exact htimed h
  | deferred => exact h

private theorem Undergoes.endures {dialogue : List (Operation K V × Reply V)}
    (h : start.Undergoes dialogue w) : start.Endures w := by
  induction h with
  | start => exact ⟨rfl, id⟩
  | operate _ operation ih =>
    exact ih.performWith (fun removal _ h ↦ h.reportAt _ removal) operation
  | lapse _ key stamp ih => exact ih.lapse key stamp
  | upkeep _ ih => exact ih.upkeep
  | rearrange _ agenda host ih => exact ⟨ih.provider, ih.closed⟩
  | release _ ih => exact ih.release

end Running

namespace Session

variable {s s' : Session K V} {trace : List (Happening K V)} {fuel : Nat}

/-- The cache of a session goes by the same provider, and was not opened again. -/
def Endures (s s' : Session K V) : Prop :=
  s'.cache.provider = s.cache.provider ∧ (s.cache.phase = .closed → s'.cache.phase = .closed)

/-- Whatever is done with a session from outside, its cache endures. -/
theorem deal_endures {dealing : Dealing K V} (h : s.deal fuel dealing = some (trace, s')) :
    s.Endures s' := by
  have hbody {kind : Kind} {start w : Running (kind.Store K V) K V} (h : start.Endures w) :
      w.provider = start.provider ∧ (start.phase = .closed → w.phase = .closed) :=
    ⟨h.provider, h.closed⟩
  have hsame : s.Endures s := ⟨rfl, id⟩
  have hstart : s.cache.body.Undergoes [] s.cache.body := .start
  cases dealing with
  | use script =>
    cases h
    obtain ⟨later, hlater⟩ := (Running.Leads.refl hstart).follow script
    exact hbody hlater.endures
  | drop handle =>
    cases h
    unfold Session.drop
    dsimp only
    split
    · exact hsame
    · exact hbody hstart.release.endures
  | advance d =>
    simp only [deal, Session.advance, Cache.advance, Option.map_map, Option.map_eq_some_iff] at h
    obtain ⟨⟨r, body⟩, hadvance, hdeal⟩ := h
    cases hdeal
    obtain ⟨later, hlater⟩ := hstart.advance hadvance
    exact hbody hlater.endures
  | moveClock d =>
    cases h
    cases hmoved : s.moveClock d with
    | error abort => exact hsame
    | ok s' =>
      obtain ⟨clock, rfl⟩ := moveClock_eq_ok hmoved
      exact hsame
  | passTime d =>
    cases h
    cases hpassed : s.passTime d with
    | error abort => exact hsame
    | ok s' =>
      obtain ⟨host, clock, rfl⟩ := passTime_eq_ok hpassed
      exact hsame
  | schedule delay errand =>
    cases h
    unfold booked
    split <;> exact hsame
  | scheduleRepeating period errand =>
    cases h
    unfold booked
    split <;> exact hsame
  | clone | shutdown | cancel =>
    cases h
    exact hsame

/-- Whatever is done with a session from outside, and however often, its cache endures. -/
theorem deals_endures {dealings : List (Dealing K V)}
    (h : s.deals fuel dealings = some (trace, s')) : s.Endures s' := by
  induction dealings generalizing trace s with
  | nil =>
    cases h
    exact ⟨rfl, id⟩
  | cons dealing rest ih =>
    simp only [deals, Option.bind_eq_bind, Option.bind_eq_some_iff, Option.pure_def,
      Option.some.injEq, Prod.mk.injEq] at h
    obtain ⟨⟨first, s₁⟩, hdeal, ⟨more, s₂⟩, hrest, rfl, rfl⟩ := h
    obtain ⟨hprovider, hclosed⟩ := deal_endures hdeal
    obtain ⟨hprovider', hclosed'⟩ := ih hrest
    exact ⟨hprovider'.trans hprovider, fun h ↦ hclosed' (hclosed h)⟩

/-- Whatever is asked of the session is refused in the name of the provider, and changes nothing.
Only closing it again succeeds, and so does storing no entries at all. -/
structure Refuses (p : Provider) (s : Session K V) : Prop where
  perform : ∀ operation : Operation K V, operation ≠ .close → operation ≠ .state →
    operation ≠ .provider → s.perform operation = (.refused p, s)
  getOrDefault : ∀ (key : K) (default : V),
    s.follow (Caching.getOrDefault key default) = (.refused p, s)
  computeIfAbsent : ∀ (key : K)
    (computation : Script (Operation K V) (Reply V) (Except Abort V)),
    s.follow (computeIfAbsentBy id key computation) = (.refused p, s)
  putAll : ∀ entries : List (K × V),
    s.follow (Caching.putAll entries) = (.refused p, s) ↔ entries ≠ []
  close : s.perform .close = (.ok .done, s)

/-- The session refuses everything, whatever is done with it from now on. -/
def RefusesForGood (p : Provider) (s : Session K V) : Prop :=
  ∀ fuel dealings trace s', s.deals fuel dealings = some (trace, s') → s'.Refuses p

/-- On a closed cache every operation of a script is refused. -/
theorem follow_of_closed {α : Type} (hclosed : s.cache.phase = .closed)
    (script : Script (Operation K V) (Reply V) α) :
    s.follow script = (script.refusedBy s.cache.provider, s) := by
  have hact : ∀ operation : Operation K V, s.cache.body.perform operation =
      (operation.closedReply s.cache.provider, s.cache.body) :=
    Running.performWith_of_closed s.cache.body.report hclosed
  rw [follow, Cache.follow, Running.follow, Script.run_refused hact]

private theorem refuses_of_closed (hclosed : s.cache.phase = .closed) :
    s.Refuses s.cache.provider := by
  refine ⟨?_, ?_, ?_, ?_, follow_of_closed hclosed (.single .close)⟩
  · intro operation hclose hstate hprovider
    rw [perform, follow_of_closed hclosed]
    cases operation with
    | close => exact absurd rfl hclose
    | state => exact absurd rfl hstate
    | provider => exact absurd rfl hprovider
    | _ => rfl
  · intro key default
    exact follow_of_closed hclosed (Caching.getOrDefault key default)
  · intro key computation
    exact follow_of_closed hclosed (computeIfAbsentBy id key computation)
  · intro entries
    cases entries with
    | nil =>
      refine iff_of_false (fun h ↦ ?_) (not_not_intro rfl)
      cases congrArg (fun r ↦ r.1.outcome) h
    | cons e rest =>
      refine iff_of_true ?_ (List.cons_ne_nil e rest)
      exact follow_of_closed hclosed (Caching.putAll (e :: rest))

/-- A closed session refuses everything for good. -/
theorem refusesForGood_of_closed (hclosed : s.cache.phase = .closed) :
    s.RefusesForGood s.cache.provider := by
  intro fuel dealings trace s' hdeals
  obtain ⟨hprovider, hstill⟩ := deals_endures hdeals
  rw [← hprovider]
  exact refuses_of_closed (hstill hclosed)

/-- Whatever was done with a cache before, `close` succeeds, and from then on everything that is
asked of the cache is refused, in the name of the provider that it went by from the start. The same
holds from whatever has closed the cache, be it a listener in the middle of another operation. To
store a collection is refused exactly if there is something to store. Where `close` comes in the
middle of an operation, whatever the operation has left of the cache and however removals are
reported then, every operation of the script that goes on there is refused as well, and changes
nothing. -/
theorem refuses_after_close {cache : Cache K V} {fuel : Nat} {before : List (Dealing K V)}
    {trace : List (Happening K V)} {s : Session K V}
    (hbefore : (ofCache cache).deals fuel before = some (trace, s)) :
    (s.perform .close).1 = .ok .done ∧ (s.perform .close).2.RefusesForGood cache.provider ∧
      (s.cache.phase = .closed → s.RefusesForGood cache.provider) ∧
      ∀ (report : Report (cache.kind.Store K V) K V) (w : Running (cache.kind.Store K V) K V),
        (Running.performWith report .close w).1 = .ok .done ∧
        (Running.performWith report .close w).2.phase = .closed ∧
        (w.phase = .closed → ∀ (α : Type) (script : Script (Operation K V) (Reply V) α),
          script.run (Running.performWith report) w = (script.refusedBy w.provider, w)) := by
  have hprovider : s.cache.provider = cache.provider := (deals_endures hbefore).1
  have hclose : (s.perform .close).2.cache.provider = s.cache.provider := by
    have hdeal : s.deal 0 (.use (.call .close fun _ ↦ .done ())) =
        some (_, (s.perform .close).2) := rfl
    exact (deal_endures hdeal).1
  refine ⟨rfl, ?_, ?_, fun report w ↦ ⟨rfl, w.phase_close, ?_⟩⟩
  · rw [← hprovider, ← hclose]
    exact refusesForGood_of_closed (s.cache.body.phase_close)
  · intro hclosed
    rw [← hprovider]
    exact refusesForGood_of_closed hclosed
  · intro hclosed α script
    exact Script.run_refused (Running.performWith_of_closed report hclosed) script

/-- A cache is closed after a value was stored, and refuses to give it. -/
theorem refuses_after_close_of_put :
    let spec : CacheSpec Nat Nat := ⟨some .lru, some 3, .none, none, none, none, false⟩
    let cache : Cache Nat Nat :=
      ⟨.recency, Running.start (Recency.empty (some 3)) .lru spec .fresh⟩
    (Registry.builtin.create spec .fresh).1 = .ok cache ∧
      ∃ trace s, (ofCache cache).deals 0 [.use (.call (.put 1 10) fun _ ↦ .done ())] =
          some (trace, s) ∧
        (s.perform .close).1 = .ok .done ∧
        (s.perform .close).2.perform (.get 1) = (.refused .lru, (s.perform .close).2) := by
  intro spec cache
  have hdeals : (ofCache cache).deals 0 [.use (.call (.put 1 10) fun _ ↦ .done ())] =
      some (_, _) := rfl
  obtain ⟨hdone, hrefuses, _⟩ := refuses_after_close hdeals
  refine ⟨rfl, _, _, hdeals, hdone, ?_⟩
  exact (hrefuses 0 [] [] _ rfl).perform (.get 1) (by simp) (by simp) (by simp)

/-- Not everything is refused: to store no entries succeeds on a closed cache. -/
theorem putAll_nil_not_refused :
    let spec : CacheSpec Nat Nat := ⟨some .lru, none, .none, none, none, none, false⟩
    let cache : Cache Nat Nat :=
      ⟨.recency, Running.start (Recency.empty none) .lru spec .fresh⟩
    (Registry.builtin.create spec .fresh).1 = .ok cache ∧
      (((ofCache cache).perform .close).2.follow (putAll [])).1.outcome = .ok .done ∧
      ((ofCache cache).perform .close).2.follow (putAll []) ≠
        (.refused .lru, ((ofCache cache).perform .close).2) := by
  intro spec cache
  refine ⟨rfl, rfl, fun h ↦ ?_⟩
  cases congrArg (fun r ↦ r.1.outcome) h

end Session

end Caching
