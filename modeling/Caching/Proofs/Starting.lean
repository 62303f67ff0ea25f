import Caching.Cache.Registry

/-!
# How caches start

Every cache that a registry creates starts in one of a few ways: without entries, on the engine of
its provider, and with its upkeep begun if it defers its work and entries expire. But for the
upkeep, the listener is no concern of whoever creates the cache.
-/

namespace Caching

variable {K V : Type}

private theorem Deferred.startUpkeep_eq_ok {x : Expiry} {w w' : Running (Deferred K V) K V}
    (h : startUpkeep x w = .ok w') : ∃ chain agenda,
      w.agenda.scheduleRepeating (upkeepPeriod x) .upkeep = .ok (chain, agenda) ∧
        w' = { w with agenda, store := { w.store with chain := some chain } } := by
  rw [startUpkeep] at h
  cases hbooked : w.agenda.scheduleRepeating (upkeepPeriod x) .upkeep with
  | error abort =>
    rw [hbooked] at h
    cases h
  | ok booked =>
    rw [hbooked] at h
    cases h
    exact ⟨booked.1, booked.2, rfl, rfl⟩

/-- The ways in which a cache of a specification starts. -/
inductive Cache.Starts (spec : CacheSpec K V) (clock : Clock) : Cache K V → Prop where
  | vacant (p : Provider) : Starts spec clock ⟨.vacant, Running.start (⟨⟩ : Vacant) p spec clock⟩
  | recency : Starts spec clock ⟨.recency,
      Running.start (Recency.empty (Factory.boundOf spec) : Recency K V) .lru spec clock⟩
  | timed : Starts spec clock ⟨.timed,
      Running.start (Timed.empty spec.engineExpiry : Timed K V) .dashMap spec clock⟩
  | deferred : Starts spec clock ⟨.deferred,
      Running.start (Deferred.empty (Factory.boundOf spec) spec.engineExpiry : Deferred K V)
        .moka spec clock⟩
  /-- The upkeep has been started. -/
  | kept (x : Expiry) {chain : Handle} {agenda : Agenda (Duty K V)}
      (h : (spec.executor.getD (.ofClock clock)).scheduleRepeating (Deferred.upkeepPeriod x)
        .upkeep = .ok (chain, agenda)) : Starts spec clock ⟨.deferred, { Running.start
          ({ Deferred.empty (Factory.boundOf spec) spec.engineExpiry with chain := some chain } :
            Deferred K V) .moka spec clock with agenda }⟩

/-- The cache with another listener. -/
def Cache.withListener (cache : Cache K V) (listener : Option (Listener K V)) : Cache K V :=
  { cache with body := { cache.body with listener } }

variable {spec : CacheSpec K V} {cache : Cache K V} {log : List LogEntry}

/-- The listener is the one of the specification. -/
theorem Cache.Starts.listener {clock : Clock} (h : cache.Starts spec clock) :
    cache.body.listener = spec.listener := by
  cases h <;> rfl

variable {host : Host}

private theorem Factory.starts_build {factory : Factory}
    (h : factory.build spec host = (.ok cache, log)) : cache.Starts spec host.clock := by
  cases factory with
  | refusing => cases h
  | builtin p =>
    cases p with
    | moka =>
      simp only [build, buildDeferred] at h
      split at h
      · next x _ =>
        split at h
        · cases h
        · split at h
          · split at h
            · next body hstarted =>
              cases h
              obtain ⟨chain, agenda, hbooked, rfl⟩ := Deferred.startUpkeep_eq_ok hstarted
              exact .kept x hbooked
            · cases h
          · cases h
            exact .deferred
      · cases h
        exact .deferred
    | lru =>
      simp only [build, buildRecency] at h
      split at h
      · cases h
      · split at h
        · cases h
        · split at h
          · cases h
          · split at h
            · cases h
            · cases h
              exact .recency
        · cases h
          exact .recency
    | dashMap =>
      simp only [build, buildTimed] at h
      split at h
      · cases h
      · cases h
        exact .timed

/-- Every registry starts its caches so. -/
theorem Registry.starts_create {registry : Registry}
    (h : registry.create spec host = (.ok cache, log)) : cache.Starts spec host.clock := by
  rw [create] at h
  cases hresolved : registry.resolve spec.provider with
  | error fault =>
    simp only [hresolved] at h
    cases h
  | ok listing =>
    simp only [hresolved] at h
    rcases hbuilt : buildListed listing spec host with ⟨outcome, more⟩
    cases outcome with
    | error failure =>
      simp only [hbuilt] at h
      cases h
    | ok built =>
      simp only [hbuilt, Prod.mk.injEq, Except.ok.injEq] at h
      obtain ⟨rfl, _⟩ := h
      rw [buildListed] at hbuilt
      split at hbuilt
      · cases hbuilt
        exact .vacant listing.id
      · exact Factory.starts_build hbuilt

private theorem Factory.build_withListener {factory : Factory}
    (h : factory.build spec host = (.ok cache, log))
    (hdeferred : cache.kind = .deferred → spec.engineExpiry = none)
    (listener : Option (Listener K V)) :
    factory.build { spec with listener } host = (.ok (cache.withListener listener), log) := by
  have hexpiry : Spec.engineExpiry { spec with listener } = spec.engineExpiry := rfl
  have hbound : boundOf { spec with listener } = boundOf spec := rfl
  cases factory with
  | refusing => cases h
  | builtin p =>
    cases p with
    | moka =>
      simp only [build, buildDeferred, hexpiry] at h ⊢
      cases hx : spec.engineExpiry with
      | none =>
        simp only [hx] at h
        cases h
        rfl
      | some x =>
        have hkind : cache.kind = .deferred := by
          simp only [hx] at h
          split at h
          · cases h
          · split at h
            · split at h <;> cases h
              rfl
            · cases h
              rfl
        rw [hdeferred hkind] at hx
        cases hx
    | lru =>
      simp only [build, buildRecency, hbound] at h ⊢
      split at h
      · cases h
      · next hnone =>
        have hexpiry' : Spec.expiry { spec with listener } = spec.expiry := rfl
        rw [hexpiry', hnone]
        dsimp only
        split at h
        · cases h
        · next bound hpositive hsome =>
          by_cases hlaid : largestTable < bound
          · rw [if_pos hlaid] at h
            cases h
          · by_cases hfits : host.room < bound
            · rw [if_neg hlaid, if_pos hfits] at h
              cases h
            · rw [if_neg hlaid, if_neg hfits] at h
              cases h
              simp only [hsome, if_neg hlaid, if_neg hfits]
              rfl
        · next hsome =>
          cases h
          simp only [hsome]
          rfl
    | dashMap =>
      simp only [build, buildTimed] at h ⊢
      split at h
      · cases h
      · cases h
        rfl

/-- Neither does a registry. -/
theorem Registry.create_withListener {registry : Registry}
    (h : registry.create spec host = (.ok cache, log))
    (hdeferred : cache.kind = .deferred → spec.engineExpiry = none)
    (listener : Option (Listener K V)) :
    ∃ log', registry.create { spec with listener } host =
      (.ok (cache.withListener listener), log') := by
  rw [create] at h ⊢
  dsimp only at h ⊢
  cases hresolved : registry.resolve spec.provider with
  | error fault =>
    simp only [hresolved] at h
    cases h
  | ok listing =>
    simp only [hresolved] at h ⊢
    rcases hbuilt : buildListed listing spec host with ⟨outcome, more⟩
    cases outcome with
    | error failure =>
      simp only [hbuilt] at h
      cases h
    | ok built =>
      simp only [hbuilt, Prod.mk.injEq, Except.ok.injEq] at h
      obtain ⟨rfl, _⟩ := h
      have hother : buildListed listing { spec with listener } host =
          (.ok (built.withListener listener), more) := by
        rw [buildListed] at hbuilt ⊢
        by_cases hempty : spec.isAlwaysEmpty = true
        · rw [if_pos hempty] at hbuilt
          cases hbuilt
          exact if_pos hempty
        · rw [if_neg hempty] at hbuilt
          rw [← Factory.build_withListener hbuilt hdeferred listener]
          exact if_neg hempty
      simp only [hother]
      exact ⟨_, rfl⟩

end Caching
