import Caching.Cache.Registry
import Caching.Proofs.Agenda.Laws
import Caching.Proofs.Spec.Calls
import Caching.Proofs.Starting

/-!
# Rulings

What is to become of a request for a cache is ruled by the configuration, by the providers that are
available and by what the resolved factory can do, in this order. Every factory abides by its
ruling, as long as its engine copes with what it is asked for: a table has to fit into the memory of
the host, and an executor has to take the upkeep. If the engine does not cope, the factory aborts.
-/

namespace Caching

variable {K V : Type}

/-- There is a cache as ruled, which is active, or the fault that was ruled. -/
def Built.Obeys (built : Built K V) : Except Fault (Kind × Provider) → Prop
  | .ok (kind, provider) => ∃ cache, built.1 = .ok cache ∧ cache.kind = kind ∧
      cache.provider = provider ∧ cache.phase = .active
  | .error fault => built.1 = .error (.fault fault)

/-- There is an active cache, or a fault. -/
def Built.IsSettled (built : Built K V) : Prop :=
  (∃ cache, built.1 = .ok cache ∧ cache.phase = .active) ∨ ∃ fault, built.1 = .error (.fault fault)

/-- What was logged has no part in it. -/
theorem Built.obeys_congr {built built' : Built K V} {ruling : Except Fault (Kind × Provider)}
    (h : built.1 = built'.1) : built.Obeys ruling ↔ built'.Obeys ruling := by
  cases ruling <;> simp [Obeys, h]

/-- What was logged does not settle anything either. -/
theorem Built.isSettled_congr {built built' : Built K V} (h : built.1 = built'.1) :
    built.IsSettled ↔ built'.IsSettled := by
  simp [IsSettled, h]

/-- Whatever was ruled, what obeys is settled. -/
theorem Built.Obeys.isSettled {built : Built K V} {ruling : Except Fault (Kind × Provider)}
    (h : built.Obeys ruling) : built.IsSettled := by
  cases ruling with
  | error fault => exact .inr ⟨fault, h⟩
  | ok ruled =>
    obtain ⟨cache, hcache, _, _, hactive⟩ := h
    exact .inl ⟨cache, hcache, hactive⟩

/-- An abort settles nothing. -/
theorem Built.not_isSettled {built : Built K V} {abort : Abort}
    (h : built.1 = .error (.abort abort)) : ¬ built.IsSettled := by
  rintro (⟨cache, hcache, _⟩ | ⟨fault, hfault⟩)
  · rw [h] at hcache
    cases hcache
  · rw [h] at hfault
    cases hfault

namespace Factory

/-- What a factory rules by what its engine can do. -/
def ruling (factory : Factory) (spec : CacheSpec K V) : Except Fault (Kind × Provider) :=
  match factory with
  | .builtin .moka => .ok (.deferred, .moka)
  | .builtin .lru =>
    match Capability.forExpiry? spec.expiryType with
    | some capability => .error (.unsupportedCapability .lru capability)
    | none =>
      if spec.maxSize = some 0 then
        .error (.invalidSpecification "maximum size 0 is out of range for the lru provider")
      else .ok (.recency, .lru)
  | .builtin .dashMap =>
    if spec.maxSize.isSome then .error (.unsupportedCapability .dashMap .sizeBound)
    else .ok (.timed, .dashMap)
  | .refusing => .error .noProviderAvailable

/-- The executor takes the upkeep, if there is to be any. -/
def TakesUpkeep (spec : CacheSpec K V) (host : Host) : Prop :=
  ∀ x ∈ spec.engineExpiry, (spec.executor.isSome || spec.listener.isSome) = true →
    ∃ booked, (spec.executor.getD (.ofClock host.clock)).scheduleRepeating (Deferred.upkeepPeriod x)
      .upkeep = .ok booked

variable {spec : CacheSpec K V} {host : Host}

private theorem takesUpkeep_of_none (hx : spec.engineExpiry = none) : TakesUpkeep spec host := by
  intro x hmem
  rw [hx] at hmem
  cases hmem

private theorem takesUpkeep_iff_of_some {x : Expiry} (hx : spec.engineExpiry = some x) :
    TakesUpkeep spec host ↔ ((spec.executor.isSome || spec.listener.isSome) = true →
      ∃ booked, (spec.executor.getD (.ofClock host.clock)).scheduleRepeating
        (Deferred.upkeepPeriod x) .upkeep = .ok booked) := by
  simp [TakesUpkeep, hx]

private theorem takesUpkeep_of_readable {now : Instant}
    (hnow : (spec.executor.getD (.ofClock host.clock)).clock.now = .ok now) :
    TakesUpkeep spec host := by
  intro x _ _
  obtain ⟨agenda, harmed⟩ := Agenda.arm_ok
    (a := (spec.executor.getD (.ofClock host.clock)).freshHandle.2) hnow ⟨(spec.executor.getD (.ofClock host.clock)).nextHandle⟩ (Deferred.upkeepPeriod x) 1 .upkeep
  exact ⟨_, Agenda.scheduleRepeating_eq_ok_iff.mpr ⟨rfl, harmed⟩⟩

/-- The executor of the specification aborts when it is given the upkeep. -/
def Stalls (spec : CacheSpec K V) (abort : Abort) : Prop :=
  ∃ x ∈ spec.engineExpiry, ∃ executor ∈ spec.executor,
    executor.scheduleRepeating (Deferred.upkeepPeriod x) .upkeep = .error abort

/-- An executor aborts only if it runs and its clock cannot be read. -/
theorem Stalls.exists_executor {abort : Abort} (h : Stalls spec abort) :
    ∃ executor ∈ spec.executor, executor.stopped = false ∧ executor.clock.now = .error abort := by
  obtain ⟨x, _, executor, hexecutor, hbooked⟩ := h
  rw [Agenda.scheduleRepeating_eq_error_iff, Agenda.arm] at hbooked
  refine ⟨executor, hexecutor, ?_⟩
  split at hbooked
  · cases hbooked
  · next hgoes =>
    simp only [Bool.or_eq_true, not_or, Bool.not_eq_true] at hgoes
    refine ⟨hgoes.2, ?_⟩
    cases hsubmit : executor.freshHandle.2.submit (Deferred.upkeepPeriod x)
        (.link ⟨executor.nextHandle⟩ (Deferred.upkeepPeriod x) 1 .upkeep) with
    | ok booked =>
      rw [hsubmit] at hbooked
      cases hbooked
    | error other =>
      rw [hsubmit] at hbooked
      cases hbooked
      exact Agenda.now_of_submit_eq_error (a := executor.freshHandle.2) hsubmit

/-- As long as the host knows the time, the upkeep is taken unless a supplied executor aborts. -/
theorem takesUpkeep_of_not_stalls {now : Instant} (hhost : host.clock.now = .ok now)
    (h : ∀ abort, ¬ Stalls spec abort) : TakesUpkeep spec host := by
  cases hexecutor : spec.executor with
  | none =>
    have hnow : (spec.executor.getD (.ofClock host.clock)).clock.now = .ok now := by
      rw [hexecutor]
      exact hhost
    exact takesUpkeep_of_readable hnow
  | some executor =>
    intro x hx _
    rw [hexecutor, Option.getD_some]
    cases hbooked : executor.scheduleRepeating (Deferred.upkeepPeriod x) .upkeep with
    | ok booked => exact ⟨booked, rfl⟩
    | error abort => exact absurd ⟨x, hx, executor, hexecutor, hbooked⟩ (h abort)

/-- The table for as many entries as may be stored can be laid out, and there is memory for it. -/
def FitsTable (spec : CacheSpec K V) (host : Host) : Prop :=
  ∀ bound ∈ spec.maxSize, bound.toNat ≤ largestTable ∧ bound.toNat ≤ host.room

private theorem fitsTable_of_none (hsize : spec.maxSize = none) : FitsTable spec host := by
  intro bound hmem
  rw [hsize] at hmem
  cases hmem

private theorem fitsTable_iff_of_some {n : UInt64} (hsize : spec.maxSize = some n) :
    FitsTable spec host ↔ n.toNat ≤ largestTable ∧ n.toNat ≤ host.room := by
  simp [FitsTable, hsize]

/-- The engine of a factory copes with everything that it does not refuse. -/
def Copes (factory : Factory) (spec : CacheSpec K V) (host : Host) : Prop :=
  match factory with
  | .builtin .moka => TakesUpkeep spec host
  | .builtin .lru => spec.expiryType.isEnabled = false → FitsTable spec host
  | .builtin .dashMap | .refusing => True

private theorem le_longestLife (hsound : spec.IsSound) {x : Expiry}
    (hx : spec.engineExpiry = some x) : x.time.nanos ≤ Deferred.longestLife.nanos := by
  unfold Spec.engineExpiry Spec.expiry at hx
  split at hx
  · cases htime : spec.expiryTime with
    | none => simp [htime] at hx
    | some time =>
      obtain ⟨_, hle⟩ := hsound.time time htime
      simp only [htime, Option.map_some, Option.some.injEq] at hx
      subst hx
      exact Nat.le_trans hle (by decide)
  · cases hx

private theorem capability_expiry (hsound : spec.IsSound) :
    (spec.expiry.map Prod.fst).bind Capability.forExpiry? =
      Capability.forExpiry? spec.expiryType := by
  have henabled := hsound.enabled
  unfold Spec.expiry
  cases hkind : spec.expiryType with
  | none => rfl
  | postWrite | postAccess =>
    rw [hkind] at henabled
    obtain ⟨time, htime⟩ := Option.isSome_iff_exists.mp henabled
    rw [htime]
    rfl

private theorem isEnabled_eq_false_iff {kind : ExpiryType} :
    kind.isEnabled = false ↔ Capability.forExpiry? kind = none := by
  cases kind <;> decide

private theorem buildDeferred_obeys (hsound : spec.IsSound) (htakes : TakesUpkeep spec host) :
    (buildDeferred spec host).Obeys (.ok (.deferred, .moka)) := by
  unfold buildDeferred
  cases hx : spec.engineExpiry with
  | none => exact ⟨_, rfl, rfl, rfl, rfl⟩
  | some x =>
    have hlife : ¬ Deferred.longestLife.nanos < x.time.nanos :=
      Nat.not_lt.mpr (le_longestLife hsound hx)
    simp only [hlife, if_false]
    split
    · next hneeded =>
      obtain ⟨booked, hbooked⟩ := (takesUpkeep_iff_of_some hx).mp htakes hneeded
      simp only [Deferred.startUpkeep, Running.start, hbooked]
      exact ⟨_, rfl, rfl, rfl, rfl⟩
    · exact ⟨_, rfl, rfl, rfl, rfl⟩

private theorem buildDeferred_of_error {x : Expiry} (hx : spec.engineExpiry = some x)
    (hlife : ¬ Deferred.longestLife.nanos < x.time.nanos)
    (hneeded : (spec.executor.isSome || spec.listener.isSome) = true) {abort : Abort}
    (hbooked : (spec.executor.getD (.ofClock host.clock)).scheduleRepeating
      (Deferred.upkeepPeriod x) .upkeep = .error abort) :
    (buildDeferred spec host).1 = .error (.abort abort) := by
  unfold buildDeferred
  simp only [hx, hlife, hneeded, if_false, if_true, Deferred.startUpkeep, Running.start, hbooked]
  rfl

/-- If the supplied executor aborts, so does the deferred engine. -/
theorem buildDeferred_of_stalls (hsound : spec.IsSound) {abort : Abort} (h : Stalls spec abort) :
    (buildDeferred spec host).1 = .error (.abort abort) := by
  obtain ⟨x, hx, executor, hexecutor, hbooked⟩ := h
  have hlife : ¬ Deferred.longestLife.nanos < x.time.nanos :=
    Nat.not_lt.mpr (le_longestLife hsound hx)
  have hgiven : spec.executor = some executor := hexecutor
  apply buildDeferred_of_error hx hlife
  · rw [hgiven, Option.isSome_some, Bool.true_or]
  · rw [hgiven, Option.getD_some]
    exact hbooked

private theorem buildDeferred_aborts (hsound : spec.IsSound) (htakes : ¬ TakesUpkeep spec host) :
    ∃ abort, (buildDeferred spec host).1 = .error (.abort abort) := by
  cases hx : spec.engineExpiry with
  | none => exact absurd (takesUpkeep_of_none hx) htakes
  | some x =>
    rw [takesUpkeep_iff_of_some hx, Classical.not_imp] at htakes
    obtain ⟨hneeded, hrefused⟩ := htakes
    have hlife : ¬ Deferred.longestLife.nanos < x.time.nanos :=
      Nat.not_lt.mpr (le_longestLife hsound hx)
    cases hbooked : (spec.executor.getD (.ofClock host.clock)).scheduleRepeating
        (Deferred.upkeepPeriod x) .upkeep with
    | error abort => exact ⟨abort, buildDeferred_of_error hx hlife hneeded hbooked⟩
    | ok booked => exact absurd ⟨booked, hbooked⟩ hrefused

private theorem exists_toNat_eq_succ {n : UInt64} (hn : n ≠ 0) : ∃ m, n.toNat = m + 1 := by
  refine ⟨n.toNat - 1, ?_⟩
  have hpos : n.toNat ≠ 0 := fun h ↦ hn (UInt64.toNat_inj.mp h)
  omega

private theorem buildRecency_obeys (hsound : spec.IsSound)
    (hfits : spec.expiryType.isEnabled = false → FitsTable spec host) :
    (buildRecency spec host).Obeys (ruling (.builtin .lru) spec) := by
  unfold buildRecency ruling boundOf
  rw [capability_expiry hsound]
  cases hcapability : Capability.forExpiry? spec.expiryType with
  | some capability => exact rfl
  | none =>
    have htable := hfits (isEnabled_eq_false_iff.mpr hcapability)
    cases hsize : spec.maxSize with
    | none => exact ⟨_, rfl, rfl, rfl, rfl⟩
    | some n =>
      by_cases hzero : n = 0
      · subst hzero
        exact rfl
      · obtain ⟨m, hm⟩ := exists_toNat_eq_succ hzero
        obtain ⟨hlaid, hroom⟩ := (fitsTable_iff_of_some hsize).mp htable
        rw [hm, ← Nat.not_lt] at hlaid hroom
        simp only [Option.map_some, hm, hlaid, hroom, if_false, Option.some.injEq, hzero]
        exact ⟨_, rfl, rfl, rfl, rfl⟩

private theorem buildRecency_aborts (hsound : spec.IsSound)
    (hdisabled : spec.expiryType.isEnabled = false) (hfits : ¬ FitsTable spec host) :
    ∃ abort, (buildRecency spec host).1 = .error (.abort abort) := by
  unfold buildRecency boundOf
  rw [capability_expiry hsound, isEnabled_eq_false_iff.mp hdisabled]
  cases hsize : spec.maxSize with
  | none => exact absurd (fitsTable_of_none hsize) hfits
  | some n =>
    rw [fitsTable_iff_of_some hsize] at hfits
    obtain ⟨m, hm⟩ : ∃ m, n.toNat = m + 1 := ⟨n.toNat - 1, by omega⟩
    rw [hm] at hfits
    simp only [Option.map_some, hm]
    by_cases hlaid : largestTable < m + 1
    · exact ⟨.tableRange, by rw [if_pos hlaid]⟩
    · have hroom : host.room < m + 1 := by omega
      exact ⟨.outOfMemory, by rw [if_neg hlaid, if_pos hroom]⟩

private theorem buildTimed_obeys :
    (buildTimed spec host).Obeys (ruling (.builtin .dashMap) spec) := by
  unfold buildTimed ruling
  cases hsize : spec.maxSize with
  | none => exact ⟨_, rfl, rfl, rfl, rfl⟩
  | some n => exact rfl

/-- Every factory abides by its ruling, if its engine copes. -/
theorem build_obeys (factory : Factory) (hsound : spec.IsSound) (hcopes : factory.Copes spec host) :
    (factory.build spec host).Obeys (factory.ruling spec) := by
  cases factory with
  | refusing => exact rfl
  | builtin p =>
    cases p with
    | moka => exact buildDeferred_obeys hsound hcopes
    | lru => exact buildRecency_obeys hsound hcopes
    | dashMap => exact buildTimed_obeys

private theorem build_aborts (factory : Factory) (hsound : spec.IsSound)
    (hcopes : ¬ factory.Copes spec host) :
    ∃ abort, (factory.build spec host).1 = .error (.abort abort) := by
  cases factory with
  | refusing => exact absurd trivial hcopes
  | builtin p =>
    cases p with
    | moka => exact buildDeferred_aborts hsound hcopes
    | dashMap => exact absurd trivial hcopes
    | lru =>
      cases henabled : spec.expiryType.isEnabled with
      | true =>
        refine absurd (fun hdisabled ↦ ?_) hcopes
        rw [henabled] at hdisabled
        cases hdisabled
      | false =>
        exact buildRecency_aborts hsound henabled fun h ↦ hcopes fun _ ↦ h

/-- Of a sound specification every factory makes an active cache or a fault, exactly if its engine
copes. -/
theorem isSettled_build_iff (factory : Factory) (hsound : spec.IsSound) :
    (factory.build spec host).IsSettled ↔ factory.Copes spec host := by
  constructor
  · intro hsettled
    by_cases hcopes : factory.Copes spec host
    · exact hcopes
    · obtain ⟨abort, habort⟩ := build_aborts factory hsound hcopes
      exact absurd hsettled (Built.not_isSettled habort)
  · intro hcopes
    exact (build_obeys factory hsound hcopes).isSettled

end Factory

end Caching
