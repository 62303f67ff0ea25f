import Caching.Proofs.Creation.Rulings

/-!
# Outcomes of a creation

Whatever the registry and whatever the configuration, one ruling decides what becomes of a creation:
the first fault of the configuration, of the builder, of the resolution, or of the resolved factory.
No other factory has any part in it. Only two things get in the way: a table that does not fit into
memory, and an executor that aborts when it is given the upkeep.
-/

namespace Caching

variable {K V : Type}

namespace Registry

/-- What is ruled about a specification: the provider is resolved first, and a cache that may retain
nothing needs no factory. -/
def ruling (r : Registry) (spec : CacheSpec K V) : Except Fault (Kind × Provider) :=
  match r.resolve spec.provider with
  | .error fault => .error fault
  | .ok listing =>
    if spec.maxSize = some 0 then .ok (.vacant, listing.id) else listing.factory.ruling spec

/-- What is ruled about a configuration. -/
def rulingWith (r : Registry)
    (configuration : Builder.Configuration (Listener K V) (Agenda (Duty K V))) :
    Except Fault (Kind × Provider) :=
  match Builder.specified configuration with
  | .error fault => .error fault
  | .ok spec => r.ruling spec

/-- The engine that defers its work is to be built, and the executor that was configured aborts when
it is given the upkeep. -/
def Stalls (r : Registry)
    (configuration : Builder.Configuration (Listener K V) (Agenda (Duty K V))) (abort : Abort) :
    Prop :=
  ∃ spec listing, Builder.specified configuration = .ok spec ∧
    r.resolve spec.provider = .ok listing ∧ spec.maxSize ≠ some 0 ∧
    listing.factory = .builtin .moka ∧ Factory.Stalls spec abort

/-- The registry with other factories in its listings. -/
def refitted (r : Registry) (factory : Listing → Factory) : Registry :=
  ⟨r.listings.map fun l ↦ { l with factory := factory l }⟩

private theorem resolve_refitted (r : Registry) (factory : Listing → Factory)
    (requested : Option Provider) :
    (r.refitted factory).resolve requested =
      (r.resolve requested).map fun l ↦ { l with factory := factory l } := by
  have hfind (p : Listing → Bool) (hp : ∀ l, p { l with factory := factory l } = p l) :
      (r.refitted factory).listings.find? p =
        (r.listings.find? p).map fun l ↦ { l with factory := factory l } := by
    have hcomp : (p ∘ fun l ↦ { l with factory := factory l }) = p := funext hp
    rw [refitted, List.find?_map, hcomp]
  unfold resolve
  cases requested with
  | none =>
    simp only [hfind Listing.available fun _ ↦ rfl]
    cases r.listings.find? Listing.available <;> rfl
  | some id =>
    simp only [find?, hfind (fun l ↦ decide (l.id = id)) fun _ ↦ rfl]
    cases r.listings.find? fun l ↦ decide (l.id = id) with
    | none => rfl
    | some listing => cases h : listing.available <;> simp [Option.filter, h, Except.map]

variable {r : Registry} {spec : CacheSpec K V} {host : Host} {listing : Listing}
  {configuration : Builder.Configuration (Listener K V) (Agenda (Duty K V))}

/-- What the resolved listing builds is what is created. -/
theorem fst_create (h : r.resolve spec.provider = .ok listing) :
    (r.create spec host).1 = (buildListed listing spec host).1 := by
  unfold create
  simp only [h]
  split <;> simp_all

/-- A bound other than zero leaves it to the factory of the listing. -/
theorem buildListed_of_ne (hsize : spec.maxSize ≠ some 0) :
    buildListed listing spec host = listing.factory.build spec host := by
  simp [buildListed, Spec.isAlwaysEmpty, hsize]

private theorem buildListed_of_zero (hsize : spec.maxSize = some 0) :
    (buildListed listing spec host).Obeys (.ok (.vacant, listing.id)) := by
  refine ⟨⟨.vacant, Running.start (⟨⟩ : Vacant) listing.id spec host.clock⟩, ?_, rfl, rfl, rfl⟩
  simp [buildListed, Spec.isAlwaysEmpty, hsize]

/-- Every registry abides by its ruling, if the engine of the resolved listing copes. -/
theorem create_obeys (hsound : spec.IsSound)
    (hcopes : ∀ listing, r.resolve spec.provider = .ok listing → spec.maxSize ≠ some 0 →
      listing.factory.Copes spec host) : (r.create spec host).Obeys (r.ruling spec) := by
  unfold ruling
  cases hresolved : r.resolve spec.provider with
  | error fault => simp [create, hresolved, Built.Obeys]
  | ok listing =>
    refine (Built.obeys_congr (fst_create hresolved)).mpr ?_
    by_cases hsize : spec.maxSize = some 0
    · simp only [hsize, if_true]
      exact buildListed_of_zero hsize
    · simp only [hsize, if_false]
      rw [buildListed_of_ne hsize]
      exact Factory.build_obeys listing.factory hsound (hcopes listing hresolved hsize)

/-- Only the factory of the resolved listing has a part in what is created. -/
theorem create_refitted {factory : Listing → Factory}
    (hsame : ∀ listing, r.resolve spec.provider = .ok listing →
      factory listing = listing.factory) :
    (r.refitted factory).create spec host = r.create spec host := by
  unfold create
  rw [resolve_refitted]
  cases hresolved : r.resolve spec.provider with
  | error fault => rfl
  | ok listing =>
    simp only [Except.map, hsame listing hresolved]

/-- A configuration is created as ruled, if the engine of the resolved listing copes. -/
theorem createWith_obeys
    (hcopes : ∀ spec listing, Builder.specified configuration = .ok spec →
      r.resolve spec.provider = .ok listing → spec.maxSize ≠ some 0 →
      listing.factory.Copes spec host) :
    (r.createWith configuration host).Obeys (r.rulingWith configuration) := by
  unfold createWith rulingWith
  cases hspecified : Builder.specified configuration with
  | error fault => exact rfl
  | ok spec =>
    exact create_obeys (Builder.sound_of_specified hspecified) fun listing ↦
      hcopes spec listing hspecified

/-- What is created of a specification is what a configuration of it creates. -/
theorem createWith_of_specified (h : Builder.specified configuration = .ok spec) :
    r.createWith configuration host = r.create spec host := by
  rw [createWith, h]

/-- One ruling decides what becomes of a creation, unless an executor aborts. A fault of the
configuration comes first, then one of the builder, then one of the resolution. A bound of zero then
makes a cache that stays empty, which goes by the provider that was resolved, whatever its factory.
Otherwise it is the factory of the resolved listing that counts: the engine that defers its work
makes a cache, the one without expiry refuses exactly what is to expire, the one without a bound
refuses exactly what is bounded, and a factory that refuses everything does so. No other factory is
asked, even where the provider was not asked for by name. The machine has to know the time, and must
have memory for the table of a bounded cache that evicts by recency. The engine that defers its work
gives its upkeep to the executor that was configured, and if that aborts, so does the creation; such
an executor runs, on a clock that cannot be read. -/
theorem createWith_as_ruled (r : Registry)
    (configuration : Builder.Configuration (Listener K V) (Agenda (Duty K V))) {host : Host}
    {now : Instant} (hhost : host.clock.now = .ok now)
    (hfits : ∀ spec listing, Builder.specified configuration = .ok spec →
      r.resolve spec.provider = .ok listing → listing.factory = .builtin .lru →
      spec.expiryType.isEnabled = false → Factory.FitsTable spec host) :
    ((∀ abort, ¬ r.Stalls configuration abort) →
        (r.createWith configuration host).Obeys (r.rulingWith configuration)) ∧
      (∀ abort, r.Stalls configuration abort →
        (r.createWith configuration host).1 = .error (.abort abort) ∧
          ∃ spec, Builder.specified configuration = .ok spec ∧ ∃ executor ∈ spec.executor,
            executor.stopped = false ∧ executor.clock.now = .error abort) ∧
      (∀ spec listing, Builder.specified configuration = .ok spec →
        r.resolve spec.provider = .ok listing → spec.maxSize ≠ some 0 →
        (r.createWith configuration host).1 = (listing.factory.build spec host).1) ∧
      ∀ factory : Listing → Factory,
        (∀ spec listing, Builder.specified configuration = .ok spec →
          r.resolve spec.provider = .ok listing → factory listing = listing.factory) →
        (r.refitted factory).createWith configuration host = r.createWith configuration host := by
  have hbuilt (spec : CacheSpec K V) (listing : Listing)
      (hspec : Builder.specified configuration = .ok spec)
      (hresolved : r.resolve spec.provider = .ok listing) (hsize : spec.maxSize ≠ some 0) :
      (r.createWith configuration host).1 = (listing.factory.build spec host).1 := by
    rw [createWith_of_specified hspec, fst_create hresolved, buildListed_of_ne hsize]
  refine ⟨?_, ?_, hbuilt, ?_⟩
  · intro hruns
    apply createWith_obeys
    intro spec listing hspec hresolved hsize
    cases hfactory : listing.factory with
    | refusing => exact trivial
    | builtin p =>
      cases p with
      | moka =>
        exact Factory.takesUpkeep_of_not_stalls hhost fun abort hstalls ↦
          hruns abort ⟨spec, listing, hspec, hresolved, hsize, hfactory, hstalls⟩
      | lru => exact hfits spec listing hspec hresolved hfactory
      | dashMap => exact trivial
  · rintro abort ⟨spec, listing, hspec, hresolved, hsize, hfactory, hstalls⟩
    refine ⟨?_, spec, hspec, hstalls.exists_executor⟩
    rw [hbuilt spec listing hspec hresolved hsize, hfactory]
    exact Factory.buildDeferred_of_stalls (Builder.sound_of_specified hspec) hstalls
  · intro factory hsame
    cases hspecified : Builder.specified configuration with
    | error fault => simp only [createWith, hspecified]
    | ok spec =>
      rw [createWith_of_specified hspecified, createWith_of_specified hspecified]
      exact create_refitted (hsame spec · hspecified)

/-- A cache whose entries expire, on an executor that takes the upkeep. -/
theorem createWith_as_ruled_of_expiry :
    let configuration : Builder.Configuration (Listener Nat Nat) (Agenda (Duty Nat Nat)) :=
      .ofCalls [.maxSize 3, .expiryType .postWrite, .expiryTime (.ofMillis 1000),
        .executor (.ofClock .fresh)]
    (builtin.createWith configuration .fresh).Obeys (.ok (.deferred, .moka)) := by
  intro configuration
  have hhost : Host.fresh.clock.now = .ok Clock.fresh.start := rfl
  have hfits : ∀ spec listing, Builder.specified configuration = .ok spec →
      builtin.resolve spec.provider = .ok listing → listing.factory = .builtin .lru →
      spec.expiryType.isEnabled = false → Factory.FitsTable spec .fresh := by
    intro spec listing hspec _ _ hdisabled
    cases hspec
    cases hdisabled
  refine (createWith_as_ruled builtin configuration hhost hfits).1 ?_
  rintro abort ⟨spec, listing, hspec, _, _, _, hstalls⟩
  cases hspec
  obtain ⟨executor, hexecutor, _, hunread⟩ := hstalls.exists_executor
  cases hexecutor
  cases hunread

/-- The engine that defers its work is ruled to make a cache. On an executor whose clock was moved
beyond the last instant there is none. -/
theorem not_createWith_as_ruled_of_clock :
    let beyond : Clock := ⟨Clock.fresh.start, ⟨9223372036854775808000000000, by decide⟩⟩
    let configuration : Builder.Configuration (Listener Nat Nat) (Agenda (Duty Nat Nat)) :=
      .ofCalls [.provider .moka, .expiryType .postWrite, .expiryTime (.ofMillis 1000),
        .executor (.ofClock beyond)]
    builtin.rulingWith configuration = .ok (.deferred, .moka) ∧
      (builtin.createWith configuration .fresh).1 = .error (.abort .instantRange) ∧
      ¬ (builtin.createWith configuration .fresh).Obeys (builtin.rulingWith configuration) := by
  intro beyond configuration
  have hruling : builtin.rulingWith configuration = .ok (.deferred, .moka) := rfl
  have hbeyond : beyond.start.add? beyond.elapsed = none := by decide +kernel
  have hunread : beyond.now = .error .instantRange := by rw [Clock.now, hbeyond]
  have hrefused : (Agenda.ofClock beyond : Agenda (Duty Nat Nat)).scheduleRepeating
      (Deferred.upkeepPeriod ⟨false, .ofMillis 1000⟩) .upkeep = .error .instantRange := by
    simp [Agenda.scheduleRepeating, Agenda.freshHandle, Agenda.arm, Agenda.submit, Agenda.ofClock,
      Agenda.isCancelled, hunread, Except.map]
  have hspecified : Builder.specified configuration = .ok ⟨some .moka, none, .postWrite,
      some (.ofMillis 1000), none, some (.ofClock beyond), false⟩ := rfl
  have hresolved : builtin.resolve (some .moka) = .ok ⟨.moka, true, .builtin .moka⟩ := rfl
  have haborts : (builtin.createWith configuration .fresh).1 = .error (.abort .instantRange) := by
    rw [createWith_of_specified hspecified, fst_create hresolved, buildListed_of_ne (by simp),
      Factory.build]
    have hstalls : Factory.Stalls ⟨some .moka, none, .postWrite, some (.ofMillis 1000), none,
        some (.ofClock beyond), false⟩ .instantRange :=
      ⟨⟨false, .ofMillis 1000⟩, rfl, .ofClock beyond, rfl, hrefused⟩
    exact Factory.buildDeferred_of_stalls (Builder.sound_of_specified hspecified) hstalls
  refine ⟨hruling, haborts, ?_⟩
  rw [hruling]
  rintro ⟨cache, hcache, _⟩
  rw [haborts] at hcache
  cases hcache

/-- Whatever a builder gives, there is an active cache or a fault in the end, exactly if the engine
of the resolved factory copes. Where no factory is asked, because nothing was resolved or nothing
may be retained, this is always so. Every factory by itself settles exactly what its engine copes
with. -/
theorem isSettled_create_iff
    {configuration : Builder.Configuration (Listener K V) (Agenda (Duty K V))}
    {spec : CacheSpec K V} {b : Builder (Listener K V) (Agenda (Duty K V))}
    (hbuilt : (Builder.configured configuration).2.build = .ok (spec, b)) (r : Registry)
    (host : Host) :
    ((r.create spec host).IsSettled ↔ ∀ listing, r.resolve spec.provider = .ok listing →
        spec.maxSize ≠ some 0 → listing.factory.Copes spec host) ∧
      ∀ factory : Factory, (factory.build spec host).IsSettled ↔ factory.Copes spec host := by
  have hsound := (Builder.isFit_configured configuration).sound hbuilt
  refine ⟨⟨?_, ?_⟩, fun factory ↦ factory.isSettled_build_iff hsound⟩
  · intro hsettled listing hresolved hsize
    have hfactory : (r.create spec host).1 = (listing.factory.build spec host).1 := by
      rw [fst_create hresolved, buildListed_of_ne hsize]
    exact (listing.factory.isSettled_build_iff hsound).mp ((Built.isSettled_congr hfactory).mp
      hsettled)
  · intro hcopes
    exact (create_obeys hsound hcopes).isSettled

/-- A bound of a million entries, on a host whose memory has room for just so many. -/
theorem isSettled_create_of_room :
    let configuration : Builder.Configuration (Listener Nat Nat) (Agenda (Duty Nat Nat)) :=
      .ofCalls [.provider .lru, .maxSize 1000000]
    let host : Host := ⟨.fresh, 1000000⟩
    ∃ spec b, (Builder.configured configuration).2.build = .ok (spec, b) ∧
      (builtin.create spec host).IsSettled := by
  intro configuration host
  have hbuilt : (Builder.configured configuration).2.build = .ok (_, _) := rfl
  refine ⟨_, _, hbuilt, (isSettled_create_iff hbuilt builtin host).1.mpr ?_⟩
  intro listing hresolved _
  cases hresolved
  intro _ bound hbound
  cases hbound
  decide

/-- A bound for which no table can be laid out passes the builder, and is not reported as out of
range. -/
theorem not_isSettled_create_of_maxSize :
    let configuration : Builder.Configuration (Listener Nat Nat) (Agenda (Duty Nat Nat)) :=
      .ofCalls [.provider .lru, .maxSize 18446744073709551615]
    ∃ spec b, (Builder.configured configuration).2.build = .ok (spec, b) ∧
      (builtin.create spec .fresh).1 = .error (.abort .tableRange) ∧
      ¬ (builtin.create spec .fresh).IsSettled := by
  intro configuration
  have hbuilt : (Builder.configured configuration).2.build = .ok (_, _) := rfl
  refine ⟨_, _, hbuilt, ?_, ?_⟩
  · rfl
  · exact Built.not_isSettled rfl

end Registry

end Caching
