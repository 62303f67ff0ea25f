import Caching.Cache.Factory
import Caching.Spec.Calls

/-!
# Registries

Which providers there are, in the order in which they are tried, whether each is available, and
where its caches come from. A provider that is asked for by name is never replaced by another one.
-/

namespace Caching

/-- A provider that is known to a registry; `SPEC_FULL.md`, section 3. -/
structure Listing where
  id : Provider
  available : Bool
  factory : Factory
  deriving DecidableEq, Repr

/-- The listing as diagnostic output shows it. -/
def Listing.debug (l : Listing) : String :=
  "ProviderEntry \x7b id: " ++ Named.tag l.id ++ ", .. \x7d"

/-- The known providers in the order in which they are tried. -/
structure Registry where
  listings : List Listing
  deriving DecidableEq, Repr

namespace Registry

/-- A registry that knows no provider. -/
def empty : Registry :=
  ⟨[]⟩

/-- The registry of all providers with their own factories; `SPEC_FULL.md`, section 11. -/
def builtin : Registry :=
  ⟨Provider.resolutionOrder.map fun p ↦ ⟨p, true, .builtin p⟩⟩

instance : Inhabited Registry :=
  ⟨builtin⟩

/-- The providers that are listed, in the order in which they are tried. -/
def ids (r : Registry) : List Provider :=
  r.listings.map Listing.id

/-- The listing of a provider. -/
def find? (r : Registry) (id : Provider) : Option Listing :=
  r.listings.find? fun l ↦ decide (l.id = id)

/-- Applies a function to the first listing of a provider. -/
private def updateFirst (id : Provider) (f : Listing → Listing) : List Listing → List Listing
  | [] => []
  | l :: rest => if l.id = id then f l :: rest else l :: updateFirst id f rest

/-- Lists a provider: in place of its former listing, or else behind all others. -/
def withListing (r : Registry) (listing : Listing) : Registry :=
  match r.find? listing.id with
  | some _ => ⟨updateFirst listing.id (fun _ ↦ listing) r.listings⟩
  | none => ⟨r.listings ++ [listing]⟩

/-- Says whether a provider is available, if it is listed. -/
def withAvailability (r : Registry) (id : Provider) (available : Bool) : Registry :=
  ⟨updateFirst id (fun l ↦ { l with available }) r.listings⟩

section

variable {id : Provider} {f : Listing → Listing}

private theorem ids_updateFirst (hf : ∀ l, l.id = id → (f l).id = id) (listings : List Listing) :
    (updateFirst id f listings).map Listing.id = listings.map Listing.id := by
  induction listings with
  | nil => rfl
  | cons l rest ih =>
    by_cases h : l.id = id
    · simp [updateFirst, h, hf l h]
    · simp [updateFirst, h, ih]

private theorem find?_updateFirst (hf : ∀ l, l.id = id → (f l).id = id) (listings : List Listing)
    (other : Provider) :
    (updateFirst id f listings).find? (fun l ↦ decide (l.id = other)) =
      (listings.find? fun l ↦ decide (l.id = other)).map
        fun l ↦ if id = other then f l else l := by
  induction listings with
  | nil => rfl
  | cons l rest ih =>
    by_cases h : l.id = id
    · by_cases ho : id = other
      · simp [updateFirst, h, hf l h, ho]
      · simp [updateFirst, h, hf l h, ho]
    · by_cases ho : l.id = other
      · have hne : id ≠ other := fun e ↦ h (ho.trans e.symm)
        rw [updateFirst, if_neg h]
        simp [ho, hne]
      · simp [updateFirst, h, ho, ih]

end

variable (r : Registry)

/-- A provider is listed if it has a listing. -/
theorem isSome_find? (id : Provider) : (r.find? id).isSome = true ↔ id ∈ r.ids := by
  simp [find?, ids]

/-- The listing of a provider names it. -/
theorem id_of_find? {r : Registry} {id : Provider} {l : Listing} (h : r.find? id = some l) :
    l.id = id := by
  simpa using List.find?_some h

theorem find?_eq_none {r : Registry} {id : Provider} : r.find? id = none ↔ id ∉ r.ids := by
  rw [← isSome_find?, Option.not_isSome_iff_eq_none]

/-- Only a provider that was not listed moves the end of the order. -/
theorem ids_withListing (listing : Listing) :
    (r.withListing listing).ids =
      if listing.id ∈ r.ids then r.ids else r.ids ++ [listing.id] := by
  unfold withListing
  split
  · next former h =>
    have hlisted : listing.id ∈ r.ids := (r.isSome_find? _).1 (by rw [h]; rfl)
    rw [if_pos hlisted]
    exact ids_updateFirst (fun _ _ ↦ rfl) r.listings
  · next h =>
    rw [if_neg (find?_eq_none.1 h)]
    simp [ids]

@[simp] theorem ids_withAvailability (id : Provider) (available : Bool) :
    (r.withAvailability id available).ids = r.ids :=
  ids_updateFirst (f := fun l ↦ { l with available }) (fun _ h ↦ h) r.listings

theorem find?_withListing (listing : Listing) (id : Provider) :
    (r.withListing listing).find? id = if listing.id = id then some listing else r.find? id := by
  unfold withListing
  split
  · next former h =>
    have hfind := find?_updateFirst (f := fun _ ↦ listing) (fun _ _ ↦ rfl) r.listings id
    refine hfind.trans ?_
    by_cases hid : listing.id = id
    · have hformer : r.listings.find? (fun l ↦ decide (l.id = id)) = some former := hid ▸ h
      simp [hid, hformer]
    · simp [hid, find?]
  · next h =>
    have hnone : r.find? listing.id = none := h
    by_cases hid : listing.id = id
    · subst hid
      simp only [find?] at hnone
      simp [find?, List.find?_append, hnone]
    · simp [find?, List.find?_append, hid]

theorem find?_withAvailability (id : Provider) (available : Bool) (other : Provider) :
    (r.withAvailability id available).find? other =
      (r.find? other).map fun l ↦ if id = other then { l with available } else l :=
  find?_updateFirst (f := fun l ↦ { l with available }) (fun _ h ↦ h) r.listings other

/-- The providers that are available. -/
def available (r : Registry) : List Provider :=
  (r.listings.filter Listing.available).map Listing.id

/-- The registry as diagnostic output shows it. -/
def debug (r : Registry) : String :=
  "[" ++ String.intercalate ", " (r.listings.map fun l ↦ Named.tag l.id) ++ "]"

/-- The listing to use: that of the provider that was asked for, or the first that is available;
`SPEC_FULL.md`, section 4.2. -/
def resolve (r : Registry) (requested : Option Provider) : Except Fault Listing :=
  match requested with
  | some id =>
    match (r.find? id).filter Listing.available with
    | some listing => .ok listing
    | none => .error (.providerUnavailable id)
  | none =>
    match r.listings.find? Listing.available with
    | some listing => .ok listing
    | none => .error .noProviderAvailable

/-- What is logged when a listing was resolved. -/
def resolutionLog (requested : Option Provider) : Except Fault Listing → List LogEntry
  | .ok listing =>
    let message := match requested with
      | some _ => "Using explicitly requested cache provider"
      | none => "Auto-resolved cache provider"
    [⟨.debug, message, [("provider", Named.name listing.id)]⟩]
  | .error _ => []

section

variable {K V : Type} [DecidableEq K]

/-- What is logged when a cache was created. -/
def creationLog (id : Provider) (spec : CacheSpec K V) : LogEntry :=
  ⟨.info, "Cache created",
    [("provider", Named.name id),
      ("max_size", Spec.debugOption Spec.debugWord spec.maxSize),
      ("expiry_type", Named.name spec.expiryType),
      ("expiry_time", Spec.debugOption Duration.debug spec.expiryTime),
      ("high_contention", toString spec.highContention),
      ("listener", toString spec.listener.isSome)]⟩

/-- Builds a cache with the factory of a listing. A cache that may retain nothing needs no factory;
`SPEC_FULL.md`, section 13. -/
def buildListed (listing : Listing) (spec : CacheSpec K V) (host : Host) : Built K V :=
  if spec.isAlwaysEmpty then
    (.ok ⟨.vacant, Running.start (⟨⟩ : Vacant) listing.id spec host.clock⟩, [])
  else listing.factory.build spec host

/-- Creates the cache of a specification. -/
def create (r : Registry) (spec : CacheSpec K V) (host : Host) : Built K V :=
  let resolved := r.resolve spec.provider
  let log := resolutionLog spec.provider resolved
  match resolved with
  | .error fault => (.error (.fault fault), log)
  | .ok listing =>
    match buildListed listing spec host with
    | (.ok cache, more) => (.ok cache, log ++ more ++ [creationLog listing.id spec])
    | (.error failure, more) => (.error failure, log ++ more)

/-- Creates the cache that a configuration asks for. Whatever fails first decides; `SPEC_FULL.md`,
section 4.4. -/
def createWith (r : Registry)
    (configuration : Builder.Configuration (Listener K V) (Agenda (Duty K V))) (host : Host) :
    Built K V :=
  match Builder.specified configuration with
  | .error fault => (.error (.fault fault), [])
  | .ok spec => r.create spec host

end

end Registry

end Caching
