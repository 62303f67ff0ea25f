import Caching.Cache.Factory
import Caching.Proofs.Plain.Deferred

/-!
# Caches that can stand in for each other

Without a bound and without expiry it does not matter which provider a cache comes from. Whoever
uses it gets the same replies but for the provider they name, and its functions are shown the same
values. A listener that does not call back is told of the same removals at every turn, in an order
that is the engine's own.
-/

namespace Caching

variable {σ K V : Type}

/-- The use of a cache while the clock of the host stands at some time. -/
structure Use (K V : Type) where
  host : Clock
  request : Request K V

namespace Use

/-- The clock can be read. -/
def IsReadable (use : Use K V) : Prop :=
  ∃ now, use.host.now = .ok now

/-- Two uses of the same kind, at any times. -/
structure Same (use use' : Use K V) : Prop where
  request : use.request.Same use'.request
  readable : use.IsReadable
  readable' : use'.IsReadable

end Use

/-- What came of a use: the reply, and the removals of which the listener was told meanwhile. -/
structure Encounter (K V : Type) where
  reply : Reply V
  told : List (Removal K V)

/-- The replies are the same, but that the first names the provider, and so are the removals, in
whatever order. -/
structure Encounter.Alike (p : Provider) (e e' : Encounter K V) : Prop where
  reply : e.reply = e'.reply.named p
  told : e.told.Perm e'.told

variable [DecidableEq K] [DecidableEq V]

private theorem PlainMap.provider_perform (operation : Operation K V) (m : PlainMap K V) :
    (m.perform operation).2.provider = m.provider := by
  have hcarry (key : K) (deed : Deed V) : (m.carry key deed).provider = m.provider := by
    cases deed <;> rfl
  rw [perform]
  cases m.phase with
  | closed => rfl
  | active => cases operation <;> first | exact hcarry _ _ | rfl

private theorem PlainMap.provider_run {α : Type} (script : Script (Operation K V) (Reply V) α)
    (m : PlainMap K V) : (script.run perform m).2.provider = m.provider := by
  have hact (operation : Operation K V) (m' : PlainMap K V) (h : m'.provider = m.provider) :
      (m'.perform operation).2.provider = m.provider :=
    (provider_perform operation m').trans h
  exact script.run_invariant hact rfl

namespace Running

variable [Engine σ K V]

/-- One use of a cache. -/
def encounter (use : Use K V) (w : Running σ K V) : Encounter K V × Running σ K V :=
  let (reply, w') := { w with host := use.host }.follow use.request.script
  (⟨reply, w'.told.drop w.told.length⟩, w')

/-- What comes of using a cache several times. -/
def encounters : List (Use K V) → Running σ K V → List (Encounter K V)
  | [], _ => []
  | use :: rest, w =>
    let (encounter, w) := w.encounter use
    encounter :: encounters rest w

variable [PlainEngine σ K V]

open PlainEngine

/-- The cache behaves as the map. Since it told the removals of an earlier time, its listener was
told those of the map. -/
structure Shows (listener : Option (Listener K V)) (earlier : List (Removal K V))
    (w : Running σ K V) (m : PlainMap K V) : Prop where
  plain : IsPlain K V w.store
  entries : (contents w.store).Perm m.entries
  provider : w.provider = m.provider
  phase : w.phase = m.phase
  heeded : w.listener = listener
  quiet : w.IsQuiet
  idle : w.dispatching = 0
  readable : ∃ now, w.host.now = .ok now
  told : ∃ removals, w.told = earlier ++ removals ∧
    removals.Perm (if listener.isSome then m.told else [])

namespace Shows

variable {listener : Option (Listener K V)} {earlier : List (Removal K V)} {w : Running σ K V}
  {m : PlainMap K V}

omit [DecidableEq V] in
private theorem distinct (h : Shows listener earlier w m) :
    Keyed.Distinct (contents w.store : List (K × V)) :=
  m.distinct.perm h.entries.symm

omit [DecidableEq V] in
private theorem current_eq (h : Shows listener earlier w m) (key : K) :
    Keyed.find? key (contents w.store) = m.current key :=
  Keyed.find?_perm h.entries h.distinct key

omit [DecidableEq V] in
/-- Whatever an open cache does to its store, the agenda and the log, while it tells the listener of
the removals of which the map tells. -/
theorem advance (h : Shows listener earlier w m) (hactive : w.phase = .active)
    {removals : List (Removal K V)} {w' : Running σ K V} (htells : w.Tells removals w')
    (hplain : IsPlain K V w'.store) {m' : PlainMap K V}
    (hentries : (contents w'.store).Perm m'.entries)
    (hprovider : m'.provider = m.provider) (hphase : m'.phase = m.phase)
    (htold : (m.told ++ removals).Perm m'.told) : Shows listener earlier w' m' := by
  obtain ⟨store, agenda, heard, log, rfl, hheard⟩ := htells
  obtain ⟨before, hbefore, hperm⟩ := h.told
  refine ⟨hplain, hentries, h.provider.trans hprovider.symm, h.phase.trans hphase.symm, h.heeded,
    h.quiet, h.idle, h.readable, ?_⟩
  have hheeded : w.isHeeded = listener.isSome := by
    rw [isHeeded, h.heeded, hactive]
    exact Bool.and_true _
  have htold' : Running.told { w with store, agenda, heard, log } =
      if listener.isSome then w.told ++ removals else w.told := by
    rw [Running.told, hheard, hheeded]
  rw [htold', hbefore]
  cases hsome : listener.isSome with
  | false => exact ⟨before, rfl, by simpa [hsome] using hperm⟩
  | true =>
    refine ⟨before ++ removals, by simp, ?_⟩
    rw [hsome] at hperm
    exact (hperm.append_right removals).trans htold

private theorem performClosed (h : Shows listener earlier w m) (hclosed : w.phase = .closed)
    (operation : Operation K V) :
    (w.perform operation).1 = (m.perform operation).1 ∧
      Shows listener earlier (w.perform operation).2 (m.perform operation).2 := by
  rw [Running.perform, performWith_of_closed w.report hclosed,
    PlainMap.perform_of_closed (h.phase.symm.trans hclosed), h.provider]
  exact ⟨rfl, h⟩

private theorem performKey (h : Shows listener earlier w m) (hactive : w.phase = .active)
    {operation : Operation K V} {key : K} (hkey : operation.key? = some key) :
    (w.perform operation).1 = (m.perform operation).1 ∧
      Shows listener earlier (w.perform operation).2 (m.perform operation).2 := by
  obtain ⟨_, hhost⟩ := h.readable
  obtain ⟨now, hnow⟩ := exists_reading h.plain hhost
  have hserves := serves (reportAt w.depth) now h.plain
  have hcurrent := h.current_eq key
  rw [Running.perform, Running.report, hserves.performWith hkey hactive hnow,
    PlainMap.perform_of_key (h.phase.symm.trans hactive) hkey, hcurrent]
  refine ⟨rfl, ?_⟩
  generalize operation.deed (m.current key) = deed
  obtain ⟨hframes, hplain, happlied, hremoved⟩ := carried_eq now key deed h.plain h.distinct
  obtain ⟨hstore, _⟩ := settle_of_quiet h.quiet hframes w.depth
  have htells := Tells.settle h.quiet hframes w.depth
  rw [hremoved, hcurrent] at htells
  have hentries : (deed.applied key (contents w.store)).Perm (m.carry key deed).entries := by
    cases deed with
    | store value => exact Keyed.insert_congr_perm h.distinct h.entries key value
    | remove => exact Keyed.erase_congr_perm h.entries key
    | ignore | abandon | read | keep => exact h.entries
  refine h.advance hactive htells (hstore.symm ▸ hplain) ?_ ?_ ?_ ?_
  · rw [hstore]
    exact happlied.trans hentries
  · cases deed <;> rfl
  · cases deed <;> rfl
  · cases deed <;> simp [PlainMap.carry, Deed.removed]

private theorem performSize (h : Shows listener earlier w m) (hactive : w.phase = .active) :
    (w.perform .size).1 = (m.perform .size).1 ∧
      Shows listener earlier (w.perform .size).2 (m.perform .size).2 := by
  obtain ⟨_, hhost⟩ := h.readable
  obtain ⟨now, hnow⟩ := exists_reading h.plain hhost
  obtain ⟨w', hsize, hframes, hplain, hcontents⟩ := size_eq w.report now h.plain h.idle
  rw [Running.perform, Running.performWith, guarded_of_reading hactive hnow, hsize,
    PlainMap.perform, h.phase.symm.trans hactive, h.entries.length_eq]
  refine ⟨rfl, h.advance hactive (.of_frames hframes) hplain ?_ rfl rfl
    (.of_eq (List.append_nil _))⟩
  rw [hcontents]
  exact h.entries

private theorem performClear (h : Shows listener earlier w m) (hactive : w.phase = .active) :
    (w.perform .clear).1 = (m.perform .clear).1 ∧
      Shows listener earlier (w.perform .clear).2 (m.perform .clear).2 := by
  obtain ⟨_, hhost⟩ := h.readable
  obtain ⟨now, hnow⟩ := exists_reading h.plain hhost
  obtain ⟨htells, hplain, hempty⟩ := clear_tells w.depth now h.quiet h.plain h.distinct h.idle
  rw [Running.perform, Running.report, Running.performWith, guarded_of_reading hactive hnow,
    PlainMap.perform, h.phase.symm.trans hactive]
  exact ⟨rfl, h.advance hactive htells hplain (.of_eq hempty) rfl rfl
    ((h.entries.map _).append_left _)⟩

private theorem performClose (h : Shows listener earlier w m) (hactive : w.phase = .active) :
    (w.perform .close).1 = (m.perform .close).1 ∧
      Shows listener earlier (w.perform .close).2 (m.perform .close).2 := by
  obtain ⟨hframes, hplain, hempty⟩ := teardown_eq (w := { w with phase := .closed }) h.plain
  obtain ⟨store, agenda, log, hteardown⟩ := hframes
  have hclose : (w.perform .close).2 = { w with
      store, agenda, phase := .closed
      log := log ++ Engine.farewell (Engine.teardown { w with phase := .closed }) } := by
    simp only [Running.perform, Running.performWith, Running.close, hactive]
    rw [hteardown]
  rw [hteardown] at hplain hempty
  rw [hclose, PlainMap.perform, h.phase.symm.trans hactive]
  exact ⟨rfl, hplain, .of_eq hempty, h.provider, rfl, h.heeded, h.quiet, h.idle, h.readable, h.told⟩

/-- Every operation is answered alike, and the cache goes on behaving as the map. -/
theorem perform (h : Shows listener earlier w m) (operation : Operation K V) :
    (w.perform operation).1 = (m.perform operation).1 ∧
      Shows listener earlier (w.perform operation).2 (m.perform operation).2 := by
  cases hp : w.phase with
  | closed => exact h.performClosed hp operation
  | active =>
    cases hkey : operation.key? with
    | some key => exact h.performKey hp hkey
    | none =>
      cases operation with
      | size => exact h.performSize hp
      | clear => exact h.performClear hp
      | close => exact h.performClose hp
      | state =>
        rw [Running.perform, Running.performWith, PlainMap.perform, h.phase.symm.trans hp, hp]
        exact ⟨rfl, h⟩
      | provider =>
        rw [Running.perform, Running.performWith, PlainMap.perform, h.phase.symm.trans hp,
          h.provider]
        exact ⟨rfl, h⟩
      | _ => cases hkey

private theorem encounter (h : Shows listener earlier w m) {use : Use K V}
    (hreadable : use.IsReadable) :
    let r := use.request.script.run PlainMap.perform { m with told := [] }
    (w.encounter use).1.reply = r.1 ∧
      (w.encounter use).1.told.Perm (if listener.isSome then r.2.told else []) ∧
      Shows listener w.told (w.encounter use).2 r.2 := by
  have hact (operation : Operation K V) (w' : Running σ K V) (m' : PlainMap K V)
      (h' : Shows listener w.told w' m') := h'.perform operation
  have hanew : Shows listener w.told { w with host := use.host } { m with told := [] } :=
    ⟨h.plain, h.entries, h.provider, h.phase, h.heeded, h.quiet, h.idle, hreadable,
      [], (List.append_nil _).symm, by split <;> rfl⟩
  obtain ⟨hreply, hshows⟩ := Script.run_simulation hact use.request.script hanew
  obtain ⟨removals, htold, hperm⟩ := hshows.told
  refine ⟨hreply, ?_, hshows⟩
  have hdrop : (w.encounter use).1.told = removals := by
    simp only [Running.encounter, follow, htold, List.drop_left]
  rw [hdrop]
  exact hperm

end Shows

/-- What comes of the same uses of two caches is the same, if they behave as maps that agree. -/
theorem encounters_alike {τ : Type} [Engine τ K V] [PlainEngine τ K V]
    {listener : Option (Listener K V)} {earlier earlier' : List (Removal K V)} {w : Running σ K V}
    {w' : Running τ K V} {m m' : PlainMap K V} (h : Shows listener earlier w m)
    (h' : Shows listener earlier' w' m') (hagrees : m.Agrees m') {uses uses' : List (Use K V)}
    (hsame : List.Forall₂ Use.Same uses uses') :
    List.Forall₂ (Encounter.Alike m.provider) (w.encounters uses) (w'.encounters uses') := by
  induction hsame generalizing earlier earlier' w w' m m' with
  | nil => exact .nil
  | cons huse _ ih =>
    have hanew : PlainMap.Agrees { m with told := [] } { m' with told := [] } :=
      ⟨hagrees.phase, hagrees.entries, .refl _⟩
    obtain ⟨hreply, htold, hshows⟩ := h.encounter huse.readable
    obtain ⟨hreply', htold', hshows'⟩ := h'.encounter huse.readable'
    obtain ⟨hanswer, hnext⟩ := hanew.run huse.request
    have hrest := ih hshows hshows' hnext
    rw [PlainMap.provider_run] at hrest
    refine .cons ⟨hreply.trans (hreply' ▸ hanswer), htold.trans (.trans ?_ htold'.symm)⟩ hrest
    split
    · exact hnext.told
    · exact .refl _

omit [DecidableEq V] in
private theorem shows_start {store : σ} (hplain : IsPlain K V store)
    (hempty : (contents store : List (K × V)) = []) (provider : Provider) {spec : CacheSpec K V}
    (hquiet : ∀ listener ∈ spec.listener, listener.reactions = []) {host : Clock} {now : Instant}
    (hnow : host.now = .ok now) :
    Shows spec.listener [] (Running.start store provider spec host) (.empty provider) :=
  ⟨hplain, .of_eq hempty, rfl, rfl, rfl, hquiet, rfl, ⟨now, hnow⟩, [], rfl, by split <;> rfl⟩

end Running

/-- What comes of using a cache several times. -/
def Cache.encounters (uses : List (Use K V)) (c : Cache K V) : List (Encounter K V) :=
  c.body.encounters uses

namespace Factory

omit [DecidableEq V] in
/-- Every provider makes a cache of a specification without bound and without expiry, and it behaves
as the empty map. -/
theorem build_shows (p : Provider) {spec : CacheSpec K V} (hbound : spec.maxSize = none)
    (hexpiry : spec.expiry = none)
    (hquiet : ∀ listener ∈ spec.listener, listener.reactions = []) {host : Host} {now : Instant}
    (hnow : host.clock.now = .ok now) :
    ∃ (c : Cache K V) (_ : PlainEngine (c.kind.Store K V) K V),
      ((builtin p).build spec host).1 = .ok c ∧
        c.body.Shows spec.listener [] (.empty p) := by
  have hengine : spec.engineExpiry = none := by
    rw [Spec.engineExpiry, hexpiry]
    rfl
  have hnone : boundOf spec = none := by
    rw [boundOf, hbound]
    rfl
  cases p with
  | moka =>
    have hplain : Deferred.IsPrompt (Deferred.empty none none : Deferred K V) := ⟨rfl, rfl, rfl⟩
    let store : Deferred K V := .empty none none
    refine ⟨⟨.deferred, Running.start store .moka spec host.clock⟩,
      inferInstanceAs (PlainEngine (Deferred K V) K V), ?_, ?_⟩
    · simp only [build, buildDeferred, hengine, hnone]
      rfl
    · exact Running.shows_start (σ := Deferred K V) hplain rfl .moka hquiet hnow
  | lru =>
    refine ⟨⟨.recency, Running.start (Recency.empty none : Recency K V) .lru spec host.clock⟩,
      inferInstanceAs (PlainEngine (Recency K V) K V), ?_, ?_⟩
    · simp only [build, buildRecency, hexpiry, hnone]
      rfl
    · exact Running.shows_start (σ := Recency K V) rfl rfl .lru hquiet hnow
  | dashMap =>
    have hplain : Timed.Stays (Timed.empty none : Timed K V) :=
      ⟨rfl, fun e he ↦ absurd he List.not_mem_nil⟩
    refine ⟨⟨.timed, Running.start (Timed.empty none : Timed K V) .dashMap spec host.clock⟩,
      inferInstanceAs (PlainEngine (Timed K V) K V), ?_, ?_⟩
    · simp only [build, buildTimed, hengine, hbound]
      rfl
    · exact Running.shows_start (σ := Timed K V) hplain rfl .dashMap hquiet hnow

/-- The providers can stand in for each other. Of a specification without bound and without expiry,
whose listener does not call back, every provider makes a cache. However two such caches are used,
if they are used in the same way, they answer alike each time, up to the provider that the answer
names, and the functions they are given are shown the same values. Each time their listeners are
told of the same removals. -/
theorem build_interchangeable (p q : Provider) {spec : CacheSpec K V}
    (hbound : spec.maxSize = none) (hexpiry : spec.expiry = none)
    (hquiet : ∀ listener ∈ spec.listener, listener.reactions = []) {host : Host} {now : Instant}
    (hnow : host.clock.now = .ok now) :
    ∃ c c' : Cache K V, ((builtin p).build spec host).1 = .ok c ∧
      ((builtin q).build spec host).1 = .ok c' ∧
      ∀ uses uses' : List (Use K V), List.Forall₂ Use.Same uses uses' →
        List.Forall₂ (Encounter.Alike p) (c.encounters uses) (c'.encounters uses') := by
  obtain ⟨c, _, hbuild, hshows⟩ := build_shows p hbound hexpiry hquiet hnow
  obtain ⟨c', _, hbuild', hshows'⟩ := build_shows q hbound hexpiry hquiet hnow
  refine ⟨c, c', hbuild, hbuild', fun uses uses' hsame ↦ ?_⟩
  have hempty : (PlainMap.empty p : PlainMap K V).Agrees (.empty q) := ⟨rfl, .refl _, .refl _⟩
  exact Running.encounters_alike hshows hshows' hempty hsame

/-- A cache that is cleared after two entries were stored together, at other times and in another
order than those of another provider's cache. -/
theorem moka_stands_in_for_lru :
    let spec : CacheSpec Nat Nat := ⟨none, none, .none, none, some ⟨[], fun _ ↦ none⟩, none, true⟩
    let later : Clock := ⟨Clock.fresh.start, .ofMillis 1⟩
    let uses : List (Use Nat Nat) :=
      [⟨.fresh, .putAll [(1, 10), (2, 20)]⟩, ⟨.fresh, .perform .clear⟩]
    let uses' : List (Use Nat Nat) :=
      [⟨.fresh, .putAll [(2, 20), (1, 10)]⟩, ⟨later, .perform .clear⟩]
    (spec.maxSize = none ∧ spec.expiry = none ∧
        (∀ listener ∈ spec.listener, listener.reactions = []) ∧
        Host.fresh.clock.now = .ok Clock.fresh.start) ∧
      ∃ c c' : Cache Nat Nat, ((builtin .moka).build spec .fresh).1 = .ok c ∧
        ((builtin .lru).build spec .fresh).1 = .ok c' ∧
        List.Forall₂ (Encounter.Alike .moka) (c.encounters uses) (c'.encounters uses') := by
  intro spec later uses uses'
  have hbound : spec.maxSize = none := rfl
  have hexpiry : spec.expiry = none := rfl
  have hquiet : ∀ listener ∈ spec.listener, listener.reactions = [] :=
    fun _ hl ↦ Option.some.inj hl ▸ rfl
  have hnow : Host.fresh.clock.now = .ok Clock.fresh.start := by decide
  have hlater : later.now = .ok ⟨1000000001000000, by decide, by decide⟩ := by decide
  have hdistinct : Keyed.Distinct [(1, 10), (2, 20)] := by simp [Keyed.Distinct, Keyed.keys]
  have hswap : Request.Same (K := Nat) (V := Nat) (.putAll [(1, 10), (2, 20)])
      (.putAll [(2, 20), (1, 10)]) := .putAll hdistinct (.swap _ _ _)
  have hsame : List.Forall₂ Use.Same uses uses' :=
    .cons ⟨hswap, ⟨_, hnow⟩, ⟨_, hnow⟩⟩ (.cons ⟨.refl _, ⟨_, hnow⟩, ⟨_, hlater⟩⟩ .nil)
  obtain ⟨c, c', hbuild, hbuild', halike⟩ :=
    build_interchangeable .moka .lru hbound hexpiry hquiet hnow
  exact ⟨⟨hbound, hexpiry, hquiet, hnow⟩, c, c', hbuild, hbuild', halike uses uses' hsame⟩

end Factory

end Caching
