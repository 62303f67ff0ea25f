import Caching.Proofs.History
import Caching.Proofs.Ledger.Accounts
import Caching.Proofs.Starting

/-!
# The balance of a cache

Over every history, the entries that were stored are the entries that are held, those of which a
listener was told, and those that were dropped because the cache was closed: none is lost, and none
is told of twice. What the cache tells of an entry is the reason why it let go of it.
-/

namespace Caching

open Custodian (held space)

/-- The entries in a deferred store with their deadlines, those included that were cleared and not
told of yet. -/
def Deferred.held {K V : Type} (s : Deferred K V) : List (Holding K V) :=
  (s.entries ++ s.doomed).map fun e ↦ ⟨e.1, e.2.value,
    s.expiry.bind fun x ↦ (if x.resetsOnRead then e.2.used else e.2.written).add? x.time⟩

namespace Kind

variable {K V : Type}

/-- The entries in the store of a cache. -/
def holdings : (kind : Kind) → kind.Store K V → List (Holding K V)
  | vacant, _ => []
  | deferred, s => Deferred.held s
  | recency, s => Recency.held s
  | timed, s => Timed.held s

/-- The number of entries for which a cache has space. -/
def space : (kind : Kind) → kind.Store K V → Option Nat
  | vacant, _ => some 0
  | deferred, s => Deferred.bound s
  | recency, s => Recency.bound s
  | timed, _ => none

end Kind

namespace Running

variable {σ K V : Type} [Engine σ K V] [LawfulEngine σ K V] [Custodian σ K V]
  {behaviours : List (Behaviour K V)} {lasting : Removal K V → Option Payload}
  {start w : Running σ K V} {dialogue : List (Operation K V × Reply V)}

private theorem Accounts.length_le {stored : List (K × V)} {pending : List (Removal K V)}
    (h : Accounts behaviours lasting stored pending w) :
    behaviours.length ≤ w.heard.length + w.depth := by
  rw [depth, h.listener]
  simp only [Listener.candid, List.length_map, List.length_drop]
  omega

private theorem lapse_exchanges (report : Report σ K V) (key : K) (stamp : Nat) {now : Instant}
    (hnow : ∀ reading, w.agenda.clock.now = .ok reading → reading = now) (hd : w.HoldsDistinct) :
    Course (Exchanges now false) report w [] (Engine.lapse report key stamp w) := by
  rw [LawfulEngine.lapse_eq]
  exact .single ⟨.lapsed key stamp w, Custodian.transfer_lapsed now key stamp w hnow hd⟩
    (LawfulEngine.lapsed_frames key stamp w)

variable [DecidableEq V]

/-- In every state, whatever is done next takes a course of transfers. -/
theorem exchanges (bound : Nat) (hd : w.HoldsDistinct) :
    (∀ operation now, operation ≠ .close → w.phase = .active → Engine.reading w = .ok now →
      Course (Exchanges now (operation.dismissed (performWith (reportAt bound) operation w).1))
        (reportAt bound) w
        (operation.accepted (performWith (reportAt bound) operation w).1).toList
        (performWith (reportAt bound) operation w).2) ∧
    ∀ key stamp now, w.agenda.clock.now = .ok now →
      Course (Exchanges now false) (reportAt bound) w []
        (Engine.lapse (reportAt bound) key stamp w) := by
  constructor
  · intro operation now hclose hactive hnow
    exact performWith_exchanges (holdsDistinct_reportAt bound) hclose hd hactive hnow
  · intro key stamp now hnow
    have hreading (reading : Instant) (h : w.agenda.clock.now = .ok reading) : reading = now :=
      Except.ok.inj (h.symm.trans hnow)
    exact lapse_exchanges (reportAt bound) key stamp hreading hd

variable [DecidableEq K]

private theorem Undergoes.accounts (hstart : Accounts behaviours lasting [] [] start)
    (h : Undergoes start dialogue w) :
    Accounts behaviours lasting (acceptedIn dialogue) [] w := by
  induction h with
  | start => exact hstart
  | operate h operation ih =>
    next dialogue w =>
    have hafter := (ih.performWith (settles_reportAt behaviours lasting w.depth)
      (holdsDistinct_reportAt w.depth) ih.length_le operation).1
    rw [acceptedIn_append]
    exact hafter
  | lapse h key stamp ih =>
    next dialogue w =>
    obtain ⟨now, hnow⟩ := w.agenda.clock.exists_shown
    have hcourse := lapse_exchanges w.report key stamp hnow ih.distinct
    have hafter := ((settles_reportAt behaviours lasting w.depth).course hcourse ih ih.length_le).1
    rw [List.append_nil] at hafter
    exact hafter
  | upkeep h ih =>
    rw [LawfulEngine.upkeep_eq]
    exact ih
  | rearrange h agenda host ih => exact ⟨ih.listener, ih.distinct, ih.balance⟩
  | release h ih => exact ih.release

/-- From a start without entries, every history balances. -/
theorem Undergoes.balance (hlistener : start.listener = some (.candid behaviours lasting))
    (hheard : start.heard = []) (hempty : (held start.store : List (Holding K V)) = [])
    (h : Undergoes start dialogue w) :
    w.HoldsDistinct ∧
      ∃ dropped, (acceptedIn dialogue ++ storedInCalls behaviours w.heard).Perm
          ((held w.store).map Holding.pair ++ w.told.map Removal.pair ++ dropped) ∧
        (dropped ≠ [] → w.phase = .closed) := by
  have hstart : Accounts behaviours lasting [] [] start := by
    refine ⟨?_, ?_, [], ?_, nofun⟩
    · rw [hlistener, hheard]
      rfl
    · rw [HoldsDistinct, hempty]
      exact List.nodup_nil
    · have hnone : storedInCalls behaviours ([] : List (Heard K V)) = [] := by
        cases behaviours <;> rfl
      rw [hempty, told, hheard, hnone]
      exact List.Perm.refl _
  have haccounts := h.accounts hstart
  obtain ⟨dropped, hperm, hdropped⟩ := haccounts.balance
  rw [List.map_nil, List.append_nil] at hperm
  exact ⟨haccounts.distinct, dropped, hperm, hdropped⟩

end Running

section

variable {K V : Type}

/-- The cache is as it starts, with the listener that was specified and without entries, unless it
is one that defers its work. -/
def Cache.IsFresh (spec : CacheSpec K V) (cache : Cache K V) : Prop :=
  cache.kind ≠ .deferred → cache.body.listener = spec.listener ∧ cache.body.heard = [] ∧
    cache.kind.holdings cache.body.store = []

/-- Every registry creates fresh caches. -/
theorem Registry.isFresh_create {registry : Registry} {spec : CacheSpec K V} {host : Host}
    {cache : Cache K V} {log : List LogEntry}
    (h : registry.create spec host = (.ok cache, log)) : cache.IsFresh spec := by
  intro hkind
  cases starts_create h with
  | vacant p => exact ⟨rfl, rfl, rfl⟩
  | recency => exact ⟨rfl, rfl, rfl⟩
  | timed => exact ⟨rfl, rfl, rfl⟩
  | deferred => exact absurd rfl hkind
  | kept x h => exact absurd rfl hkind

/-- The changes that the engine of a kind itself makes at an instant, unless it defers its work. -/
def Kind.Dealt [DecidableEq K] (now : Instant) : (kind : Kind) → Running (kind.Store K V) K V →
    List (K × V) → List (Removal K V) → Running (kind.Store K V) K V → Prop
  | .vacant => Running.Dealt (σ := Vacant) now
  | .deferred => fun _ _ _ _ ↦ False
  | .recency => Running.Dealt (σ := Recency K V) now
  | .timed => Running.Dealt (σ := Timed K V) now

/-- A change that the engine of a kind makes at an instant, and that is a transfer of what it holds.
-/
def Kind.Exchanges [DecidableEq K] (kind : Kind) (now : Instant) (asked : Bool)
    (w : Running (kind.Store K V) K V) (stored : List (K × V)) (removals : List (Removal K V))
    (w₁ : Running (kind.Store K V) K V) : Prop :=
  kind.Dealt now w stored removals w₁ ∧
    Transfer (kind.space w.store) now asked (kind.holdings w.store) stored removals
      (kind.holdings w₁.store)

/-- A cache that does not defer its work neither loses an entry nor tells of one twice, whatever is
done to it and whatever its listener does. After every history, the entries that were stored, from
outside or by the listener, are those that are held, those that were told of, and those that were
dropped, which takes that the cache was closed. And in every state, a duty that comes due and an
operation take a course of the engine's own changes at the instant that they read. Each of them is a
transfer, and is told before the next one is made, so that every removal is told with the reason why
the entry has left. -/
theorem Cache.stores_balance [DecidableEq K] [DecidableEq V] {registry : Registry}
    {spec : CacheSpec K V} {host : Host} {cache : Cache K V} {log : List LogEntry}
    (hcreated : registry.create spec host = (.ok cache, log)) (hkind : cache.kind ≠ .deferred)
    {behaviours : List (Behaviour K V)} {lasting : Removal K V → Option Payload}
    (hlistener : spec.listener = some (.candid behaviours lasting))
    {dialogue : List (Operation K V × Reply V)} {w : Running (cache.kind.Store K V) K V}
    (h : cache.body.Undergoes dialogue w) :
    Holding.Distinct (cache.kind.holdings w.store) ∧
      (∃ dropped, (acceptedIn dialogue ++ storedInCalls behaviours w.heard).Perm
          ((cache.kind.holdings w.store).map Holding.pair ++ w.told.map Removal.pair ++ dropped) ∧
        (dropped ≠ [] → w.phase = .closed)) ∧
      ∀ (v : Running (cache.kind.Store K V) K V) bound,
        Holding.Distinct (cache.kind.holdings v.store) →
        (∀ operation now, operation ≠ .close → v.phase = .active → Engine.reading v = .ok now →
          Running.Course (cache.kind.Exchanges now
              (operation.dismissed (Running.performWith (Running.reportAt bound) operation v).1))
            (Running.reportAt bound) v
            (operation.accepted (Running.performWith (Running.reportAt bound) operation v).1).toList
            (Running.performWith (Running.reportAt bound) operation v).2) ∧
        ∀ key stamp now, v.agenda.clock.now = .ok now →
          Running.Course (cache.kind.Exchanges now false) (Running.reportAt bound) v []
            (Engine.lapse (Running.reportAt bound) key stamp v) := by
  obtain ⟨hlistener', hheard, hempty⟩ := Registry.isFresh_create hcreated hkind
  obtain ⟨kind, body⟩ := cache
  have hlistens := hlistener'.trans hlistener
  cases kind with
  | deferred => exact absurd rfl hkind
  | vacant =>
    obtain ⟨hdistinct, hbalance⟩ :=
      Running.Undergoes.balance (σ := Vacant) hlistens hheard hempty h
    exact ⟨hdistinct, hbalance, fun v bound hv ↦ Running.exchanges (σ := Vacant) bound hv⟩
  | recency =>
    obtain ⟨hdistinct, hbalance⟩ :=
      Running.Undergoes.balance (σ := Recency K V) hlistens hheard hempty h
    exact ⟨hdistinct, hbalance, fun v bound hv ↦ Running.exchanges (σ := Recency K V) bound hv⟩
  | timed =>
    obtain ⟨hdistinct, hbalance⟩ :=
      Running.Undergoes.balance (σ := Timed K V) hlistens hheard hempty h
    exact ⟨hdistinct, hbalance, fun v bound hv ↦ Running.exchanges (σ := Timed K V) bound hv⟩

/-- A cache with room for one entry, whose listener stores a third entry when it is told of the
first and panics then. -/
theorem Cache.stores_balance_of_two_puts :
    let behaviours : List (Behaviour Nat Nat) :=
      [fun _ ↦ .call (.put 7 70) fun _ ↦ .done (some .other)]
    let spec : CacheSpec Nat Nat :=
      ⟨some .lru, some 1, .none, none, some (.candid behaviours fun _ ↦ none), none, false⟩
    let cache : Cache Nat Nat :=
      ⟨.recency, Running.start (Recency.empty (some 1)) .lru spec .fresh⟩
    let w := ((cache.body.perform (.put 1 10)).2.perform (.put 2 20)).2
    (Registry.builtin.create spec .fresh).1 = .ok cache ∧ cache.kind ≠ .deferred ∧
      w.told = [⟨1, 10, .size⟩, ⟨2, 20, .size⟩] ∧
      ∃ dropped, ([(1, 10), (2, 20)] ++ storedInCalls behaviours w.heard).Perm
          ((cache.kind.holdings w.store).map Holding.pair ++ w.told.map Removal.pair ++ dropped) ∧
        (dropped ≠ [] → w.phase = .closed) := by
  intro behaviours spec cache w
  have hcreated : Registry.builtin.create spec .fresh =
      (.ok cache, (Registry.builtin.create spec .fresh).2) := rfl
  have hstart : cache.body.Undergoes [] cache.body := .start
  have hhistory := (hstart.operate (.put 1 10)).operate (.put 2 20)
  refine ⟨rfl, nofun, rfl, ?_⟩
  exact (Cache.stores_balance hcreated nofun rfl hhistory).2.1

end

end Caching
