import Caching.Cache.Factory
import Caching.Proofs.Recency.Deeds
import Caching.Proofs.Recency.Ranking
import Caching.Proofs.Script.Simulation

/-!
# The recency engine keeps a ranking

A cache on the recency engine answers as the plain map of a ranking, holds its entries in the order
of their last touches, and tells a quiet listener of the same removals. The ranking never exceeds
the bound, so an entry leaves for want of space exactly when a new key finds the ranking full.
-/

namespace Caching

namespace Ranking

variable {K V : Type} [DecidableEq K]

/-- There is room for the entries. -/
def IsBounded (r : Ranking K V) : Prop :=
  ∀ bound ∈ r.bound, r.entries.length ≤ bound

/-- The removals for want of space. -/
def displaced (removals : List (Removal K V)) : List (Removal K V) :=
  removals.filter fun removal ↦ decide (removal.cause = .size)

private theorem entries_ne_nil_of_isFull {r : Ranking K V} (hbound : r.bound ≠ some 0)
    (hfull : r.isFull = true) : r.entries ≠ [] := by
  intro hnil
  cases hb : r.bound with
  | none => simp [isFull, hb] at hfull
  | some bound =>
    simp only [isFull, hb, Option.any_some, hnil, List.length_nil, Nat.le_zero_eq,
      decide_eq_true_eq] at hfull
    exact hbound (hfull ▸ hb)

private theorem isFull_iff {r : Ranking K V} {bound : Nat} (hb : r.bound = some bound) :
    r.isFull = true ↔ bound ≤ r.entries.length := by
  simp only [isFull, hb, Option.any_some, decide_eq_true_eq]

private theorem length_entries_put (r : Ranking K V) (key : K) (value : V) :
    (r.put key value).entries.length = (Keyed.erase key r.entries).length + 1 := by
  rw [entries_put, Keyed.moveToEnd, List.length_append, List.length_singleton]

private theorem IsBounded.carry {r : Ranking K V} (hlogged : r.IsLogged) (hbound : r.bound ≠ some 0)
    (h : r.IsBounded) (key : K) (deed : Deed V) : (r.carry key deed).2.IsBounded := by
  have herase {old : V} (hv : r.contents key = some old) :=
    Keyed.length_erase_of_find? r.distinct_entries ((find?_entries hlogged key).trans hv)
  have htouch {value : V} (hv : r.contents key = some value) : (r.touch key).IsBounded := by
    intro bound hb
    rw [entries_touch hv, ← entries_put, length_entries_put, herase hv]
    exact h bound hb
  simp only [Ranking.carry]
  split
  · exact h
  · next hv => exact htouch hv
  · next hv => exact htouch hv
  · next hv => exact htouch hv
  · exact h
  · exact h
  · exact h
  · next hv =>
    intro bound hb
    rw [length_entries_put, herase hv]
    exact h bound hb
  · split
    · next oldest rest hfull hentries =>
      intro bound hb
      have hfound : Keyed.find? oldest.1 r.entries = some oldest.2 := by
        rw [hentries, Keyed.find?, if_pos rfl]
      have hleft := Keyed.length_erase_of_find? r.distinct_entries hfound
      have hle := Keyed.length_erase_le key (r.take oldest.1).entries
      have hlength := h bound hb
      rw [length_entries_put]
      rw [entries_take] at hle ⊢
      omega
    · next hroom =>
      intro bound hb
      have hnotFull : ¬ bound ≤ r.entries.length := by
        intro hle
        have hfull : r.isFull = true := (isFull_iff (r := r) hb).mpr hle
        obtain ⟨oldest, rest, hentries⟩ :=
          List.exists_cons_of_ne_nil (entries_ne_nil_of_isFull hbound hfull)
        exact hroom oldest rest hfull hentries
      have hle := Keyed.length_erase_le key r.entries
      rw [length_entries_put]
      omega
  · intro bound hb
    rw [entries_take]
    exact Nat.le_trans (Keyed.length_erase_le key r.entries) (h bound hb)
  · exact h

private theorem length_displaced_carry {r : Ranking K V} (hbound : r.bound ≠ some 0) (key : K)
    (deed : Deed V) : (displaced (r.carry key deed).1).length =
      (deed.stored.isSome && (r.contents key).isNone && r.isFull).toNat := by
  simp only [Ranking.carry]
  split <;> simp_all [displaced, Deed.stored]
  split
  · next hfull hentries => simp [hfull]
  · next hroom =>
    cases hf : r.isFull with
    | false => rfl
    | true =>
      obtain ⟨oldest, rest, hentries⟩ :=
        List.exists_cons_of_ne_nil (entries_ne_nil_of_isFull hbound hf)
      exact False.elim (hroom oldest rest hf hentries)

/-- The ranking is within its bound, and the entries that left for want of space are as many as the
stores of new keys that found no room. -/
structure IsFair (bound : Option Nat) (r : Ranking K V) : Prop where
  logged : r.IsLogged
  bound : r.bound = bound
  roomy : r.bound ≠ some 0
  bounded : r.IsBounded
  crowded : (displaced r.told).length = r.crowded

/-- A ranking without entries is fair if there is room for one. -/
theorem isFair_empty {bound : Option Nat} (hbound : bound ≠ some 0) (provider : Provider) :
    IsFair bound (empty bound provider : Ranking K V) := by
  refine ⟨fun _ hk ↦ absurd rfl hk, rfl, hbound, ?_, rfl⟩
  intro n _
  exact Nat.zero_le n

private theorem IsFair.leave {bound : Option Nat} {r : Ranking K V} (h : r.IsFair bound)
    {removals : List (Removal K V)} (hremovals : displaced removals = []) {r' : Ranking K V}
    (hlogged : r'.IsLogged) (hbound : r'.bound = r.bound)
    (hlength : r'.entries.length ≤ r.entries.length) :
    IsFair bound { r' with told := r.told ++ removals, crowded := r.crowded + false.toNat } := by
  refine ⟨hlogged, hbound.trans h.bound, hbound ▸ h.roomy, ?_, ?_⟩
  · intro n hn
    exact Nat.le_trans hlength (h.bounded n (hbound ▸ hn))
  · have hcrowded := h.crowded
    simp only [displaced, List.filter_append, List.length_append, Bool.toNat_false] at *
    simp only [hremovals, hcrowded, List.length_nil]

/-- Every operation keeps a ranking fair. -/
theorem IsFair.perform [DecidableEq V] {bound : Option Nat} {r : Ranking K V}
    (h : r.IsFair bound) (operation : Operation K V) : (r.perform operation).2.IsFair bound := by
  cases hp : r.phase with
  | closed =>
    rw [Ranking.perform, hp]
    exact h
  | active =>
    rw [Ranking.perform, hp]
    cases hkey : operation.key? with
    | some key =>
      have hserve : r.serve operation = r.carry key (operation.deed (r.contents key)) := by
        cases operation <;> simp_all [Ranking.serve, Operation.key?]
      have hcount := length_displaced_carry h.roomy key (operation.deed (r.contents key))
      have hcrowded := h.crowded
      obtain ⟨contents, touches, hcarry⟩ := r.carry_eq key (operation.deed (r.contents key))
      rw [hserve]
      refine ⟨h.logged.carry key _, ?_, ?_, h.bounded.carry h.logged h.roomy key _, ?_⟩
      · rw [hcarry]
        exact h.bound
      · rw [hcarry]
        exact h.roomy
      · simp only [displaced, List.filter_append, List.length_append] at *
        rw [hcount, hcrowded]
        simp only [isCrowdedBy, hkey, Option.any_some]
    | none =>
      have hcleared : r.cleared.entries.length = 0 := congrArg List.length r.entries_cleared
      cases operation with
      | clear =>
        refine h.leave ?_ (isLogged_cleared r) rfl ?_
        · apply List.filter_eq_nil_iff.mpr
          intro removal hm
          obtain ⟨e, _, rfl⟩ := List.mem_map.mp hm
          simp
        · exact Nat.le_trans (Nat.le_of_eq hcleared) (Nat.zero_le _)
      | close =>
        refine h.leave rfl (isLogged_cleared r) rfl ?_
        exact Nat.le_trans (Nat.le_of_eq hcleared) (Nat.zero_le _)
      | size | state | provider => exact h.leave rfl h.logged rfl (Nat.le_refl _)
      | _ => simp [Operation.key?] at hkey

end Ranking

namespace Recency

variable {K V : Type} [DecidableEq K]

/-- The store holds the entries of the ranking in its order. -/
structure Ranks (s : Recency K V) (r : Ranking K V) : Prop where
  bound : s.bound = r.bound
  entries : s.entries = r.entries
  logged : r.IsLogged

namespace Ranks

variable {s : Recency K V} {r : Ranking K V}

private theorem find? (h : Ranks s r) (key : K) : s.find? key = r.contents key := by
  rw [Recency.find?, h.entries, Ranking.find?_entries h.logged]

private theorem isFull (h : Ranks s r) : s.isFull = r.isFull := by
  rw [Recency.isFull, Ranking.isFull, h.bound, h.entries]
  cases r.bound <;> rfl

private theorem touch (h : Ranks s r) {key : K} {value : V} (hv : r.contents key = some value) :
    Ranks (s.touch key) (r.touch key) := by
  have hfind := (h.find? key).trans hv
  refine ⟨?_, ?_, h.logged.touch key⟩
  · simpa only [Recency.touch, hfind, Ranking.touch] using h.bound
  · rw [Ranking.entries_touch hv, ← h.entries]
    simp only [Recency.touch, hfind]

private theorem touch_of_eq_none (h : Ranks s r) {key : K} (hv : r.contents key = none) :
    Ranks (s.touch key) r := by
  rw [touch_of_find?_eq_none ((h.find? key).trans hv)]
  exact h

private theorem pop (h : Ranks s r) (key : K) : Ranks (s.pop key).2 (r.take key) := by
  refine ⟨h.bound, ?_, h.logged.take key⟩
  rw [Ranking.entries_take, ← h.entries]
  rfl

private theorem store (h : Ranks s r) {key : K} (hv : r.contents key = none) (value : V) :
    (s.carry key (.store value)).1 = (r.carry key (.store value)).1 ∧
      Ranks (s.carry key (.store value)).2 (r.carry key (.store value)).2 := by
  have hfind := (h.find? key).trans hv
  have hlogged := h.logged.carry key (.store value)
  have herase : Keyed.erase key r.entries = r.entries :=
    Keyed.erase_of_find?_eq_none ((Ranking.find?_entries h.logged key).trans hv)
  have hroom : Ranks { s with entries := r.entries ++ [(key, value)] } (r.put key value) := by
    refine ⟨h.bound, ?_, h.logged.put key value⟩
    rw [Ranking.entries_put, Keyed.moveToEnd, herase]
  simp only [Recency.carry, Ranking.carry, push, hfind, hv, h.isFull, h.entries] at hlogged ⊢
  cases hfull : r.isFull with
  | false => exact ⟨rfl, hroom⟩
  | true =>
    cases hentries : r.entries with
    | nil =>
      rw [hentries] at hroom
      exact ⟨rfl, hroom⟩
    | cons oldest rest =>
      have hd := r.distinct_entries
      rw [hentries] at hd herase
      have hne : oldest.1 ≠ key := by
        intro hk
        have hmem : oldest ∈ Keyed.erase key (oldest :: rest) :=
          herase.symm ▸ List.mem_cons_self
        exact (Keyed.mem_erase_iff.mp hmem).2 hk
      have hrest : Keyed.erase oldest.1 (oldest :: rest) = rest :=
        (Keyed.erase_cons_self oldest.2 rest).trans (Keyed.erase_of_find?_eq_none
          (Keyed.find?_eq_none_iff.mpr (Keyed.distinct_cons.mp hd).1))
      have hkeep : Keyed.erase key rest = rest := by
        simpa [Keyed.erase, hne] using herase
      simp only [hfull, hentries] at hlogged ⊢
      refine ⟨by simp [hne], h.bound, ?_, hlogged⟩
      rw [Ranking.entries_put, Ranking.entries_take, hentries, hrest, Keyed.moveToEnd, hkeep]

private theorem carry (h : Ranks s r) (key : K) (deed : Deed V) :
    (s.carry key deed).1 = (r.carry key deed).1 ∧
      Ranks (s.carry key deed).2 (r.carry key deed).2 := by
  have hfind := h.find? key
  cases deed with
  | ignore => exact ⟨rfl, h⟩
  | abandon | read | keep =>
    cases hv : r.contents key with
    | none =>
      simpa only [Recency.carry, Ranking.carry, hv, true_and] using h.touch_of_eq_none hv
    | some value => simpa only [Recency.carry, Ranking.carry, hv, true_and] using h.touch hv
  | remove =>
    cases hv : r.contents key with
    | some old =>
      simp only [Recency.carry, Ranking.carry, hfind, hv]
      exact ⟨rfl, h.pop key⟩
    | none =>
      simp only [Recency.carry, Ranking.carry, hfind, hv]
      refine ⟨rfl, h.bound, ?_, h.logged⟩
      rw [← h.entries]
      exact Keyed.erase_of_find?_eq_none (hfind.trans hv)
  | store value =>
    cases hv : r.contents key with
    | some old =>
      simp only [Recency.carry, Ranking.carry, push, hfind, hv]
      refine ⟨by simp, h.bound, ?_, h.logged.put key value⟩
      rw [Ranking.entries_put, h.entries]
    | none => exact h.store hv value

end Ranks

/-- A cache with a quiet listener, and the ranking that it keeps. Without a listener there is nobody
who could have been told. -/
structure Keeps (listener : Option (Listener K V)) (w : Running (Recency K V) K V)
    (r : Ranking K V) : Prop where
  ranks : Ranks w.store r
  provider : w.provider = r.provider
  phase : w.phase = r.phase
  heeded : w.listener = listener
  quiet : w.IsQuiet
  told : w.told = if listener.isSome then r.told else []

namespace Keeps

variable [DecidableEq V] {listener : Option (Listener K V)} {w : Running (Recency K V) K V}
  {r : Ranking K V}

private theorem tell (h : Keeps listener w r) (hactive : w.phase = .active) (bound : Nat)
    (removals : List (Removal K V)) (crowded : Nat) {s : Recency K V} {r' : Ranking K V}
    (hranks : Ranks s r') (hprovider : r'.provider = r.provider) (hphase : r'.phase = r.phase) :
    Keeps listener (Running.tell (Running.reportAt bound) removals { w with store := s })
      { r' with told := r.told ++ removals, crowded } := by
  have hquiet : Running.IsQuiet { w with store := s } := h.quiet
  obtain ⟨heard, log, htell, htold⟩ := Running.tell_of_quiet hquiet bound removals
  rw [htell]
  refine ⟨⟨hranks.bound, hranks.entries, hranks.logged⟩, ?_, ?_, h.heeded, h.quiet, ?_⟩
  · exact h.provider.trans hprovider.symm
  · exact h.phase.trans hphase.symm
  · have hbefore := h.told
    simp only [Running.told, Running.isHeeded, hactive, h.heeded] at htold hbefore ⊢
    rw [htold, hbefore]
    cases listener <;> simp

private theorem performKey (h : Keeps listener w r) (hactive : w.phase = .active)
    {operation : Operation K V} {key : K} (hkey : operation.key? = some key) :
    (w.perform operation).1 = (r.perform operation).1 ∧
      Keeps listener (w.perform operation).2 (r.perform operation).2 := by
  have hphase : r.phase = .active := h.phase.symm.trans hactive
  have hfind : w.store.find? key = r.contents key := h.ranks.find? key
  have hperform : w.perform operation = (operation.answer (w.store.find? key),
      Running.settle w.report (carryOut key (operation.deed (w.store.find? key)) w)) :=
    Running.performWith_of_key w.report hkey hactive rfl
  obtain ⟨hremovals, hranks⟩ := h.ranks.carry key (operation.deed (r.contents key))
  rw [hperform, hfind, Ranking.perform, hphase]
  constructor
  · cases operation <;> simp_all [Operation.openReply, Operation.key?]
  · have hserve : r.serve operation = r.carry key (operation.deed (r.contents key)) := by
      cases operation <;> simp_all [Ranking.serve, Operation.key?]
    obtain ⟨contents, touches, hcarry⟩ := r.carry_eq key (operation.deed (r.contents key))
    simp only [hserve, Running.settle, carryOut, hremovals]
    exact h.tell hactive w.depth _ _ hranks (by rw [hcarry]) (by rw [hcarry])

private theorem performClear (h : Keeps listener w r) (hactive : w.phase = .active) :
    (w.perform .clear).1 = (r.perform .clear).1 ∧
      Keeps listener (w.perform .clear).2 (r.perform .clear).2 := by
  have hphase : r.phase = .active := h.phase.symm.trans hactive
  have hperform : w.perform .clear = (.ok .done, Running.tell w.report
      (w.store.entries.map fun e ↦ ⟨e.1, e.2, .explicit⟩)
      { w with store := { w.store with entries := [] } }) := by
    rw [Running.perform, Running.performWith, Running.guarded_of_reading hactive rfl,
      Running.tell, List.foldl_map]
    rfl
  have hranks : Ranks { w.store with entries := [] } r.cleared :=
    ⟨h.ranks.bound, r.entries_cleared.symm, Ranking.isLogged_cleared r⟩
  rw [hperform, Ranking.perform, hphase, h.ranks.entries]
  exact ⟨rfl, h.tell hactive w.depth _ _ hranks rfl rfl⟩

private theorem performClose (h : Keeps listener w r) (hactive : w.phase = .active) :
    (w.perform .close).1 = (r.perform .close).1 ∧
      Keeps listener (w.perform .close).2 (r.perform .close).2 := by
  have hphase : r.phase = .active := h.phase.symm.trans hactive
  have hclose : (w.perform .close).2 = { w with
      store := { w.store with entries := [] }, phase := .closed
      log := w.log ++ [⟨.debug, "cache closed", [("provider", Named.name w.provider)]⟩] } := by
    simp only [Running.perform, Running.performWith, Running.close, hactive]
    rfl
  have htold : w.told = if listener.isSome then r.told ++ [] else [] := by
    rw [List.append_nil]
    exact h.told
  rw [hclose, Ranking.perform, hphase]
  refine ⟨rfl, ⟨h.ranks.bound, r.entries_cleared.symm, Ranking.isLogged_cleared r⟩,
    h.provider, rfl, h.heeded, h.quiet, htold⟩

private theorem performLook (h : Keeps listener w r) (hactive : w.phase = .active)
    {operation : Operation K V}
    (hlook : operation = .size ∨ operation = .state ∨ operation = .provider) :
    (w.perform operation).1 = (r.perform operation).1 ∧
      Keeps listener (w.perform operation).2 (r.perform operation).2 := by
  have hphase : r.phase = .active := h.phase.symm.trans hactive
  have hlength : w.store.entries.length = r.entries.length := by rw [h.ranks.entries]
  have hkeep : Keeps listener w { r with told := r.told ++ [], crowded := r.crowded + 0 } := by
    rw [List.append_nil]
    exact ⟨⟨h.ranks.bound, h.ranks.entries, h.ranks.logged⟩, h.provider, h.phase, h.heeded, h.quiet,
      h.told⟩
  rw [Ranking.perform, hphase]
  rcases hlook with rfl | rfl | rfl
  · have hperform : w.perform .size = (.ok (.count w.store.entries.length), w) := by
      rw [Running.perform, Running.performWith, Running.guarded_of_reading hactive rfl]
      rfl
    rw [hperform, hlength]
    exact ⟨rfl, hkeep⟩
  · refine ⟨?_, hkeep⟩
    rw [Running.perform, Running.performWith, hactive]
    rfl
  · refine ⟨?_, hkeep⟩
    rw [Running.perform, Running.performWith, h.provider]
    rfl

private theorem performClosed (h : Keeps listener w r) (hclosed : w.phase = .closed)
    (operation : Operation K V) :
    (w.perform operation).1 = (r.perform operation).1 ∧
      Keeps listener (w.perform operation).2 (r.perform operation).2 := by
  have hphase : r.phase = .closed := h.phase.symm.trans hclosed
  rw [Running.perform, Running.performWith_of_closed w.report hclosed, Ranking.perform, hphase,
    h.provider]
  exact ⟨rfl, h⟩

/-- Every operation is answered alike, and the cache goes on keeping the ranking. -/
theorem perform (h : Keeps listener w r) (operation : Operation K V) :
    (w.perform operation).1 = (r.perform operation).1 ∧
      Keeps listener (w.perform operation).2 (r.perform operation).2 := by
  cases hp : w.phase with
  | closed => exact h.performClosed hp operation
  | active =>
    cases hkey : operation.key? with
    | some key => exact h.performKey hp hkey
    | none =>
      cases operation with
      | clear => exact h.performClear hp
      | close => exact h.performClose hp
      | size | state | provider => exact h.performLook hp (by simp)
      | _ => simp [Operation.key?] at hkey

end Keeps

/-- A cache that starts on the recency engine keeps a ranking without entries. -/
theorem keeps_start (bound : Option Nat) {spec : CacheSpec K V}
    (hquiet : ∀ listener ∈ spec.listener, listener.reactions = []) (host : Clock) :
    Keeps spec.listener (Running.start (Recency.empty bound) .lru spec host)
      (Ranking.empty bound .lru) := by
  refine ⟨⟨rfl, rfl, fun _ hk ↦ absurd rfl hk⟩, rfl, rfl, rfl, hquiet, ?_⟩
  split <;> rfl

/-- Whatever is done to a cache on the recency engine, it answers as the ranking does, holds the
entries of the ranking in the order of their last touches and within the bound, and tells a quiet
listener what the ranking tells. So it tells of want of space as often as a new key is stored that
finds the cache full. -/
theorem follow_keeps_ranking [DecidableEq V] {α : Type} {bound : Option Nat}
    (hbound : bound ≠ some 0) (spec : CacheSpec K V)
    (hquiet : ∀ listener ∈ spec.listener, listener.reactions = []) (host : Clock)
    (script : Script (Operation K V) (Reply V) α) :
    let cache := (Running.start (Recency.empty bound) .lru spec host).follow script
    let ranking := (Ranking.empty bound .lru).follow script
    cache.1 = ranking.1 ∧
      cache.2.store.entries = ranking.2.entries ∧
      Keyed.Distinct cache.2.store.entries ∧
      (∀ n ∈ bound, cache.2.store.entries.length ≤ n) ∧
      cache.2.told = (if spec.listener.isSome then ranking.2.told else []) ∧
      (Ranking.displaced ranking.2.told).length = ranking.2.crowded := by
  intro cache ranking
  have hact (operation : Operation K V) (w : Running (Recency K V) K V) (r : Ranking K V)
      (h : Keeps spec.listener w r) := h.perform operation
  have hkept (operation : Operation K V) (r : Ranking K V) (h : r.IsFair bound) :=
    h.perform operation
  obtain ⟨hresult, hkeeps⟩ := Script.run_simulation hact script (keeps_start bound hquiet host)
  have hfair := Script.run_invariant hkept script (Ranking.isFair_empty hbound .lru)
  have hentries : cache.2.store.entries = ranking.2.entries := hkeeps.ranks.entries
  refine ⟨hresult, hentries, ?_, ?_, hkeeps.told, hfair.crowded⟩
  · rw [hentries]
    exact ranking.2.distinct_entries
  · intro n hn
    rw [hentries]
    exact hfair.bounded n (hfair.bound.symm ▸ hn)

/-- A cache with room for one entry gives up the first for the second. -/
theorem told_of_two_puts :
    (some 1 : Option Nat) ≠ some 0 ∧
      ((Running.start (Recency.empty (some 1) : Recency Nat Nat) .lru
          ⟨none, some 1, .none, none, some ⟨[], fun _ ↦ none⟩, none, false⟩ .fresh).follow
        (putAll [(1, 10), (2, 20)])).2.told = [⟨1, 10, .size⟩] := by
  have hbound : (some 1 : Option Nat) ≠ some 0 := by decide
  have h := follow_keeps_ranking hbound ⟨none, some 1, .none, none, some ⟨[], fun _ ↦ none⟩, none,
    false⟩ (fun _ hl ↦ Option.some.inj hl ▸ rfl) .fresh (putAll [(1, 10), (2, 20)])
  exact ⟨hbound, h.2.2.2.2.1.trans rfl⟩

end Recency

end Caching
