import Caching.Cache.Basic
import Caching.Proofs.Recency.Deeds
import Caching.Proofs.Timed.Deeds
import Caching.Proofs.Vacant.Deeds

/-!
# Stores as changes

Every engine has ways of its own to store a value: over whatever there is, over another value only,
or only where there is none. Each of them comes to the same as the change that is decided on the
live value, whether the key is absent, present, or has lapsed and is still there.
-/

namespace Caching

variable {σ K V : Type}

namespace Change

/-- Stores whatever there is. -/
def always (value : V) : Option V → Change V :=
  fun _ ↦ store value

/-- Stores over another value only. -/
def overPresent (value : V) : Option V → Change V
  | some _ => store value
  | none => keep

/-- Stores where there is no value. -/
def overAbsent (value : V) : Option V → Change V
  | some _ => keep
  | none => store value

end Change

namespace Running

variable [Engine σ K V]

/-- An operation that makes the change that is decided on the live value of a key, and answers that
value. -/
def performAltering (report : Report σ K V) (key : K) (decide : Option V → Change V)
    (w : Running σ K V) : Reply V × Running σ K V :=
  w.guarded fun now ↦
    match Engine.alter report now key (fun v ↦ .ok (decide v)) w with
    | (.ok change, w) => (.ok (.value change.previous), w)
    | (.error abort, w) => (.failed (.abort abort), w)

/-- What was answered and done is what the change answers and does. -/
def IsAltering (report : Report σ K V) (now : Instant) (key : K) (decide : Option V → Change V)
    (w : Running σ K V) (r : Option V × Running σ K V) : Prop :=
  ∃ current, Engine.alter report now key (fun v ↦ .ok (decide v)) w = (.ok ⟨r.1, current⟩, r.2)

end Running

open Running

/-- An engine whose stores come to the same as changes. -/
class AlteringEngine (σ K V : Type) [Engine σ K V] : Prop where
  put : ∀ (report : Report σ K V) now key value w,
    IsAltering report now key (.always value) w (Engine.put report now key value w)
  replace : ∀ (report : Report σ K V) now key value w,
    IsAltering report now key (.overPresent value) w (Engine.replace report now key value w)
  putIfAbsent : ∀ (report : Report σ K V) now key value w,
    IsAltering report now key (.overAbsent value) w (Engine.putIfAbsent report now key value w)

private theorem alteringEngine_of_lawful [Engine σ K V] [LawfulEngine σ K V] :
    AlteringEngine σ K V where
  put report now key value w := by
    rw [IsAltering, LawfulEngine.alter_eq, LawfulEngine.put_eq]
    exact ⟨_, rfl⟩
  replace report now key value w := by
    rw [IsAltering, LawfulEngine.alter_eq, LawfulEngine.replace_eq]
    cases LawfulEngine.current? now key w with
    | none => exact ⟨_, rfl⟩
    | some current => exact ⟨_, rfl⟩
  putIfAbsent report now key value w := by
    rw [IsAltering, LawfulEngine.alter_eq, LawfulEngine.putIfAbsent_eq]
    cases LawfulEngine.current? now key w with
    | none => exact ⟨_, rfl⟩
    | some current => exact ⟨_, rfl⟩

instance : AlteringEngine Vacant K V :=
  alteringEngine_of_lawful

section

variable [DecidableEq K]

instance : AlteringEngine (Recency K V) K V :=
  alteringEngine_of_lawful

instance : AlteringEngine (Timed K V) K V :=
  alteringEngine_of_lawful

namespace Deferred

variable (report : Report (Deferred K V) K V) (now : Instant) (key : K) (value : V)
  (w : Running (Deferred K V) K V)

omit [DecidableEq K] in
private theorem isLapsed_used {s : Deferred K V} {e : Stamped V} (h : s.isLapsed now e = false) :
    s.isLapsed now { e with used := now } = false := by
  cases hexpiry : s.expiry with
  | none => simp only [isLapsed, hexpiry]
  | some x =>
    have hself : (now.since now).nanos = 0 := by
      rw [Instant.nanos_since]
      omega
    simp only [isLapsed, hexpiry, decide_eq_false_iff_not] at h ⊢
    cases hresets : x.resetsOnRead with
    | false => simpa [hresets] using h
    | true =>
      simp only [hresets, if_true, hself] at h ⊢
      omega

private theorem store_touch : store report now key value { w with store := w.store.touch now key } =
    store report now key value w := by
  rw [touch]
  cases hlive : w.store.live? now key with
  | none => rfl
  | some e =>
    obtain ⟨hfind, hlives⟩ : w.store.find? key = some e ∧ w.store.isLapsed now e = false := by
      simpa [live?, Option.filter_eq_some_iff] using hlive
    have hmoved : Keyed.moveToEnd key ⟨value, now, now⟩
        (Keyed.moveToEnd key { e with used := now } w.store.entries) =
          Keyed.moveToEnd key ⟨value, now, now⟩ w.store.entries := by
      rw [Keyed.moveToEnd, Keyed.erase_moveToEnd]
      rfl
    have hfind' : find? { w.store with
        entries := Keyed.moveToEnd key { e with used := now } w.store.entries } key =
          some { e with used := now } :=
      Keyed.find?_moveToEnd_self key _ _
    have hlives' : isLapsed { w.store with
        entries := Keyed.moveToEnd key { e with used := now } w.store.entries } now
          { e with used := now } = false :=
      isLapsed_used now hlives
    simp only [store, hfind, hfind', cause, hlives, hlives', hmoved]

end Deferred

instance : AlteringEngine (Deferred K V) K V where
  put report now key value w := by
    simp only [IsAltering, Engine.alter, Change.always, Deferred.store_touch]
    exact ⟨some value, rfl⟩
  replace report now key value w := by
    simp only [IsAltering, Engine.alter, Engine.replace]
    cases hlive : w.store.live? now key with
    | none =>
      simp only [Option.map_none, Change.overPresent, Deferred.touch, hlive]
      exact ⟨none, rfl⟩
    | some e =>
      simp only [Option.map_some, Change.overPresent, Deferred.store_touch]
      exact ⟨some value, rfl⟩
  putIfAbsent report now key value w := by
    simp only [IsAltering, Engine.alter, Engine.putIfAbsent]
    cases hlive : w.store.live? now key with
    | none =>
      simp only [Option.map_none, Change.overAbsent, Deferred.store_touch]
      exact ⟨some value, rfl⟩
    | some e =>
      simp only [Option.map_some, Change.overAbsent]
      exact ⟨some e.value, rfl⟩

instance (kind : Kind) : AlteringEngine (kind.Store K V) K V :=
  match kind with
  | .vacant => inferInstanceAs (AlteringEngine Vacant K V)
  | .deferred => inferInstanceAs (AlteringEngine (Deferred K V) K V)
  | .recency => inferInstanceAs (AlteringEngine (Recency K V) K V)
  | .timed => inferInstanceAs (AlteringEngine (Timed K V) K V)

end

namespace Running

/-- An operation is performed by altering if its service is such a change. -/
theorem guarded_eq_performAltering [Engine σ K V] {report : Report σ K V} {key : K}
    {decide : Option V → Change V} {w : Running σ K V}
    {serve : Instant → Option V × Running σ K V}
    (h : ∀ now, IsAltering report now key decide w (serve now)) :
    w.guarded (fun now ↦ valued (serve now)) = performAltering report key decide w := by
  have hserved (now : Instant) : valued (serve now) =
      match Engine.alter report now key (fun v ↦ .ok (decide v)) w with
      | (.ok change, w) => (.ok (.value change.previous), w)
      | (.error abort, w) => (.failed (.abort abort), w) := by
    obtain ⟨current, halter⟩ := h now
    rw [halter, valued]
  simp only [hserved, performAltering]

/-- Storing a value, storing it over another one, and storing it where there is none, are changes
that are decided on the live value. Whatever the state, and however removals are reported, the reply
is the same and so is the state afterwards, with its entries in their order, their deadlines, the
schedule and the calls of the listener. -/
theorem stores_by_altering [DecidableEq K] [DecidableEq V] (kind : Kind)
    (report : Report (kind.Store K V) K V) (key : K) (value : V)
    (w : Running (kind.Store K V) K V) :
    performWith report (.put key value) w = performAltering report key (.always value) w ∧
      performWith report (.replace key value) w =
        performAltering report key (.overPresent value) w ∧
      performWith report (.putIfAbsent key value) w =
        performAltering report key (.overAbsent value) w :=
  ⟨guarded_eq_performAltering fun now ↦ AlteringEngine.put report now key value w,
    guarded_eq_performAltering fun now ↦ AlteringEngine.replace report now key value w,
    guarded_eq_performAltering fun now ↦ AlteringEngine.putIfAbsent report now key value w⟩

end Running

end Caching
