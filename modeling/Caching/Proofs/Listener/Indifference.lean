import Caching.Proofs.Listener.Onlookers
import Caching.Proofs.Session.Tandem

/-!
# Caches are indifferent to onlookers

Two caches whose specifications differ in the listener only, which in neither calls back, answer
every dealing alike, and each time the same entries are left in the same order and with the same
deadlines. If both have a listener, it makes no difference which calls end in a panic: the calls are
the same.
-/

namespace Caching

variable {K V : Type}

/-- States that answer every action alike and stay related have the same tale to tell of a script.
-/
theorem Script.chronicle_simulation {A R α σ τ E : Type} {act : A → σ → R × σ}
    {act' : A → τ → R × τ} {inside : A → σ → List E} {inside' : A → τ → List E}
    {related : σ → τ → Prop} (hact : ∀ {s t}, related s t → ∀ action,
      Agree related (act action s) (act' action t) ∧ inside action s = inside' action t)
    (script : Script A R α) {s : σ} {t : τ} (h : related s t) :
    script.chronicle act inside s = script.chronicle act' inside' t := by
  induction script generalizing s t with
  | done result => rfl
  | call action next ih =>
    obtain ⟨⟨hreply, hrelated⟩, hinside⟩ := hact h action
    simp only [chronicle]
    rw [hinside, ← hreply, ih _ hrelated]

namespace Running

variable {σ : Type} [Engine σ K V] [DecidableEq V]

namespace Twins

variable {heard : Prop} {w w' : Running σ K V}

omit [Engine σ K V] [DecidableEq V] in
private theorem withAgenda (h : w.Twins heard w') (agenda : Agenda (Duty K V)) :
    Twins heard { w with agenda } { w' with agenda } := by
  refine h.onward ⟨rfl, rfl, rfl⟩ ⟨rfl, rfl, rfl⟩ ?_
  obtain ⟨_, _, _, _, rfl⟩ := h.alike
  exact .aside _ _ _ _ _

omit [Engine σ K V] [DecidableEq V] in
private theorem withHost (h : w.Twins heard w') (host : Clock) :
    Twins heard { w with host } { w' with host } := by
  refine h.onward ⟨rfl, rfl, rfl⟩ ⟨rfl, rfl, rfl⟩ ?_
  obtain ⟨_, _, _, _, rfl⟩ := h.alike
  exact .aside _ _ _ _ _

variable [ImpartialEngine σ K V]

/-- Every operation has the same reply. -/
theorem perform (h : w.Twins heard w') (operation : Operation K V) :
    Agree (Twins heard) (w.perform operation) (w'.perform operation) :=
  ImpartialEngine.performWith (bystanding heard w.depth w'.depth) (fun h ↦ h.dispatching) h
    operation

/-- Every script has the same result. -/
theorem follow {α : Type} (h : w.Twins heard w')
    (script : Script (Operation K V) (Reply V) α) :
    Agree (Twins heard) (w.follow script) (w'.follow script) :=
  Script.run_simulation (fun operation _ _ h ↦ h.perform operation) script h

private theorem replies_eq {α : Type} (h : w.Twins heard w')
    (script : Script (Operation K V) (Reply V) α) : w.replies script = w'.replies script := by
  have hact {w w' : Running σ K V} (h : w.Twins heard w') (operation : Operation K V) :
      Agree (Twins heard) (w.perform operation) (w'.perform operation) ∧
        [(w.perform operation).1] = [(w'.perform operation).1] := by
    have hagree := h.perform operation
    exact ⟨hagree, congrArg (fun reply ↦ [reply]) hagree.1⟩
  exact Script.chronicle_simulation hact script h

private theorem release (h : w.Twins heard w') : w.release.Twins heard w'.release :=
  (bystanding heard w.depth w'.depth).release h

private theorem attend (h : w.Twins heard w') (duty : Duty K V) (run : Nat) :
    Option.Rel (Agree (Twins heard)) (attend duty run w) (attend duty run w') := by
  have hrel := bystanding (σ := σ) (K := K) (V := V) heard w.depth w'.depth
  cases duty with
  | lapse key stamp => exact .some ⟨rfl, ImpartialEngine.lapse hrel h key stamp⟩
  | upkeep =>
    simp only [Running.attend, h.alike.phase]
    cases w.phase with
    | closed => exact .some ⟨rfl, h⟩
    | active => exact .some ⟨rfl, ImpartialEngine.upkeep hrel h⟩
  | errand script => exact .some ⟨rfl, (h.follow script).2⟩

/-- Twins go in tandem, whatever they are asked for. -/
theorem tandem (heard : Prop) :
    Tandem (σ := σ) (fun _ : Duty K V ↦ True) Eq (Twins heard) where
  lockstep :=
    { agenda := fun h ↦ h.alike.agenda
      asksOnly := fun _ _ _ ↦ trivial
      withAgenda := fun h a _ ↦ h.withAgenda a
      attend := fun h duty _ run ↦ h.attend duty run }
  host h := by
    obtain ⟨_, _, _, _, rfl⟩ := h.alike
    rfl
  supplied h := by
    obtain ⟨_, _, _, _, rfl⟩ := h.alike
    rfl
  withHost h host := h.withHost host
  replies h script _ := by
    rw [List.forall₂_eq_eq_eq]
    exact h.replies_eq script
  release h := h.release

end Twins

end Running

section

variable [DecidableEq K] [DecidableEq V]

instance (kind : Kind) : ImpartialEngine (kind.Store K V) K V :=
  match kind with
  | .vacant => inferInstanceAs (ImpartialEngine Vacant K V)
  | .deferred => inferInstanceAs (ImpartialEngine (Deferred K V) K V)
  | .recency => inferInstanceAs (ImpartialEngine (Recency K V) K V)
  | .timed => inferInstanceAs (ImpartialEngine (Timed K V) K V)

end

namespace Session

/-- The removals of which the listener was told, in the order of the calls. -/
def told (s : Session K V) : List (Removal K V) :=
  s.cache.body.told

/-- The sessions differ at most in the listener, in the record of its calls and in the log. -/
def Alike (s s' : Session K V) : Prop :=
  ∃ listener heard log, s' = s.update fun w ↦ { w with listener, heard, log }

section

variable {heard : Prop} {kind : Kind} {s s' : Session K V}

/-- Sessions of twins are alike. -/
theorem alike_of_twins (h : Paired kind (Running.Twins heard) s s') : s.Alike s' := by
  cases h with
  | intro h handles =>
    obtain ⟨dispatching, listener, calls, log, rfl⟩ := h.alike
    obtain rfl : dispatching = _ := h.dispatching
    exact ⟨listener, calls, log, rfl⟩

/-- If both are heard, the same was told. -/
theorem told_of_twins (h : Paired kind (Running.Twins heard) s s') (hheard : heard) :
    s'.told = s.told := by
  cases h with
  | intro h handles => exact h.told hheard

end

variable [DecidableEq K] [DecidableEq V]

/-- Whoever looks on has no influence on a cache. From two specifications that differ in the
listener only, which is missing or never calls back, the same cache is created, unless there is an
upkeep to be started, which depends on whether somebody listens. Whatever is done with the two
caches from then on comes to the same, down to the reply to every operation, and leaves the same
entries, in the same order and with the same deadlines, and the same agenda, whichever calls of the
listeners have ended in a panic. If both caches have a listener, both were told of the same removals
in the same order. -/
theorem onlookers_go_unnoticed {registry : Registry} {spec : CacheSpec K V} {host : Host}
    {cache : Cache K V} {log : List LogEntry}
    (hcreated : registry.create spec host = (.ok cache, log))
    (hdeferred : cache.kind = .deferred → spec.engineExpiry = none)
    (hlooks : ∀ l ∈ spec.listener, Listener.LooksOn l) (listener : Option (Listener K V))
    (hlooks' : ∀ l ∈ listener, Listener.LooksOn l) :
    ∃ log', registry.create { spec with listener } host =
        (.ok (cache.withListener listener), log') ∧
      ∀ fuel dealings, List.Forall₂
        (fun r r' ↦ r.1 = r'.1 ∧ r.2.Alike r'.2 ∧
          (spec.listener.isSome = true ∧ listener.isSome = true → r'.2.told = r.2.told))
        ((ofCache cache).progress fuel dealings)
        ((ofCache (cache.withListener listener)).progress fuel dealings) := by
  obtain ⟨log', hother⟩ := Registry.create_withListener hcreated hdeferred listener
  refine ⟨log', hother, fun fuel dealings ↦ ?_⟩
  have hlistener := (Registry.starts_create hcreated).listener
  have hstart : cache.body.Twins (spec.listener.isSome = true ∧ listener.isSome = true)
      (cache.withListener listener).body := by
    refine ⟨.aside _ _ _ _ _, rfl, ?_, hlooks', ?_, fun _ ↦ rfl⟩
    · rw [Running.IsLookedOn, hlistener]
      exact hlooks
    · rw [hlistener]
      exact id
  have htwins : Paired _ _ (ofCache cache) (ofCache (cache.withListener listener)) :=
    .intro hstart [true]
  have hasks (dealing : Dealing K V) (_ : dealing ∈ dealings) :
      dealing.Asks fun _ ↦ True := by
    cases dealing <;> trivial
  exact (htwins.progress (Running.Twins.tandem _) fuel hasks).imp
    fun _ _ h ↦ ⟨h.1.eq, alike_of_twins h.2, told_of_twins h.2⟩

/-- A listener that panics on its first and third call, and another one that only records. A value
is replaced, and then two entries expire while time passes. -/
theorem onlookers_go_unnoticed_of_panics :
    let panics (n : Nat) (_ : Removal Nat Nat) : Option Payload :=
      if n % 2 = 0 then some (.text "no") else none
    let executor : Agenda (Duty Nat Nat) := .ofClock (.ofStart ⟨0, by decide, by decide⟩)
    let spec : CacheSpec Nat Nat :=
      ⟨some .dashMap, none, .postWrite, some ⟨100, by decide⟩, some (.panicking panics 3),
        some executor, false⟩
    let cache : Cache Nat Nat :=
      ⟨.timed, Running.start (Timed.empty spec.engineExpiry) .dashMap spec .fresh⟩
    let other : Cache Nat Nat := cache.withListener (some ⟨[], fun _ ↦ none⟩)
    let dealings : List (Dealing Nat Nat) :=
      [.use (.call (.put 1 10) fun _ ↦ .call (.put 1 20) fun _ ↦
          .call (.put 2 30) fun _ ↦ .done ()),
        .advance ⟨200, by decide⟩]
    (Registry.builtin.create spec .fresh).1 = .ok cache ∧
      ((ofCache cache).progress 5 dealings).map (fun r ↦ r.2.told) =
        [[⟨1, 10, .replaced⟩],
          [⟨1, 10, .replaced⟩, ⟨1, 20, .expired⟩, ⟨2, 30, .expired⟩]] ∧
      ((ofCache cache).progress 5 dealings).map (fun r ↦ r.2.cache.body.log.length) = [1, 2] ∧
      List.Forall₂ (fun r r' ↦ r.1 = r'.1 ∧ r.2.Alike r'.2 ∧ r'.2.told = r.2.told)
        ((ofCache cache).progress 5 dealings) ((ofCache other).progress 5 dealings) := by
  intro panics executor spec cache other dealings
  have hcreated : Registry.builtin.create spec .fresh =
      (.ok cache, (Registry.builtin.create spec .fresh).2) := rfl
  have hlooks (l : Listener Nat Nat) (hl : l ∈ spec.listener) : l.LooksOn := by
    cases hl
    exact Listener.looksOn_panicking panics 3
  have hlooks' (l : Listener Nat Nat) (hl : l ∈ some ⟨[], fun _ ↦ none⟩) : l.LooksOn := by
    cases hl
    intro reaction hreaction
    cases hreaction
  obtain ⟨_, _, halike⟩ := onlookers_go_unnoticed hcreated (by simp) hlooks _ hlooks'
  refine ⟨rfl, by decide +kernel, by decide +kernel, (halike 5 dealings).imp fun _ _ h ↦ ⟨h.1, h.2.1, h.2.2 ⟨rfl, rfl⟩⟩⟩

end Session

end Caching
