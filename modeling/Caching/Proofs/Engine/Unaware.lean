import Caching.Proofs.Recency.Deeds
import Caching.Proofs.Timed.Deeds
import Caching.Proofs.Vacant.Deeds

/-!
# Engines that know nothing of the listener

What an engine does hangs on its store, its agenda and the clocks. The listener, the record of its
calls and the log have no part in it: on two caches that differ in these alone, every deed finds the
same, takes out the same entries and leaves the caches as much alike as they were.
-/

namespace Caching

variable {σ K V : Type}

/-- The caches differ at most in the listener, the calls of it, their record and the log. -/
def Running.Alike (w w' : Running σ K V) : Prop :=
  ∃ dispatching listener heard log, w' = { w with dispatching, listener, heard, log }

namespace Running.Alike

variable {w w₁ w₂ : Running σ K V}

theorem refl (w : Running σ K V) : w.Alike w :=
  ⟨w.dispatching, w.listener, w.heard, w.log, rfl⟩

theorem symm (h : w.Alike w₁) : w₁.Alike w := by
  obtain ⟨dispatching, listener, heard, log, rfl⟩ := h
  exact ⟨w.dispatching, w.listener, w.heard, w.log, rfl⟩

theorem trans (h : w.Alike w₁) (h' : w₁.Alike w₂) : w.Alike w₂ := by
  obtain ⟨dispatching, listener, heard, log, rfl⟩ := h
  obtain ⟨dispatching', listener', heard', log', rfl⟩ := h'
  exact ⟨dispatching', listener', heard', log', rfl⟩

/-- Another listener and other records. -/
theorem aside (w : Running σ K V) (dispatching : Nat) (listener : Option (Listener K V))
    (heard : List (Heard K V)) (log : List LogEntry) :
    w.Alike { w with dispatching, listener, heard, log } :=
  ⟨dispatching, listener, heard, log, rfl⟩

theorem store (h : w.Alike w₁) : w₁.store = w.store := by
  obtain ⟨dispatching, listener, heard, log, rfl⟩ := h
  rfl

theorem agenda (h : w.Alike w₁) : w₁.agenda = w.agenda := by
  obtain ⟨dispatching, listener, heard, log, rfl⟩ := h
  rfl

/-- The same change of the store in both. -/
theorem mapStore (h : w.Alike w₁) (f : σ → σ) :
    Alike { w with store := f w.store } { w₁ with store := f w₁.store } := by
  obtain ⟨dispatching, listener, heard, log, rfl⟩ := h
  exact ⟨dispatching, listener, heard, log, rfl⟩

theorem phase (h : w.Alike w₁) : w₁.phase = w.phase := by
  obtain ⟨dispatching, listener, heard, log, rfl⟩ := h
  rfl

theorem provider (h : w.Alike w₁) : w₁.provider = w.provider := by
  obtain ⟨dispatching, listener, heard, log, rfl⟩ := h
  rfl

end Running.Alike

/-- The same removals, and states that are alike. -/
def ChangesAlike (r r' : List (Removal K V) × Running σ K V) : Prop :=
  r'.1 = r.1 ∧ r.2.Alike r'.2

/-- An engine whose doings do not hang on the listener. -/
class UnawareEngine (σ K V : Type) [Engine σ K V] [LawfulEngine σ K V] : Prop where
  reading : ∀ {w w' : Running σ K V}, w.Alike w' → Engine.reading w' = Engine.reading w
  current? : ∀ {w w' : Running σ K V}, w.Alike w' → ∀ now key,
    LawfulEngine.current? now key w' = LawfulEngine.current? now key w
  carry : ∀ {w w' : Running σ K V}, w.Alike w' → ∀ now key deed,
    ChangesAlike (LawfulEngine.carry now key deed w) (LawfulEngine.carry now key deed w')
  stale : ∀ {w w' : Running σ K V}, w.Alike w' → ∀ now,
    LawfulEngine.stale now w' = LawfulEngine.stale now w
  count : ∀ {w w' : Running σ K V}, w.Alike w' → LawfulEngine.count w' = LawfulEngine.count w
  sweep : ∀ {w w' : Running σ K V}, w.Alike w' →
    ChangesAlike (LawfulEngine.sweep w) (LawfulEngine.sweep w')
  remaining : ∀ {w w' : Running σ K V}, w.Alike w' →
    LawfulEngine.remaining w' = LawfulEngine.remaining w
  lapsed : ∀ {w w' : Running σ K V}, w.Alike w' → ∀ key stamp,
    ChangesAlike (LawfulEngine.lapsed key stamp w) (LawfulEngine.lapsed key stamp w')
  teardown : ∀ {w w' : Running σ K V}, w.Alike w' →
    (Engine.teardown w).Alike (Engine.teardown w')

namespace Vacant

instance : UnawareEngine Vacant K V where
  reading h := by obtain ⟨_, _, _, _, rfl⟩ := h; rfl
  current? _ _ _ := rfl
  carry h _ _ _ := ⟨rfl, h⟩
  stale _ _ := rfl
  count _ := rfl
  sweep h := ⟨rfl, h⟩
  remaining _ := rfl
  lapsed h _ _ := ⟨rfl, h⟩
  teardown h := h

end Vacant

namespace Recency

variable [DecidableEq K]

instance : UnawareEngine (Recency K V) K V where
  reading h := by obtain ⟨_, _, _, _, rfl⟩ := h; rfl
  current? h _ _ := by obtain ⟨_, _, _, _, rfl⟩ := h; rfl
  carry h _ _ _ := by obtain ⟨_, _, _, _, rfl⟩ := h; exact ⟨rfl, .aside _ _ _ _ _⟩
  stale _ _ := rfl
  count h := by obtain ⟨_, _, _, _, rfl⟩ := h; rfl
  sweep h := by obtain ⟨_, _, _, _, rfl⟩ := h; exact ⟨rfl, .aside _ _ _ _ _⟩
  remaining _ := rfl
  lapsed h _ _ := ⟨rfl, h⟩
  teardown h := by obtain ⟨_, _, _, _, rfl⟩ := h; exact .aside _ _ _ _ _

end Recency

namespace Timed

variable {w w' : Running (Timed K V) K V}

private theorem disarm_alike (h : w.Alike w') (slot : Slot V) :
    (disarm slot w).Alike (disarm slot w') := by
  obtain ⟨_, _, _, _, rfl⟩ := h
  rw [disarm_eq, disarm_eq]
  exact .aside _ _ _ _ _

variable [DecidableEq K]

private theorem arm_alike (h : w.Alike w') (key : K) (stamp : Nat) (delay : Duration) :
    (arm key stamp delay w).Alike (arm key stamp delay w') := by
  obtain ⟨_, _, _, _, rfl⟩ := h
  rw [arm, arm]
  dsimp only
  split
  · split
    · exact .aside _ _ _ _ _
    · exact .aside _ _ _ _ _
  · exact .aside _ _ _ _ _
  · exact .aside _ _ _ _ _

private theorem write_alike (h : w.Alike w') (now : Instant) (key : K) (value : V) :
    (write now key value w).Alike (write now key value w') := by
  obtain ⟨_, _, _, _, rfl⟩ := h
  rw [write, write]
  cases w.store.expiry with
  | none => exact .aside _ _ _ _ _
  | some e => exact arm_alike (.aside _ _ _ _ _) key _ _

private theorem takeOut_alike (h : w.Alike w') (now : Instant) (key : K) :
    ChangesAlike (takeOut now key w) (takeOut now key w') := by
  obtain ⟨_, _, _, _, rfl⟩ := h
  rw [takeOut, takeOut]
  cases w.store.find? key with
  | none => exact ⟨rfl, .aside _ _ _ _ _⟩
  | some slot => exact ⟨rfl, disarm_alike (.aside _ _ _ _ _) slot⟩

private theorem carryOut_alike (h : w.Alike w') (now : Instant) (key : K) (deed : Deed V) :
    ChangesAlike (carryOut now key deed w) (carryOut now key deed w') := by
  rw [carryOut.eq_def, carryOut.eq_def, h.store]
  split
  · exact ⟨rfl, h⟩
  · exact ⟨rfl, h⟩
  · next slot _ =>
    rw [readOut, readOut, h.store]
    obtain ⟨_, _, _, _, rfl⟩ := h
    split
    · exact ⟨rfl, .aside _ _ _ _ _⟩
    · exact ⟨rfl, .aside _ _ _ _ _⟩
  · exact ⟨rfl, h⟩
  · exact takeOut_alike h now key
  · exact takeOut_alike h now key
  · exact takeOut_alike h now key
  · next value =>
    rw [writeOver, writeOver, h.store]
    cases w.store.find? key with
    | none => exact ⟨rfl, write_alike h now key value⟩
    | some slot => exact ⟨rfl, disarm_alike (write_alike h now key value) slot⟩

private theorem comeDue_alike (h : w.Alike w') (key : K) (stamp : Nat) :
    ChangesAlike (comeDue key stamp w) (comeDue key stamp w') := by
  rw [comeDue, comeDue, h.store, h.agenda]
  split
  · split
    · split
      · split
        · obtain ⟨_, _, _, _, rfl⟩ := h
          exact ⟨rfl, .aside _ _ _ _ _⟩
        · exact ⟨rfl, arm_alike h key stamp _⟩
      · exact ⟨rfl, h⟩
    · exact ⟨rfl, h⟩
  · exact ⟨rfl, h⟩

omit [DecidableEq K] in
private theorem foldl_disarm_alike (h : w.Alike w') (entries : List (K × Slot V)) :
    (entries.foldl (fun w e ↦ disarm e.2 w) w).Alike
      (entries.foldl (fun w e ↦ disarm e.2 w) w') := by
  induction entries generalizing w w' with
  | nil => exact h
  | cons e rest ih => exact ih (disarm_alike h e.2)

omit [DecidableEq K] in
private theorem endSchedule_alike (h : w.Alike w') : (endSchedule w).Alike (endSchedule w') := by
  obtain ⟨_, _, _, _, rfl⟩ := h
  rw [endSchedule, endSchedule]
  by_cases howns : ownsSchedule w = true
  · rw [if_pos howns, if_pos (by exact howns)]
    exact .aside _ _ _ _ _
  · rw [if_neg howns, if_neg (by exact howns)]
    exact .aside _ _ _ _ _

private theorem teardown_alike (h : w.Alike w') :
    (Engine.teardown w).Alike (Engine.teardown w') := by
  have hdisarmed := foldl_disarm_alike h w.store.entries
  simp only [Engine.teardown, h.store]
  exact endSchedule_alike (hdisarmed.mapStore fun s ↦ { s with entries := [] })

instance : UnawareEngine (Timed K V) K V where
  reading h := by obtain ⟨_, _, _, _, rfl⟩ := h; rfl
  current? h _ _ := by obtain ⟨_, _, _, _, rfl⟩ := h; rfl
  carry h now key deed := carryOut_alike h now key deed
  stale h _ := by obtain ⟨_, _, _, _, rfl⟩ := h; rfl
  count h := by obtain ⟨_, _, _, _, rfl⟩ := h; rfl
  sweep h := ⟨rfl, h⟩
  remaining h := by obtain ⟨_, _, _, _, rfl⟩ := h; rfl
  lapsed h key stamp := comeDue_alike h key stamp
  teardown h := teardown_alike h

end Timed

end Caching
