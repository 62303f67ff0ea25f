import Caching.Engine.Recency
import Caching.Proofs.Engine.Keyed
import Caching.Proofs.Engine.Lawful

/-!
# Deeds of the recency engine

What each deed does to the entries, and who has to leave for it. The engine reads before it writes
in some operations and not in others; a touch that is followed by a write of the same key leaves no
trace, so all of them are deeds.
-/

namespace Caching.Recency

variable {K V : Type} [DecidableEq K]

/-- What a deed does to the entries, and the removals to be told. -/
def carry (s : Recency K V) (key : K) : Deed V → List (Removal K V) × Recency K V
  | .ignore => ([], s)
  | .abandon | .read | .keep => ([], s.touch key)
  | .store value =>
    ((s.push key value).1.toList.map fun e ↦
      ⟨e.1, e.2, if e.1 = key then .replaced else .size⟩, (s.push key value).2)
  | .remove => ((s.find? key).toList.map fun value ↦ ⟨key, value, .explicit⟩, (s.pop key).2)

/-- The store after a deed, and the removals. -/
def carryOut (key : K) (deed : Deed V) (w : Running (Recency K V) K V) :
    List (Removal K V) × Running (Recency K V) K V :=
  ((w.store.carry key deed).1, { w with store := (w.store.carry key deed).2 })

/-- Touching an absent key has no effect. -/
theorem touch_of_find?_eq_none {s : Recency K V} {key : K} (h : s.find? key = none) :
    s.touch key = s := by
  simp only [touch, h]

/-- Touching a key does not change what is found under it. -/
theorem find?_touch_self (s : Recency K V) (key : K) :
    (s.touch key).find? key = s.find? key := by
  cases h : s.find? key with
  | none => rw [touch_of_find?_eq_none h, h]
  | some value =>
    simp only [touch, h]
    exact Keyed.find?_moveToEnd_self key value s.entries

/-- A touch only changes the order. -/
theorem entries_touch_perm {s : Recency K V} (h : Keyed.Distinct s.entries) (key : K) :
    (s.touch key).entries.Perm s.entries := by
  rw [touch]
  cases hfind : s.find? key with
  | none => exact .refl _
  | some value =>
    exact (List.perm_append_singleton _ _).trans (Keyed.perm_cons_erase h hfind).symm

private theorem push_touch (s : Recency K V) (key : K) (value : V) :
    (s.touch key).push key value = s.push key value := by
  cases h : s.find? key with
  | none => rw [touch_of_find?_eq_none h]
  | some old =>
    have htouched := (find?_touch_self s key).trans h
    have herase : Keyed.erase key (s.touch key).entries = Keyed.erase key s.entries := by
      simp only [touch, h, Keyed.erase_moveToEnd]
    have hbound : (s.touch key).bound = s.bound := by simp only [touch, h]
    simp only [push, h, htouched, Keyed.moveToEnd, herase, hbound]

private theorem pop_touch (s : Recency K V) (key : K) : (s.touch key).pop key = s.pop key := by
  cases h : s.find? key with
  | none => rw [touch_of_find?_eq_none h]
  | some old =>
    have htouched := (find?_touch_self s key).trans h
    simp only [pop, h, htouched]
    simp only [touch, h, Keyed.erase_moveToEnd]

private theorem ne_of_push_of_find?_eq_none {s : Recency K V} {key : K} (h : s.find? key = none)
    (value : V) {e : K × V} (he : (s.push key value).1 = some e) : e.1 ≠ key := by
  intro hk
  apply Keyed.find?_eq_none_iff.mp h
  rw [← hk]
  refine List.mem_map.mpr ⟨e, ?_, rfl⟩
  simp only [push, h] at he
  split at he
  · next oldest rest _ hentries =>
    rw [hentries]
    exact (Option.some.inj he) ▸ List.mem_cons_self
  · cases he

section

variable (report : Report (Recency K V) K V) (key : K) (value : V)
  (w : Running (Recency K V) K V)

private theorem store_eq : store report key value w =
    (w.store.find? key, Running.settle report (carryOut key (.store value) w)) := by
  rcases hp : w.store.push key value with ⟨displaced, s⟩
  have hsettle : Running.settle report (carryOut key (.store value) w) =
      Running.tell report (displaced.toList.map fun e ↦
        ⟨e.1, e.2, if e.1 = key then .replaced else .size⟩) { w with store := s } := by
    simp only [Running.settle, carryOut, carry, hp]
  rw [hsettle, store, hp]
  cases hf : w.store.find? key with
  | some old =>
    have hd : displaced = some (key, old) := by
      simpa only [push, hf] using (congrArg Prod.fst hp).symm
    subst hd
    simp [settle]
  | none =>
    cases displaced with
    | none => rfl
    | some e =>
      have hne := ne_of_push_of_find?_eq_none hf value (congrArg Prod.fst hp)
      simp [settle, hne]

private theorem drop_eq :
    drop report key w = (w.store.find? key, Running.settle report (carryOut key .remove w)) := by
  cases hf : w.store.find? key <;> simp [drop, pop, Running.settle, carryOut, carry, hf]

end

instance : LawfulEngine (Recency K V) K V where
  current? _ key w := w.store.find? key
  carry _ key deed w := carryOut key deed w
  stale _ _ := []
  count w := w.store.entries.length
  sweep w := (w.store.entries.map fun e ↦ ⟨e.1, e.2, .explicit⟩,
    { w with store := { w.store with entries := [] } })
  remaining _ := []
  lapsed _ _ w := ([], w)
  carry_ignore _ _ _ := rfl
  get_eq _ _ _ _ := rfl
  put_eq report _ key value w := store_eq report key value w
  putIfAbsent_eq report _ key value w := by
    simp only [Engine.putIfAbsent, store_eq]
    cases w.store.find? key <;> rfl
  replace_eq report _ key value w := by
    simp only [Engine.replace, store_eq]
    cases hf : w.store.find? key with
    | some current => rfl
    | none =>
      simp only [Option.isSome_none, Bool.false_eq_true, if_false, Running.settle, carryOut, carry,
        touch_of_find?_eq_none hf, Running.tell_nil]
  alter_eq report _ key decide w := by
    simp only [Engine.alter]
    rcases decide (w.store.find? key) with abort | (_ | value | _)
    · rfl
    · rfl
    · simp only [store_eq, Running.settle, carryOut, carry, push_touch]
    · simp only [drop_eq, Running.settle, carryOut, carry, pop_touch, find?_touch_self]
  remove_eq report _ key w := drop_eq report key w
  containsKey_eq _ _ _ := rfl
  size_eq _ _ _ := rfl
  clear_eq report _ w := by
    rw [Running.settle, Running.tell, List.foldl_map]
    rfl
  lapse_eq _ _ _ _ := rfl
  upkeep_eq _ _ := rfl
  carry_frames _ _ _ w := ⟨_, w.agenda, w.log, rfl⟩
  sweep_frames w := ⟨_, w.agenda, w.log, rfl⟩
  lapsed_frames _ _ w := ⟨w.store, w.agenda, w.log, rfl⟩
  teardown_frames w := ⟨_, w.agenda, w.log, rfl⟩

end Caching.Recency
