import Caching.Proofs.Contract.Deed
import Caching.Proofs.Engine.Keyed
import Caching.Script
import Mathlib.Data.List.Dedup

/-!
# Rankings

A plain map together with the log of all touches. The ranking of its entries is read off the log:
each key stands where it was touched last. A new key that finds the ranking full costs the first
entry of it.
-/

namespace Caching

/-- A bounded map with the log of its touches, the latest one last. `told` are the removals that its
operations have caused, and `crowded` counts the stores of new keys that found no room. -/
structure Ranking (K V : Type) where
  bound : Option Nat
  provider : Provider
  phase : Phase
  contents : K → Option V
  touches : List K
  told : List (Removal K V)
  crowded : Nat

namespace Ranking

variable {K V : Type}

/-- A map without entries. -/
def empty (bound : Option Nat) (provider : Provider) : Ranking K V :=
  ⟨bound, provider, .active, fun _ ↦ none, [], [], 0⟩

/-- Without its entries. -/
def cleared (r : Ranking K V) : Ranking K V :=
  { r with contents := fun _ ↦ none }

variable [DecidableEq K]

/-- The entries in the order in which their keys were last touched. -/
def entries (r : Ranking K V) : List (K × V) :=
  r.touches.dedup.filterMap fun key ↦ (r.contents key).map fun value ↦ (key, value)

/-- There is no room for a new key. -/
def isFull (r : Ranking K V) : Bool :=
  r.bound.any fun bound ↦ decide (bound ≤ r.entries.length)

/-- A touch of a key. -/
def touch (r : Ranking K V) (key : K) : Ranking K V :=
  { r with touches := r.touches ++ [key] }

/-- A value under a key, which is touched. -/
def put (r : Ranking K V) (key : K) (value : V) : Ranking K V :=
  { r with
    contents := Function.update r.contents key (some value)
    touches := r.touches ++ [key] }

/-- Nothing under a key. -/
def take (r : Ranking K V) (key : K) : Ranking K V :=
  { r with contents := Function.update r.contents key none }

/-- What a deed does, and the removals that it causes. Every deed on a key that is there touches it,
unless the key was only looked for. -/
def carry (r : Ranking K V) (key : K) (deed : Deed V) : List (Removal K V) × Ranking K V :=
  match deed, r.contents key with
  | .ignore, _ => ([], r)
  | .abandon, some _ | .read, some _ | .keep, some _ => ([], r.touch key)
  | .abandon, none | .read, none | .keep, none => ([], r)
  | .store value, some old => ([⟨key, old, .replaced⟩], r.put key value)
  | .store value, none =>
    match r.isFull, r.entries with
    | true, oldest :: _ => ([⟨oldest.1, oldest.2, .size⟩], (r.take oldest.1).put key value)
    | _, _ => ([], r.put key value)
  | .remove, some old => ([⟨key, old, .explicit⟩], r.take key)
  | .remove, none => ([], r)

/-- What an operation does while the cache is open, and the removals that it causes. -/
def serve [DecidableEq V] (r : Ranking K V) (operation : Operation K V) :
    List (Removal K V) × Ranking K V :=
  match operation.key?, operation with
  | some key, operation => r.carry key (operation.deed (r.contents key))
  | none, .clear => (r.entries.map fun e ↦ ⟨e.1, e.2, .explicit⟩, r.cleared)
  | none, .close => ([], { r.cleared with phase := .closed })
  | none, _ => ([], r)

/-- The operation stores a new key, and finds no room for it. -/
def isCrowdedBy [DecidableEq V] (r : Ranking K V) (operation : Operation K V) : Bool :=
  operation.key?.any fun key ↦
    (operation.deed (r.contents key)).stored.isSome && (r.contents key).isNone && r.isFull

/-- Performs an operation. -/
def perform [DecidableEq V] (operation : Operation K V) (r : Ranking K V) :
    Reply V × Ranking K V :=
  match r.phase with
  | .active =>
    (operation.openReply r.provider r.contents r.entries.length,
      { (r.serve operation).2 with
        told := r.told ++ (r.serve operation).1
        crowded := r.crowded + (r.isCrowdedBy operation).toNat })
  | .closed => (operation.closedReply r.provider, r)

/-- Runs a script of operations. -/
def follow [DecidableEq V] {α : Type} (script : Script (Operation K V) (Reply V) α)
    (r : Ranking K V) : α × Ranking K V :=
  script.run perform r

/-- Only keys that were touched hold a value. -/
def IsLogged (r : Ranking K V) : Prop :=
  ∀ key, r.contents key ≠ none → key ∈ r.touches

private theorem dedup_append_singleton (touches : List K) (key : K) :
    (touches ++ [key]).dedup = (touches.dedup.filter fun k ↦ decide (k ≠ key)) ++ [key] := by
  induction touches with
  | nil => simp
  | cons k rest ih =>
    rw [List.cons_append]
    by_cases hk : k = key
    · subst hk
      rw [List.dedup_cons_of_mem (by simp), ih]
      by_cases hm : k ∈ rest
      · rw [List.dedup_cons_of_mem hm]
      · rw [List.dedup_cons_of_notMem hm]
        simp
    · by_cases hm : k ∈ rest
      · rw [List.dedup_cons_of_mem (by simp [hm]), ih, List.dedup_cons_of_mem hm]
      · rw [List.dedup_cons_of_notMem (by simp [hm, hk]), ih, List.dedup_cons_of_notMem hm]
        simp [hk]

private theorem keys_entries_sublist (r : Ranking K V) :
    (Keyed.keys r.entries).Sublist r.touches.dedup := by
  have hkeys : Keyed.keys r.entries =
      r.touches.dedup.filter fun key ↦ (r.contents key).isSome := by
    simp only [Keyed.keys, entries]
    induction r.touches.dedup with
    | nil => rfl
    | cons key rest ih => cases h : r.contents key <;> simp [h, ih]
  rw [hkeys]
  exact List.filter_sublist

/-- No key is ranked twice. -/
theorem distinct_entries (r : Ranking K V) : Keyed.Distinct r.entries :=
  (List.nodup_dedup r.touches).sublist r.keys_entries_sublist

/-- The ranking holds the contents, if all of them are in the log. -/
theorem find?_entries {r : Ranking K V} (h : r.IsLogged) (key : K) :
    Keyed.find? key r.entries = r.contents key := by
  apply Option.ext
  intro value
  rw [Keyed.find?_eq_some_iff r.distinct_entries]
  simp only [entries, List.mem_filterMap, List.mem_dedup, Option.map_eq_some_iff, Prod.mk.injEq]
  constructor
  · rintro ⟨k, _, v, hv, rfl, rfl⟩
    exact hv
  · intro hv
    exact ⟨key, h key (by simp [hv]), value, hv, rfl, rfl⟩

private theorem filterMap_filter_ne (contents : K → Option V) (key : K) (x : Option V)
    (log : List K) :
    ((log.filter fun k ↦ decide (k ≠ key)).filterMap fun k ↦
        (Function.update contents key x k).map fun value ↦ (k, value)) =
      Keyed.erase key (log.filterMap fun k ↦ (contents k).map fun value ↦ (k, value)) := by
  induction log with
  | nil => rfl
  | cons k rest ih =>
    by_cases hk : k = key
    · subst hk
      cases h : contents k <;> simp_all [Keyed.erase]
    · cases h : contents k <;> simp_all [Keyed.erase, Function.update]

/-- A value that is put ranks last. -/
theorem entries_put (r : Ranking K V) (key : K) (value : V) :
    (r.put key value).entries = Keyed.moveToEnd key value r.entries := by
  simp only [entries, put, dedup_append_singleton, List.filterMap_append, filterMap_filter_ne,
    Keyed.moveToEnd]
  simp

/-- A touched entry ranks last. -/
theorem entries_touch {r : Ranking K V} {key : K} {value : V} (h : r.contents key = some value) :
    (r.touch key).entries = Keyed.moveToEnd key value r.entries := by
  rw [← entries_put]
  have hcontents : Function.update r.contents key (some value) = r.contents :=
    Function.update_eq_self_iff.mpr h.symm
  simp only [touch, put, hcontents]

/-- A key that is taken is no longer ranked. -/
theorem entries_take (r : Ranking K V) (key : K) :
    (r.take key).entries = Keyed.erase key r.entries := by
  rw [entries, take, entries]
  induction r.touches.dedup with
  | nil => rfl
  | cons k rest ih =>
    by_cases hk : k = key
    · subst hk
      cases h : r.contents k <;> simp_all [Keyed.erase]
    · cases h : r.contents k <;> simp_all [Keyed.erase, Function.update]

/-- Nothing is ranked without contents. -/
theorem entries_cleared (r : Ranking K V) : r.cleared.entries = [] := by
  simp [entries, cleared]

omit [DecidableEq K] in
/-- Nothing has to be in the log of a map without entries. -/
theorem isLogged_cleared (r : Ranking K V) : r.cleared.IsLogged :=
  fun _ hk ↦ absurd rfl hk

omit [DecidableEq K] in
/-- Touching keeps the contents in the log. -/
theorem IsLogged.touch {r : Ranking K V} (h : r.IsLogged) (key : K) : (r.touch key).IsLogged :=
  fun k hk ↦ List.mem_append_left _ (h k hk)

/-- Putting keeps the contents in the log. -/
theorem IsLogged.put {r : Ranking K V} (h : r.IsLogged) (key : K) (value : V) :
    (r.put key value).IsLogged := by
  intro k hk
  by_cases he : k = key
  · simp [Ranking.put, he]
  · simp only [Ranking.put, Function.update_of_ne he] at hk ⊢
    exact List.mem_append_left _ (h k hk)

/-- Taking keeps the contents in the log. -/
theorem IsLogged.take {r : Ranking K V} (h : r.IsLogged) (key : K) : (r.take key).IsLogged := by
  intro k hk
  by_cases he : k = key
  · simp [Ranking.take, he] at hk
  · simp only [Ranking.take, Function.update_of_ne he] at hk
    exact h k hk

/-- Every deed keeps the contents in the log. -/
theorem IsLogged.carry {r : Ranking K V} (h : r.IsLogged) (key : K) (deed : Deed V) :
    (r.carry key deed).2.IsLogged := by
  simp only [Ranking.carry]
  split
  · exact h
  · exact h.touch key
  · exact h.touch key
  · exact h.touch key
  · exact h
  · exact h
  · exact h
  · exact h.put key _
  · split
    · exact (h.take _).put key _
    · exact h.put key _
  · exact h.take key
  · exact h

/-- A deed changes the contents and the log of touches only. -/
theorem carry_eq (r : Ranking K V) (key : K) (deed : Deed V) :
    ∃ contents touches, (r.carry key deed).2 = { r with contents, touches } := by
  simp only [carry]
  split
  case h_9 =>
    split
    · exact ⟨_, _, rfl⟩
    · exact ⟨_, _, rfl⟩
  all_goals exact ⟨_, _, rfl⟩

end Ranking

end Caching
