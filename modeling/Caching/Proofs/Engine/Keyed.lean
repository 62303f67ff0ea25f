import Caching.Engine.Keyed
import Mathlib.Data.List.Nodup
import Mathlib.Data.List.Perm.Basic

/-!
# Keyed lists with distinct keys

While no key occurs twice, looking a key up is membership, and replacing or erasing it changes
exactly one pair. The order of the pairs then matters to their owner only: up to a permutation,
inserting is erasing and putting in front.
-/

namespace Caching.Keyed

variable {K A B : Type}

/-- The keys of a list. -/
def keys (entries : List (K × A)) : List K :=
  entries.map Prod.fst

/-- No key occurs twice. -/
def Distinct (entries : List (K × A)) : Prop :=
  (keys entries).Nodup

/-- The empty list has no key twice. -/
theorem distinct_nil : Distinct ([] : List (K × A)) :=
  List.nodup_nil

/-- A pair in front has to bring a new key. -/
theorem distinct_cons {e : K × A} {entries : List (K × A)} :
    Distinct (e :: entries) ↔ e.1 ∉ keys entries ∧ Distinct entries := by
  simp only [Distinct, keys, List.map_cons, List.nodup_cons]

/-- Order does not matter to distinctness. -/
theorem Distinct.perm {xs ys : List (K × A)} (h : xs.Perm ys) (hx : Distinct xs) : Distinct ys :=
  (h.map Prod.fst).nodup_iff.mp hx

/-- What the pairs hold does not matter to distinctness. -/
theorem distinct_of_keys_eq {xs : List (K × A)} {ys : List (K × B)} (h : keys xs = keys ys)
    (hx : Distinct xs) : Distinct ys := by
  rw [Distinct, ← h]
  exact hx

/-- Leaving pairs out keeps keys distinct. -/
theorem Distinct.filter {xs : List (K × A)} (p : K × A → Bool) (hx : Distinct xs) :
    Distinct (xs.filter p) :=
  List.Nodup.sublist (List.Sublist.map Prod.fst List.filter_sublist) hx

/-- The pairs with something else in place of what they hold. -/
def mapHeld (f : A → B) (entries : List (K × A)) : List (K × B) :=
  entries.map fun e ↦ (e.1, f e.2)

/-- The keys stay when what the pairs hold is replaced. -/
theorem keys_mapHeld (f : A → B) (entries : List (K × A)) :
    keys (mapHeld f entries) = keys entries := by
  rw [keys, mapHeld, List.map_map]
  rfl

variable [DecidableEq K]

/-- Nothing is found exactly when the key does not occur. -/
theorem find?_eq_none_iff {key : K} {entries : List (K × A)} :
    find? key entries = none ↔ key ∉ keys entries := by
  induction entries with
  | nil => simp [find?, keys]
  | cons e rest ih =>
    by_cases h : e.1 = key
    · simp [find?, keys, h]
    · simpa [find?, keys, h, Ne.symm h] using ih

/-- What is found is in the list. -/
theorem mem_of_find? {key : K} {a : A} {entries : List (K × A)}
    (h : find? key entries = some a) : (key, a) ∈ entries := by
  induction entries with
  | nil => simp [find?] at h
  | cons e rest ih =>
    by_cases hk : e.1 = key
    · rw [find?, if_pos hk, Option.some.injEq] at h
      subst hk h
      exact List.mem_cons_self
    · rw [find?, if_neg hk] at h
      exact List.mem_cons_of_mem e (ih h)

/-- With distinct keys, looking a key up is membership. -/
theorem find?_eq_some_iff {key : K} {a : A} {entries : List (K × A)} (hd : Distinct entries) :
    find? key entries = some a ↔ (key, a) ∈ entries := by
  constructor
  · exact mem_of_find?
  · intro hm
    induction entries with
    | nil => simp at hm
    | cons e rest ih =>
      obtain ⟨hnot, hrest⟩ := distinct_cons.mp hd
      rcases List.mem_cons.mp hm with rfl | hm
      · simp [find?]
      · have hk : e.1 ≠ key := by
          intro he
          exact hnot (he ▸ List.mem_map.mpr ⟨(key, a), hm, rfl⟩)
        rw [find?, if_neg hk]
        exact ih hrest hm

/-- A permutation does not change what is found. -/
theorem find?_perm {xs ys : List (K × A)} (h : xs.Perm ys) (hx : Distinct xs) (key : K) :
    find? key xs = find? key ys := by
  have hy := hx.perm h
  apply Option.ext
  intro a
  rw [find?_eq_some_iff hx, find?_eq_some_iff hy, h.mem_iff]

/-- Under a key stands what it holds in place of what it held. -/
theorem find?_mapHeld (f : A → B) (key : K) (entries : List (K × A)) :
    find? key (mapHeld f entries) = (find? key entries).map f := by
  induction entries with
  | nil => rfl
  | cons e rest ih =>
    rw [mapHeld, List.map_cons, find?, find?]
    split
    · rfl
    · exact ih

/-- Of the chosen pairs, the one under a key is the one there was, if it is chosen. -/
theorem find?_filter {entries : List (K × A)} (hd : Distinct entries) (p : K × A → Bool)
    (key : K) : find? key (entries.filter p) = (find? key entries).filter fun a ↦ p (key, a) := by
  apply Option.ext
  intro a
  rw [find?_eq_some_iff (hd.filter p), List.mem_filter, ← find?_eq_some_iff hd,
    Option.filter_eq_some_iff]

/-- A pair is left by erasing unless it has the key. -/
theorem mem_erase_iff {key : K} {e : K × A} {entries : List (K × A)} :
    e ∈ erase key entries ↔ e ∈ entries ∧ e.1 ≠ key := by
  simp [erase]

/-- Erasing a key that does not occur changes nothing. -/
theorem erase_of_find?_eq_none {key : K} {entries : List (K × A)}
    (h : find? key entries = none) : erase key entries = entries := by
  apply List.filter_eq_self.mpr
  intro e he
  have hk : e.1 ≠ key := by
    intro hk
    exact find?_eq_none_iff.mp h (hk ▸ List.mem_map.mpr ⟨e, he, rfl⟩)
  simpa using hk

/-- Erasing a pair in front of a list without its key. -/
theorem erase_cons_self {key : K} (a : A) (entries : List (K × A)) :
    erase key ((key, a) :: entries) = erase key entries := by
  simp [erase]

/-- Erasing a key keeps keys distinct. -/
theorem Distinct.erase {entries : List (K × A)} (key : K) (hd : Distinct entries) :
    Distinct (erase key entries) :=
  hd.filter _

private theorem notMem_keys_erase (key : K) (entries : List (K × A)) :
    key ∉ keys (erase key entries) :=
  find?_eq_none_iff.mp (find?_erase_self key entries)

/-- Erasing commutes with every selection of pairs. -/
theorem erase_filter (key : K) (p : K × A → Bool) (entries : List (K × A)) :
    erase key (entries.filter p) = (erase key entries).filter p := by
  simp only [erase, List.filter_filter, Bool.and_comm]

/-- Erasing commutes with replacing what the pairs hold. -/
theorem mapHeld_erase (f : A → B) (key : K) (entries : List (K × A)) :
    mapHeld f (erase key entries) = erase key (mapHeld f entries) := by
  rw [mapHeld, erase, erase, mapHeld, List.filter_map]
  rfl

/-- Inserting commutes with replacing what the pairs hold. -/
theorem mapHeld_insert (f : A → B) (key : K) (a : A) (entries : List (K × A)) :
    mapHeld f (insert key a entries) = insert key (f a) (mapHeld f entries) := by
  induction entries with
  | nil => rfl
  | cons e rest ih =>
    have hcons : mapHeld f (e :: rest) = (e.1, f e.2) :: mapHeld f rest := rfl
    rw [hcons, insert, insert]
    split
    · rfl
    · exact congrArg _ ih

/-- Inserting what stands there already changes nothing. -/
theorem insert_of_find? {key : K} {a : A} {entries : List (K × A)}
    (h : find? key entries = some a) : insert key a entries = entries := by
  induction entries with
  | nil => cases h
  | cons e rest ih =>
    rw [find?] at h
    rw [insert]
    split
    · next hk =>
      rw [if_pos hk, Option.some.injEq] at h
      rw [← hk, ← h]
    · next hk =>
      rw [if_neg hk] at h
      rw [ih h]

/-- A list is, up to order, the pair under a key and the rest. -/
theorem perm_cons_erase {key : K} {a : A} {entries : List (K × A)} (hd : Distinct entries)
    (h : find? key entries = some a) : entries.Perm ((key, a) :: erase key entries) := by
  induction entries with
  | nil => simp [find?] at h
  | cons e rest ih =>
    obtain ⟨hnot, hrest⟩ := distinct_cons.mp hd
    by_cases hk : e.1 = key
    · rw [find?, if_pos hk, Option.some.injEq] at h
      subst hk h
      rw [erase_cons_self, erase_of_find?_eq_none (find?_eq_none_iff.mpr hnot)]
    · rw [find?, if_neg hk] at h
      have herase : erase key (e :: rest) = e :: erase key rest := by simp [erase, hk]
      rw [herase]
      exact ((ih hrest h).cons e).trans (List.Perm.swap _ _ _)

/-- Erasing makes no list longer. -/
theorem length_erase_le (key : K) (entries : List (K × A)) :
    (erase key entries).length ≤ entries.length :=
  List.length_filter_le _ entries

/-- Erasing a key that occurs takes one pair. -/
theorem length_erase_of_find? {key : K} {a : A} {entries : List (K × A)} (hd : Distinct entries)
    (h : find? key entries = some a) : (erase key entries).length + 1 = entries.length := by
  rw [(perm_cons_erase hd h).length_eq, List.length_cons]

/-- Inserting is, up to order, erasing the key and putting the new pair in front. -/
theorem insert_perm {entries : List (K × A)} (hd : Distinct entries) (key : K) (a : A) :
    (insert key a entries).Perm ((key, a) :: erase key entries) := by
  induction entries with
  | nil => simp [insert, erase]
  | cons e rest ih =>
    obtain ⟨hnot, hrest⟩ := distinct_cons.mp hd
    by_cases hk : e.1 = key
    · subst hk
      have hcons : erase e.1 (e :: rest) = rest :=
        (erase_cons_self e.2 rest).trans
          (erase_of_find?_eq_none (find?_eq_none_iff.mpr hnot))
      rw [hcons, insert, if_pos rfl]
    · have herase : erase key (e :: rest) = e :: erase key rest := by simp [erase, hk]
      rw [insert, if_neg hk, herase]
      exact ((ih hrest).cons e).trans (List.Perm.swap _ _ _)

/-- What was inserted last counts. -/
theorem insert_insert (key : K) (a b : A) (entries : List (K × A)) :
    insert key b (insert key a entries) = insert key b entries := by
  induction entries with
  | nil => simp [insert]
  | cons e rest ih =>
    by_cases hk : e.1 = key
    · rw [insert, insert, if_pos hk, if_pos hk, insert, if_pos rfl]
    · rw [insert, insert, if_neg hk, if_neg hk, insert, if_neg hk, ih]

/-- Inserting keeps keys distinct. -/
theorem Distinct.insert {entries : List (K × A)} (hd : Distinct entries) (key : K) (a : A) :
    Distinct (insert key a entries) := by
  refine Distinct.perm (insert_perm hd key a).symm ?_
  exact distinct_cons.mpr ⟨notMem_keys_erase key entries, hd.erase key⟩

/-- A key that was moved to the end is erased like any other. -/
theorem erase_moveToEnd (key : K) (a : A) (entries : List (K × A)) :
    erase key (moveToEnd key a entries) = erase key entries := by
  simp [erase, moveToEnd, List.filter_append, List.filter_filter]

/-- What was moved to the end is found. -/
theorem find?_moveToEnd_self (key : K) (a : A) (entries : List (K × A)) :
    find? key (moveToEnd key a entries) = some a := by
  have happend (xs : List (K × A)) (h : find? key xs = none) :
      find? key (xs ++ [(key, a)]) = some a := by
    induction xs with
    | nil => simp [find?]
    | cons e rest ih =>
      by_cases hk : e.1 = key
      · simp [find?, hk] at h
      · rw [find?, if_neg hk] at h
        rw [List.cons_append, find?, if_neg hk]
        exact ih h
  exact happend _ (find?_erase_self key entries)

/-- What is in a list after an insertion was inserted or was there before. -/
theorem mem_of_mem_insert {key : K} {a : A} {e : K × A} {entries : List (K × A)}
    (h : e ∈ insert key a entries) : e = (key, a) ∨ e ∈ entries := by
  induction entries with
  | nil => exact .inl (List.mem_singleton.mp h)
  | cons first rest ih =>
    rw [insert] at h
    split at h
    · exact (List.mem_cons.mp h).imp_right (List.mem_cons_of_mem first)
    · rcases List.mem_cons.mp h with rfl | h
      · exact .inr List.mem_cons_self
      · exact (ih h).imp_right (List.mem_cons_of_mem first)

private theorem perm_of_find?_eq {xs ys : List (K × A)} (hx : Distinct xs) (hy : Distinct ys)
    (h : ∀ key, find? key xs = find? key ys) : xs.Perm ys := by
  apply (List.perm_ext_iff_of_nodup (List.Nodup.of_map _ hx) (List.Nodup.of_map _ hy)).mpr
  intro e
  rw [← find?_eq_some_iff hx, ← find?_eq_some_iff hy, h e.1]

/-- Order does not matter to inserting. -/
theorem insert_congr_perm {xs ys : List (K × A)} (hx : Distinct xs) (h : xs.Perm ys) (key : K)
    (a : A) : (insert key a xs).Perm (insert key a ys) := by
  have hy := hx.perm h
  apply perm_of_find?_eq (hx.insert key a) (hy.insert key a)
  intro other
  by_cases hother : other = key
  · rw [hother, find?_insert_self, find?_insert_self]
  · rw [find?_insert_of_ne hother, find?_insert_of_ne hother, find?_perm h hx]

/-- Order does not matter to erasing. -/
theorem erase_congr_perm {xs ys : List (K × A)} (h : xs.Perm ys) (key : K) :
    (erase key xs).Perm (erase key ys) :=
  h.filter _

/-- Two keys may be inserted in either order. -/
theorem insert_insert_comm {key other : K} (hne : key ≠ other) {xs : List (K × A)}
    (hx : Distinct xs) (a b : A) :
    (insert other b (insert key a xs)).Perm (insert key a (insert other b xs)) := by
  apply perm_of_find?_eq ((hx.insert key a).insert other b) ((hx.insert other b).insert key a)
  intro k
  by_cases hk : k = key
  · subst hk
    rw [find?_insert_of_ne hne, find?_insert_self, find?_insert_self]
  · by_cases ho : k = other
    · subst ho
      rw [find?_insert_self, find?_insert_of_ne hk, find?_insert_self]
    · rw [find?_insert_of_ne ho, find?_insert_of_ne hk, find?_insert_of_ne hk,
        find?_insert_of_ne ho]

end Caching.Keyed
