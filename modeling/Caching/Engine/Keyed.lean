/-!
# Keyed lists

Lists of pairs in which every key occurs once at most, in an order that means something to their
owner.
-/

namespace Caching.Keyed

variable {K A : Type} [DecidableEq K]

/-- What stands under the key. -/
def find? (key : K) : List (K × A) → Option A
  | [] => none
  | e :: rest => if e.1 = key then some e.2 else find? key rest

/-- The list without the key. -/
def erase (key : K) (entries : List (K × A)) : List (K × A) :=
  entries.filter fun e ↦ decide (e.1 ≠ key)

/-- The list with the key at its end. -/
def moveToEnd (key : K) (a : A) (entries : List (K × A)) : List (K × A) :=
  erase key entries ++ [(key, a)]

/-- The list with something else under the key, which keeps its place or else comes last. -/
def insert (key : K) (a : A) : List (K × A) → List (K × A)
  | [] => [(key, a)]
  | e :: rest => if e.1 = key then (key, a) :: rest else e :: insert key a rest

/-- Nothing is under a key that was erased. -/
theorem find?_erase_self (key : K) (entries : List (K × A)) :
    find? key (erase key entries) = none := by
  induction entries with
  | nil => rfl
  | cons e rest ih => by_cases h : e.1 = key <;> simp_all [find?, erase]

/-- Erasing a key leaves the others as they are. -/
theorem find?_erase_of_ne {key other : K} (h : other ≠ key) (entries : List (K × A)) :
    find? other (erase key entries) = find? other entries := by
  induction entries with
  | nil => rfl
  | cons e rest ih =>
    by_cases hk : e.1 = key
    · have hne : e.1 ≠ other := fun ho ↦ h (ho.symm.trans hk)
      simp_all [find?, erase]
    · by_cases ho : e.1 = other <;> simp_all [find?, erase]

/-- What was inserted is found. -/
theorem find?_insert_self (key : K) (a : A) (entries : List (K × A)) :
    find? key (insert key a entries) = some a := by
  induction entries with
  | nil => simp [find?, insert]
  | cons e rest ih => by_cases h : e.1 = key <;> simp_all [find?, insert]

/-- Inserting under a key leaves the others as they are. -/
theorem find?_insert_of_ne {key other : K} (h : other ≠ key) (a : A) (entries : List (K × A)) :
    find? other (insert key a entries) = find? other entries := by
  induction entries with
  | nil => simp [find?, insert, h.symm]
  | cons e rest ih =>
    by_cases hk : e.1 = key
    · have hne : e.1 ≠ other := fun ho ↦ h (ho.symm.trans hk)
      simp_all [find?, insert]
    · by_cases ho : e.1 = other <;> simp_all [find?, insert]

end Caching.Keyed
