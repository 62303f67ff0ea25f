import Caching.Engine.Vacant
import Caching.Proofs.Engine.Lawful

/-!
# Deeds of the vacant engine

A store is refused, and the listener is told so. Nothing else has an effect.
-/

namespace Caching.Vacant

variable {K V : Type}

/-- The entry of a store is turned away. -/
def carryOut (key : K) (deed : Deed V) (w : Running Vacant K V) :
    List (Removal K V) × Running Vacant K V :=
  (deed.stored.toList.map fun value ↦ ⟨key, value, .size⟩, w)

instance : LawfulEngine Vacant K V where
  current? _ _ _ := none
  carry _ key deed w := carryOut key deed w
  stale _ _ := []
  count _ := 0
  sweep w := ([], w)
  remaining _ := []
  lapsed _ _ w := ([], w)
  carry_ignore _ _ _ := rfl
  get_eq _ _ _ _ := rfl
  put_eq _ _ _ _ _ := rfl
  putIfAbsent_eq _ _ _ _ _ := rfl
  replace_eq _ _ _ _ _ := rfl
  alter_eq report _ key decide w := by
    simp only [Engine.alter]
    rcases decide none with abort | (_ | value | _) <;> rfl
  remove_eq _ _ _ _ := rfl
  containsKey_eq _ _ _ := rfl
  size_eq _ _ _ := rfl
  clear_eq _ _ _ := rfl
  lapse_eq _ _ _ _ := rfl
  upkeep_eq _ _ := rfl
  carry_frames _ _ _ w := ⟨w.store, w.agenda, w.log, rfl⟩
  sweep_frames w := ⟨w.store, w.agenda, w.log, rfl⟩
  lapsed_frames _ _ w := ⟨w.store, w.agenda, w.log, rfl⟩
  teardown_frames w := ⟨w.store, w.agenda, w.log, rfl⟩

end Caching.Vacant
