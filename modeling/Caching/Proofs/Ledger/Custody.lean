import Caching.Proofs.Ledger.Transfer
import Caching.Proofs.Recency.Deeds
import Caching.Proofs.Timed.Deeds
import Caching.Proofs.Vacant.Deeds

/-!
# Custody

Engines that report every departure at once: whatever one of them does is a transfer. The vacant
engine turns every store away, the recency engine lets entries go for want of space, and the timed
engine lets go of lapsed entries whenever it meets them.
-/

namespace Caching

/-- A lawful engine all of whose changes are transfers of what it holds. -/
class Custodian (σ K V : Type) [Engine σ K V] [LawfulEngine σ K V] where
  /-- The entries in the store, lapsed or not. -/
  held : σ → List (Holding K V)
  /-- The number of entries for which there is space. -/
  space : σ → Option Nat
  transfer_carry : ∀ (now : Instant) (asked : Bool) (key : K) (deed : Deed V) (w : Running σ K V),
    (deed = .remove → asked = true) → Holding.Distinct (held w.store) →
    Transfer (space w.store) now asked (held w.store) (deed.storedUnder key)
      (LawfulEngine.carry now key deed w).1 (held (LawfulEngine.carry now key deed w).2.store)
  transfer_sweep : ∀ (now : Instant) (w : Running σ K V),
    Transfer (space w.store) now true (held w.store) [] (LawfulEngine.sweep w).1
      (held (LawfulEngine.sweep w).2.store)
  /-- A duty looks at the clock of the agenda. -/
  transfer_lapsed : ∀ (now : Instant) (key : K) (stamp : Nat) (w : Running σ K V),
    (∀ reading, w.agenda.clock.now = .ok reading → reading = now) →
    Holding.Distinct (held w.store) →
    Transfer (space w.store) now false (held w.store) [] (LawfulEngine.lapsed key stamp w).1
      (held (LawfulEngine.lapsed key stamp w).2.store)
  held_teardown : ∀ w : Running σ K V, held (Engine.teardown w).store = []

namespace Transfer

variable {K V : Type} {bound : Option Nat} {now : Instant} {asked : Bool}

/-- Nothing happens. -/
theorem refl (holdings : List (Holding K V)) : Transfer bound now asked holdings [] [] holdings :=
  .kept (List.Perm.refl _)

end Transfer

instance {K V : Type} : Custodian Vacant K V where
  held _ := []
  space _ := some 0
  transfer_carry now asked key deed w _ _ := by
    cases deed with
    | store value => exact .refused (key, value) rfl
    | _ => exact .refl []
  transfer_sweep _ _ := .refl []
  transfer_lapsed _ _ _ _ _ _ := .refl []
  held_teardown _ := rfl

namespace Recency

variable {K V : Type}

/-- The entries in the store; none of them ever lapses. -/
def held (s : Recency K V) : List (Holding K V) :=
  s.entries.map fun e ↦ ⟨e.1, e.2, none⟩

/-- What is held under which keys. -/
theorem keys_held (s : Recency K V) : s.held.map Holding.key = Keyed.keys s.entries := by
  rw [held, List.map_map]
  rfl

private theorem pairs_held (s : Recency K V) : s.held.map Holding.pair = s.entries := by
  rw [held, List.map_map]
  exact List.map_id _

variable [DecidableEq K]

private theorem transfer_touch (now : Instant) (asked : Bool) (key : K) {s : Recency K V}
    (hkeys : Keyed.Distinct s.entries) :
    Transfer s.bound now asked s.held [] [] (s.touch key).held := by
  cases h : s.find? key with
  | none =>
    rw [touch_of_find?_eq_none h]
    exact .refl _
  | some value =>
    refine .kept ?_
    rw [pairs_held, pairs_held]
    simp only [touch, h]
    exact (Keyed.perm_cons_erase hkeys h).trans (List.perm_append_singleton _ _).symm

private theorem transfer_store (now : Instant) (asked : Bool) {key : K} {s : Recency K V}
    (h : s.find? key = none) (value : V) :
    Transfer s.bound now asked s.held [(key, value)] (s.carry key (.store value)).1
      (s.carry key (.store value)).2.held := by
  have hlast (entries : List (K × V)) :
      (held ⟨s.bound, entries ++ [(key, value)]⟩).Perm
        (⟨key, value, none⟩ :: held ⟨s.bound, entries⟩) := by
    rw [held, held, List.map_append]
    exact List.perm_append_singleton _ _
  have hnew : key ∉ s.held.map Holding.key := by
    rw [keys_held]
    exact Keyed.find?_eq_none_iff.mp h
  simp only [carry, push, h]
  split
  · next oldest rest hisFull hentries =>
    have hbefore : s.held.Perm (⟨oldest.1, oldest.2, none⟩ :: held ⟨s.bound, rest⟩) := by
      rw [held, hentries]
      exact List.Perm.refl _
    have hne : oldest.1 ≠ key := by
      intro hk
      rw [keys_held, hentries] at hnew
      exact hnew (hk ▸ List.mem_cons_self)
    have hfull : Holding.IsFull s.bound s.held := by
      rw [isFull] at hisFull
      split at hisFull
      · next bound hbound =>
        rw [Holding.IsFull, held, List.length_map]
        exact ⟨bound, hbound, of_decide_eq_true hisFull⟩
      · cases hisFull
    simp only [Option.toList_some, List.map_cons, List.map_nil, if_neg hne]
    exact .displaced ⟨oldest.1, oldest.2, none⟩ ⟨key, value, none⟩ hfull hnew hbefore (hlast _)
  · exact .added ⟨key, value, none⟩ hnew (hlast _)

private theorem transfer_carry (now : Instant) (asked : Bool) (key : K) (deed : Deed V)
    (s : Recency K V) (hasked : deed = .remove → asked = true) (hd : Holding.Distinct s.held) :
    Transfer s.bound now asked s.held (deed.storedUnder key) (s.carry key deed).1
      (s.carry key deed).2.held := by
  have hkeys : Keyed.Distinct s.entries := by
    rw [Holding.Distinct, keys_held] at hd
    exact hd
  cases deed with
  | ignore => exact .refl _
  | abandon | read | keep => exact transfer_touch now asked key hkeys
  | remove =>
    cases h : s.find? key with
    | none =>
      have hsame : (s.pop key).2 = s := by
        simp only [pop, Keyed.erase_of_find?_eq_none h]
      simp only [carry, h, hsame, Option.toList_none, List.map_nil]
      exact .refl _
    | some old =>
      have hbefore : s.held.Perm (⟨key, old, none⟩ :: (s.pop key).2.held) :=
        (Keyed.perm_cons_erase hkeys h).map _
      simp only [carry, h, Option.toList_some, List.map_cons, List.map_nil]
      exact .taken _ (.inr (hasked rfl)) hbefore
  | store value =>
    cases h : s.find? key with
    | some old =>
      have hbefore : s.held.Perm (⟨key, old, none⟩ :: held ⟨s.bound, Keyed.erase key s.entries⟩) :=
        (Keyed.perm_cons_erase hkeys h).map _
      have hafter : (held ⟨s.bound, Keyed.moveToEnd key value s.entries⟩).Perm
          (⟨key, value, none⟩ :: held ⟨s.bound, Keyed.erase key s.entries⟩) :=
        (List.perm_append_singleton _ _).map _
      simp only [carry, push, h, Option.toList_some, List.map_cons, List.map_nil, if_true]
      exact .replaced ⟨key, old, none⟩ ⟨key, value, none⟩ rfl hbefore hafter
    | none => exact transfer_store now asked h value

instance : Custodian (Recency K V) K V where
  held := held
  space s := s.bound
  transfer_carry now asked key deed w hasked hd :=
    transfer_carry now asked key deed w.store hasked hd
  transfer_sweep now w := by
    have hswept : Transfer w.store.bound now true w.store.held [] _ [] := .swept rfl
    rw [held, List.map_map] at hswept
    exact hswept
  transfer_lapsed _ _ _ _ _ _ := .refl _
  held_teardown _ := rfl

end Recency

namespace Timed

variable {K V : Type}

/-- A slot under its key, as a holding. -/
def holding (key : K) (slot : Slot V) : Holding K V :=
  ⟨key, slot.value, slot.deadline⟩

/-- The entries in the store with their deadlines. -/
def held (s : Timed K V) : List (Holding K V) :=
  s.entries.map fun e ↦ holding e.1 e.2

/-- What is held under which keys. -/
theorem keys_held (s : Timed K V) : s.held.map Holding.key = Keyed.keys s.entries := by
  rw [held, List.map_map]
  rfl

/-- A holding has lapsed when its slot has. -/
theorem hasLapsed_holding (key : K) (slot : Slot V) (now : Instant) :
    (holding key slot).hasLapsed now = slot.isLapsed now := by
  rw [Slot.isLapsed, Holding.hasLapsed, holding]
  cases slot.deadline <;> rfl

private theorem leaves_holding (key : K) (slot : Slot V) (now : Instant) (cause : RemovalCause) :
    (holding key slot).leaves now cause = removal now key cause slot := by
  rw [Holding.leaves, hasLapsed_holding]
  rfl

variable [DecidableEq K] {s : Timed K V} {key : K} {slot : Slot V} {now : Instant} {asked : Bool}

private theorem held_perm (hd : Keyed.Distinct s.entries) (h : s.find? key = some slot) :
    s.held.Perm (holding key slot :: (s.erase key).held) :=
  (Keyed.perm_cons_erase hd h).map _

private theorem held_insert (hd : Keyed.Distinct s.entries) (key : K) (slot : Slot V)
    (nextStamp : Nat) : (held ⟨s.expiry, Keyed.insert key slot s.entries, nextStamp⟩).Perm
      (holding key slot :: (s.erase key).held) :=
  (Keyed.insert_perm hd key slot).map _

private theorem transfer_set (hd : Keyed.Distinct s.entries) (h : s.find? key = some slot)
    {slot' : Slot V} (hvalue : slot'.value = slot.value) :
    Transfer none now asked s.held [] [] (s.set key slot').held := by
  refine .kept (((held_perm hd h).map Holding.pair).trans ?_)
  have hset := (held_insert hd key slot' s.nextStamp).map Holding.pair
  rw [List.map_cons, holding, Holding.pair, hvalue] at hset
  exact hset.symm

private theorem transfer_arm {w : Running (Timed K V) K V} (hd : Keyed.Distinct w.store.entries)
    (stamp : Nat) (delay : Duration) :
    Transfer none now asked w.store.held [] [] (arm key stamp delay w).store.held := by
  obtain hsame | ⟨slot, timer, hfind, harmed⟩ := store_arm key w stamp delay
  · rw [hsame]
    exact .refl _
  · rw [harmed]
    exact transfer_set hd hfind rfl

private theorem transfer_takeOut {w : Running (Timed K V) K V} (hd : Keyed.Distinct w.store.entries)
    (hreason : w.store.live? now key = none ∨ asked = true) :
    Transfer none now asked w.store.held [] (takeOut now key w).1
      (takeOut now key w).2.store.held := by
  cases h : w.store.find? key with
  | none =>
    simp only [takeOut, h]
    exact .refl _
  | some slot =>
    have hlapsed : (holding key slot).hasLapsed now = true ∨ asked = true := by
      rw [hasLapsed_holding]
      rcases hreason with hlive | hasked
      · rw [live?_of_find? h] at hlive
        cases hl : slot.isLapsed now with
        | true => exact .inl rfl
        | false => simp [hl] at hlive
      · exact .inr hasked
    simp only [takeOut, h, store_disarm, ← leaves_holding]
    exact .taken _ hlapsed (held_perm hd h)

private theorem transfer_writeOver {w : Running (Timed K V) K V}
    (hd : Keyed.Distinct w.store.entries) (value : V) :
    Transfer none now asked w.store.held [(key, value)] (writeOver now key value w).1
      (writeOver now key value w).2.store.held := by
  obtain ⟨timer, hwrite⟩ := store_write key w now value
  have hafter : (write now key value w).store.held.Perm
      (⟨key, value, w.store.deadlineFrom now⟩ :: (w.store.erase key).held) := by
    rw [hwrite]
    exact held_insert hd key _ _
  cases h : w.store.find? key with
  | none =>
    have hnew : key ∉ w.store.held.map Holding.key := by
      rw [keys_held]
      exact Keyed.find?_eq_none_iff.mp h
    have hrest : w.store.erase key = w.store := by
      rw [erase, Keyed.erase_of_find?_eq_none h]
    rw [hrest] at hafter
    simp only [writeOver, h]
    exact .added ⟨key, value, _⟩ hnew hafter
  | some slot =>
    simp only [writeOver, h, store_disarm, ← leaves_holding]
    exact .replaced (holding key slot) ⟨key, value, _⟩ rfl (held_perm hd h) hafter

private theorem transfer_carry {w : Running (Timed K V) K V} {deed : Deed V}
    (hasked : deed = .remove → asked = true) (hd : Keyed.Distinct w.store.entries) :
    Transfer none now asked w.store.held (deed.storedUnder key) (carryOut now key deed w).1
      (carryOut now key deed w).2.store.held := by
  cases hlive : w.store.live? now key with
  | none =>
    cases deed with
    | ignore | abandon => exact .refl _
    | read | keep =>
      simp only [carryOut, hlive]
      exact transfer_takeOut hd (.inl hlive)
    | remove => exact transfer_takeOut hd (.inr (hasked rfl))
    | store value => exact transfer_writeOver hd value
  | some slot =>
    cases deed with
    | ignore | abandon => exact .refl _
    | keep =>
      simp only [carryOut, hlive]
      exact .refl _
    | read =>
      simp only [carryOut, hlive, readOut]
      split
      · exact transfer_set hd (live?_eq_some_iff.mp hlive).1 rfl
      · exact .refl _
    | remove => exact transfer_takeOut hd (.inr (hasked rfl))
    | store value => exact transfer_writeOver hd value

private theorem transfer_comeDue {w : Running (Timed K V) K V} {stamp : Nat}
    (hnow : ∀ reading, w.agenda.clock.now = .ok reading → reading = now)
    (hd : Keyed.Distinct w.store.entries) :
    Transfer none now asked w.store.held [] (comeDue key stamp w).1
      (comeDue key stamp w).2.store.held := by
  rw [comeDue]
  split
  · next reading slot hreading hfind =>
    obtain rfl := hnow reading hreading
    split
    · split
      · next deadline hdeadline =>
        split
        · next hle =>
          have hlapsed : slot.isLapsed reading = true := by
            rw [Slot.isLapsed, hdeadline]
            exact decide_eq_true hle
          have htold : removal reading key .explicit slot = ⟨key, slot.value, .expired⟩ := by
            rw [removal, if_pos hlapsed]
          rw [← htold, ← leaves_holding]
          refine .taken _ (.inl ?_) (held_perm hd hfind)
          rw [hasLapsed_holding]
          exact hlapsed
        · exact transfer_arm hd stamp _
      · exact .refl _
    · exact .refl _
  · exact .refl _

instance : Custodian (Timed K V) K V where
  held := held
  space _ := none
  transfer_carry now asked key deed w hasked hd := by
    rw [Holding.Distinct, keys_held] at hd
    exact transfer_carry hasked hd
  transfer_sweep _ _ := .refl _
  transfer_lapsed now key stamp w hnow hd := by
    rw [Holding.Distinct, keys_held] at hd
    exact transfer_comeDue hnow hd
  held_teardown w := by
    simp only [Engine.teardown, endSchedule]
    split <;> rfl

end Timed

end Caching
