import Caching.Proofs.Timed.Deeds
import Caching.Proofs.Timed.Reference

/-!
# The timed engine renders a timed map

Whoever looks at a store sees the entries that have not lapsed, with their values and deadlines. A
store renders a map if the same is there to be seen, from now on. Stamps, duties and entries that
have lapsed do not matter to that, so a deed may clear lapsed entries away or leave them.
-/

namespace Caching

variable {K V : Type}

/-- What can be seen of a slot. -/
def Slot.lease (slot : Slot V) : Lease V :=
  ⟨slot.value, slot.deadline⟩

private theorem Slot.lasts_lease (slot : Slot V) (now : Instant) :
    slot.lease.lasts now = !slot.isLapsed now := by
  rw [lease, Lease.lasts, isLapsed]
  cases slot.deadline with
  | none => rfl
  | some deadline =>
    simp only [Instant.lt_iff, Instant.le_iff]
    by_cases h : deadline.nanos ≤ now.nanos
    · have hnot : ¬ now.nanos < deadline.nanos := by omega
      simp only [h, hnot, decide_true, decide_false, Bool.not_true]
    · have hlt : now.nanos < deadline.nanos := by omega
      simp only [h, hlt, decide_true, decide_false, Bool.not_false]

namespace Timed

/-- The leases of a store, lapsed or not. -/
def leases (s : Timed K V) : List (K × Lease V) :=
  Keyed.mapHeld Slot.lease s.entries

/-- From the instant on, the store shows what the map shows. -/
structure Renders (now : Instant) (s : Timed K V) (m : TimedMap K V) : Prop where
  expiry : s.expiry = some m.expiry
  distinct : Keyed.Distinct s.leases
  present : (Lease.present now s.leases).Perm (Lease.present now m.leases)

section

variable [DecidableEq K]

private theorem leases_erase (s : Timed K V) (key : K) :
    (s.erase key).leases = Keyed.erase key s.leases :=
  Keyed.mapHeld_erase Slot.lease key s.entries

private theorem leases_set (s : Timed K V) (key : K) (slot : Slot V) :
    (s.set key slot).leases = Keyed.insert key slot.lease s.leases :=
  Keyed.mapHeld_insert Slot.lease key slot s.entries

private theorem find?_leases (s : Timed K V) (key : K) :
    Keyed.find? key s.leases = (s.find? key).map Slot.lease :=
  Keyed.find?_mapHeld Slot.lease key s.entries

variable (key : K) (w : Running (Timed K V) K V)

/-- Nobody sees that a duty is scheduled. -/
theorem arm_unseen (stamp : Nat) (delay : Duration) :
    (arm key stamp delay w).store.expiry = w.store.expiry ∧
      (arm key stamp delay w).store.leases = w.store.leases := by
  obtain hsame | ⟨slot, timer, hfind, harmed⟩ := store_arm key w stamp delay
  · rw [hsame]
    exact ⟨rfl, rfl⟩
  · rw [harmed, leases_set]
    refine ⟨rfl, ?_⟩
    apply Keyed.insert_of_find?
    rw [find?_leases, hfind]
    rfl

private theorem leases_write (now : Instant) (value : V) :
    (write now key value w).store.leases =
      Keyed.insert key ⟨value, w.store.deadlineFrom now⟩ w.store.leases := by
  obtain ⟨timer, hwrite⟩ := store_write key w now value
  rw [hwrite]
  exact leases_set w.store key ⟨value, w.store.nextStamp, w.store.deadlineFrom now, timer⟩

/-- A write leaves the expiry as it is. -/
theorem expiry_write (now : Instant) (value : V) :
    (write now key value w).store.expiry = w.store.expiry := by
  obtain ⟨timer, hwrite⟩ := store_write key w now value
  rw [hwrite]

end

namespace Renders

variable {now : Instant} {s s' : Timed K V} {m : TimedMap K V}

/-- No key has two entries. -/
theorem distinct_entries (h : Renders now s m) : Keyed.Distinct s.entries :=
  Keyed.distinct_of_keys_eq (Keyed.keys_mapHeld Slot.lease s.entries) h.distinct

private theorem congr (h : Renders now s m) (hexpiry : s'.expiry = s.expiry)
    (hleases : s'.leases = s.leases) : Renders now s' m := by
  refine ⟨hexpiry.trans h.expiry, ?_, ?_⟩
  · rw [hleases]
    exact h.distinct
  · rw [hleases]
    exact h.present

/-- What is rendered now is rendered later. -/
theorem of_le (h : Renders now s m) {later : Instant} (hle : now ≤ later) :
    Renders later s m := by
  refine ⟨h.expiry, h.distinct, ?_⟩
  rw [Lease.present_of_le hle s.leases, Lease.present_of_le hle m.leases]
  exact h.present.filter _

/-- A store without entries renders every map without leases. -/
theorem nil (hexpiry : s.expiry = some m.expiry) (hentries : s.entries = [])
    (hleases : m.leases = []) : Renders now s m := by
  have hnone : s.leases = [] := by rw [leases, hentries]; rfl
  refine ⟨hexpiry, ?_, ?_⟩
  · rw [hnone]
    exact Keyed.distinct_nil
  · rw [hnone, hleases]

/-- If nothing has lapsed, there is as much in the map as in the store. -/
theorem length_present (h : Renders now s m) (hlive : ∀ e ∈ s.entries, e.2.isLapsed now = false) :
    (Lease.present now m.leases).length = s.entries.length := by
  have hall : Lease.present now s.leases = s.leases := by
    apply List.filter_eq_self.mpr
    intro e he
    obtain ⟨entry, hentry, rfl⟩ := List.mem_map.mp he
    rw [Slot.lasts_lease, hlive entry hentry]
    rfl
  rw [← h.present.length_eq, hall, leases, Keyed.mapHeld, List.length_map]

variable [DecidableEq K]

private theorem find? (h : Renders now s m) (key : K) :
    (s.live? now key).map Slot.lease = Keyed.find? key (Lease.present now m.leases) := by
  have hfilter := Keyed.find?_filter h.distinct (fun e ↦ e.2.lasts now) key
  rw [← Keyed.find?_perm h.present (h.distinct.filter _), Lease.present, hfilter, find?_leases]
  cases hslot : s.find? key with
  | none => rw [live?_of_find?_eq_none hslot]; rfl
  | some slot =>
    rw [live?_of_find? hslot, Option.map_some, Option.filter_some, Slot.lasts_lease]
    cases slot.isLapsed now <;> rfl

/-- The live value is the current one. -/
theorem current (h : Renders m.now s m) (key : K) :
    (s.live? m.now key).map Slot.value = m.current key := by
  rw [TimedMap.current, TimedMap.present, ← h.find? key, Option.map_map]
  rfl

private theorem erase (h : Renders now s m) (key : K) : Renders now (s.erase key) (m.take key) := by
  refine ⟨h.expiry, ?_, ?_⟩
  · rw [leases_erase]
    exact h.distinct.erase key
  · rw [leases_erase, TimedMap.take, Lease.present, Lease.present, ← Keyed.erase_filter,
      ← Keyed.erase_filter]
    exact h.present.filter _

private theorem clear (h : Renders now s m) {key : K} (habsent : s.live? now key = none) :
    Renders now (s.erase key) m := by
  refine ⟨h.expiry, ?_, ?_⟩
  · rw [leases_erase]
    exact h.distinct.erase key
  · have hnone : Keyed.find? key (Lease.present now m.leases) = none := by
      rw [← h.find? key, habsent, Option.map_none]
    rw [← Keyed.find?_perm h.present (h.distinct.filter _)] at hnone
    have hsame : Keyed.erase key (Lease.present now s.leases) = Lease.present now s.leases :=
      Keyed.erase_of_find?_eq_none hnone
    rw [leases_erase, Lease.present, ← Keyed.erase_filter]
    rw [Lease.present] at hsame
    rw [hsame]
    exact h.present

private theorem insert (h : Renders now s m) (key : K) (value : V) (hexpiry : s'.expiry = s.expiry)
    (hleases : s'.leases = Keyed.insert key ⟨value, m.now.add? m.expiry.time⟩ s.leases) :
    Renders now s' (m.put key value) := by
  refine ⟨hexpiry.trans h.expiry, ?_, ?_⟩
  · rw [hleases]
    exact h.distinct.insert key _
  · have hs := (Keyed.insert_perm h.distinct key ⟨value, m.now.add? m.expiry.time⟩).filter
      fun e ↦ e.2.lasts now
    have hm := (Keyed.insert_perm m.distinct key ⟨value, m.now.add? m.expiry.time⟩).filter
      fun e ↦ e.2.lasts now
    have herase := h.present.filter fun e ↦ decide (e.1 ≠ key)
    rw [Lease.present, Lease.present] at herase
    rw [hleases, TimedMap.put, Lease.present, Lease.present]
    refine hs.trans (List.Perm.trans ?_ hm.symm)
    rw [List.filter_cons, List.filter_cons, ← Keyed.erase_filter, ← Keyed.erase_filter]
    split
    · exact herase.cons _
    · exact herase

/-- Taking a key out of both. -/
theorem takeOut {w : Running (Timed K V) K V} (h : Renders now w.store m) (key : K) :
    Renders now (takeOut now key w).2.store (m.take key) := by
  rw [Timed.takeOut]
  cases hslot : w.store.find? key with
  | none =>
    have hnone : Timed.erase w.store key = w.store := by
      rw [Timed.erase, Keyed.erase_of_find?_eq_none hslot]
    have herased := h.erase key
    rw [hnone] at herased
    exact herased
  | some slot =>
    rw [store_disarm]
    exact h.erase key

private theorem clearAway {w : Running (Timed K V) K V} (h : Renders now w.store m) {key : K}
    (habsent : w.store.live? now key = none) :
    Renders now (Timed.takeOut now key w).2.store m := by
  rw [Timed.takeOut]
  cases hslot : w.store.find? key with
  | none => exact h
  | some slot =>
    rw [store_disarm]
    exact h.clear habsent

/-- A deed does to the store what it does to the map. -/
theorem carryOut {w : Running (Timed K V) K V} (h : Renders m.now w.store m) (key : K)
    (deed : Deed V) : Renders m.now (carryOut m.now key deed w).2.store (m.carry key deed) := by
  have hcurrent := h.current key
  have hdeadline : w.store.deadlineFrom m.now = m.now.add? m.expiry.time := by
    rw [deadlineFrom, h.expiry, Option.bind_some]
  cases deed with
  | ignore => exact h
  | abandon => exact h
  | keep =>
    cases hlive : w.store.live? m.now key with
    | none =>
      simp only [Timed.carryOut, TimedMap.carry, hlive]
      exact h.clearAway hlive
    | some slot =>
      simp only [Timed.carryOut, TimedMap.carry, hlive]
      exact h
  | read =>
    cases hlive : w.store.live? m.now key with
    | none =>
      rw [hlive, Option.map_none] at hcurrent
      simp only [Timed.carryOut, TimedMap.carry, hlive, ← hcurrent]
      exact h.clearAway hlive
    | some slot =>
      have hresets : w.store.resetsOnRead = m.expiry.resetsOnRead := by
        rw [resetsOnRead, h.expiry]
      rw [hlive, Option.map_some] at hcurrent
      simp only [Timed.carryOut, TimedMap.carry, hlive, ← hcurrent, readOut, hresets]
      split
      · refine h.insert key slot.value rfl ?_
        rw [leases_set, hdeadline]
        rfl
      · exact h
  | remove => exact h.takeOut key
  | store value =>
    have hleases := leases_write key w m.now value
    rw [hdeadline] at hleases
    have hwrite := h.insert key value (expiry_write key w m.now value) hleases
    simp only [Timed.carryOut, TimedMap.carry, writeOver]
    cases w.store.find? key with
    | none => exact hwrite
    | some slot =>
      rw [store_disarm]
      exact hwrite

/-- The duty of an entry clears away what has lapsed, and nobody sees more of it. -/
theorem comeDue {w : Running (Timed K V) K V} (h : Renders now w.store m)
    (hnow : w.agenda.clock.now = .ok now) (key : K) (stamp : Nat) :
    Renders now (comeDue key stamp w).2.store m := by
  rw [Timed.comeDue, hnow]
  cases hslot : w.store.find? key with
  | none => exact h
  | some slot =>
    dsimp only
    split
    · cases hd : slot.deadline with
      | none => exact h
      | some deadline =>
        dsimp only
        split
        · next hle =>
          apply h.clear
          rw [live?_of_find? hslot, Slot.isLapsed, hd]
          exact if_pos (decide_eq_true hle)
        · obtain ⟨hexpiry, hleases⟩ := arm_unseen key w stamp (deadline.since now)
          exact h.congr hexpiry hleases
    · exact h

end Renders

end Timed

end Caching
