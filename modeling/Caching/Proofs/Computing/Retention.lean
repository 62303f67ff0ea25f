import Caching.Proofs.History
import Caching.Proofs.Ledger.Accounts
import Caching.Proofs.Timed.Reflection

/-!
# Retention

Engines that have what they were last given: an entry that was just stored is live, whatever had to
leave for it, and one that was just looked at still is. This takes that entries last for a while,
which they do over every history.
-/

namespace Caching

namespace Holding

variable {K V : Type} [DecidableEq K]

/-- The value that a key has at an instant: that of an entry which has not lapsed. -/
def valueAt (now : Instant) (key : K) (holdings : List (Holding K V)) : Option V :=
  (holdings.find? fun h ↦ decide (h.key = key) && !h.hasLapsed now).map Holding.value

private theorem valueAt_eq_some_iff {now : Instant} {key : K} {value : V}
    {holdings : List (Holding K V)}
    (hd : Distinct holdings) : valueAt now key holdings = some value ↔
      ∃ h ∈ holdings, h.key = key ∧ h.hasLapsed now = false ∧ h.value = value := by
  rw [valueAt, Option.map_eq_some_iff]
  constructor
  · rintro ⟨h, hfound, hvalue⟩
    have hlive := List.find?_some hfound
    simp only [Bool.and_eq_true, decide_eq_true_eq, Bool.not_eq_true'] at hlive
    exact ⟨h, List.mem_of_find?_eq_some hfound, hlive.1, hlive.2, hvalue⟩
  · rintro ⟨h, hmem, hkey, hlive, hvalue⟩
    cases hfound : holdings.find? fun h ↦ decide (h.key = key) && !h.hasLapsed now with
    | none =>
      have habsent := List.find?_eq_none.mp hfound h hmem
      simp [hkey, hlive] at habsent
    | some found =>
      have hother := List.find?_some hfound
      simp only [Bool.and_eq_true, decide_eq_true_eq] at hother
      have hsame : found = h := List.inj_on_of_nodup_map hd (List.mem_of_find?_eq_some hfound) hmem
        (hother.1.trans hkey.symm)
      exact ⟨found, rfl, hsame ▸ hvalue⟩

/-- The order of the entries has no say in it. -/
theorem valueAt_perm {holdings holdings' : List (Holding K V)} (h : holdings.Perm holdings')
    (hd : Distinct holdings) (now : Instant) (key : K) :
    valueAt now key holdings = valueAt now key holdings' := by
  have hd' : Distinct holdings' := (h.map Holding.key).nodup_iff.mp hd
  apply Option.ext
  intro value
  simp only [valueAt_eq_some_iff hd, valueAt_eq_some_iff hd', h.mem_iff]

end Holding

open Custodian (held)

/-- A custodian that has what it was last given. -/
class Retentive (σ K V : Type) [DecidableEq K] [Engine σ K V] [LawfulEngine σ K V]
    [Custodian σ K V] where
  /-- An entry that was just stored lasts for a while. -/
  IsLasting : σ → Prop
  lasting_carry : ∀ now key deed (w : Running σ K V), IsLasting w.store →
    IsLasting (LawfulEngine.carry now key deed w).2.store
  lasting_sweep : ∀ w : Running σ K V, IsLasting w.store →
    IsLasting (LawfulEngine.sweep w).2.store
  lasting_lapsed : ∀ key stamp (w : Running σ K V), IsLasting w.store →
    IsLasting (LawfulEngine.lapsed key stamp w).2.store
  lasting_teardown : ∀ w : Running σ K V, IsLasting w.store → IsLasting (Engine.teardown w).store
  /-- A deed takes no time. -/
  reading_carry : ∀ now key deed (w : Running σ K V),
    Engine.reading (LawfulEngine.carry now key deed w).2 = Engine.reading w
  /-- Records are not looked at to tell the time. -/
  reading_records : ∀ (w : Running σ K V) heard log,
    Engine.reading { w with heard, log } = Engine.reading w
  current?_eq : ∀ now key (w : Running σ K V), w.HoldsDistinct →
    LawfulEngine.current? now key w = Holding.valueAt now key (held w.store)
  current?_store : ∀ now key value (w : Running σ K V), IsLasting w.store →
    LawfulEngine.current? now key (LawfulEngine.carry now key (.store value) w).2 = some value
  current?_read : ∀ now key (w : Running σ K V) value, IsLasting w.store →
    LawfulEngine.current? now key w = some value →
    LawfulEngine.current? now key (LawfulEngine.carry now key .read w).2 = some value
  /-- Nobody has to leave for an entry that is kept. -/
  keeps : ∀ now key (w : Running σ K V) value, w.HoldsDistinct →
    LawfulEngine.current? now key w = some value →
    (LawfulEngine.carry now key .keep w).1 = [] ∧
      (held (LawfulEngine.carry now key .keep w).2.store : List (Holding K V)).Perm (held w.store)

namespace Recency

variable {K V : Type} [DecidableEq K]

omit [DecidableEq K] in
private theorem distinct_entries {s : Recency K V} (h : Holding.Distinct s.held) :
    Keyed.Distinct s.entries := by
  rwa [Holding.Distinct, keys_held] at h

private theorem find?_eq_valueAt {s : Recency K V} (hd : Holding.Distinct s.held) (now : Instant)
    (key : K) : s.find? key = Holding.valueAt now key s.held := by
  apply Option.ext
  intro value
  rw [Holding.valueAt_eq_some_iff hd, find?,
    Keyed.find?_eq_some_iff (distinct_entries hd)]
  constructor
  · intro hmem
    exact ⟨⟨key, value, none⟩, List.mem_map.mpr ⟨_, hmem, rfl⟩, rfl, rfl, rfl⟩
  · rintro ⟨h, hmem, rfl, -, rfl⟩
    obtain ⟨e, he, rfl⟩ := List.mem_map.mp hmem
    exact he

private theorem find?_push_self (s : Recency K V) (key : K) (value : V) :
    (s.push key value).2.find? key = some value := by
  have hlast (entries : List (K × V)) (hnew : Keyed.find? key entries = none) :
      Keyed.find? key (entries ++ [(key, value)]) = some value := by
    have hmoved := Keyed.find?_moveToEnd_self key value entries
    rwa [Keyed.moveToEnd, Keyed.erase_of_find?_eq_none hnew] at hmoved
  cases h : s.find? key with
  | some old =>
    simp only [push, h]
    exact Keyed.find?_moveToEnd_self key value s.entries
  | none =>
    simp only [push, h]
    split
    · next oldest rest _ hentries =>
      apply hlast rest
      rw [find?, hentries, Keyed.find?_eq_none_iff, Keyed.keys, List.map_cons, List.mem_cons,
        not_or] at h
      exact Keyed.find?_eq_none_iff.mpr h.2
    · exact hlast s.entries h

instance : Retentive (Recency K V) K V where
  IsLasting _ := True
  lasting_carry _ _ _ _ _ := trivial
  lasting_sweep _ _ := trivial
  lasting_lapsed _ _ _ _ := trivial
  lasting_teardown _ _ := trivial
  reading_carry _ _ _ _ := rfl
  reading_records _ _ _ := rfl
  current?_eq now key w hd := find?_eq_valueAt hd now key
  current?_store now key value w _ := find?_push_self w.store key value
  current?_read now key w value _ h := (find?_touch_self w.store key).trans h
  keeps now key w value hd _ := by
    exact ⟨rfl, (entries_touch_perm (distinct_entries hd) key).map _⟩

end Recency

namespace Timed

variable {K V : Type} [DecidableEq K] {key : K} {now : Instant}

private theorem expiry_takeOut (w : Running (Timed K V) K V) :
    (takeOut now key w).2.store.expiry = w.store.expiry := by
  rw [takeOut]
  split
  · rw [store_disarm]
    rfl
  · rfl

private theorem store_writeOver (w : Running (Timed K V) K V) (value : V) :
    (writeOver now key value w).2.store = (write now key value w).store := by
  rw [writeOver]
  split
  · exact store_disarm _ _
  · rfl

private theorem expiry_carryOut (w : Running (Timed K V) K V) (deed : Deed V) :
    (carryOut now key deed w).2.store.expiry = w.store.expiry := by
  unfold carryOut
  split
  · rfl
  · rfl
  · rw [readOut]
    split <;> rfl
  · rfl
  · exact expiry_takeOut w
  · exact expiry_takeOut w
  · exact expiry_takeOut w
  · rw [store_writeOver, expiry_write]

private theorem expiry_comeDue (w : Running (Timed K V) K V) (stamp : Nat) :
    (comeDue key stamp w).2.store.expiry = w.store.expiry := by
  rw [comeDue]
  split
  · split
    · split
      · split
        · rfl
        · exact (arm_unseen key w stamp _).1
      · rfl
    · rfl
  · rfl

omit [DecidableEq K] in
private theorem distinct_entries {s : Timed K V} (h : Holding.Distinct s.held) :
    Keyed.Distinct s.entries := by
  rwa [Holding.Distinct, keys_held] at h

private theorem live?_eq_valueAt {s : Timed K V} (hd : Holding.Distinct s.held) :
    (s.live? now key).map Slot.value = Holding.valueAt now key s.held := by
  apply Option.ext
  intro value
  rw [Holding.valueAt_eq_some_iff hd, Option.map_eq_some_iff]
  constructor
  · rintro ⟨slot, hlive, hvalue⟩
    obtain ⟨hfind, hlapsed⟩ := live?_eq_some_iff.mp hlive
    exact ⟨holding key slot, List.mem_map.mpr ⟨_, Keyed.mem_of_find? hfind, rfl⟩, rfl,
      (hasLapsed_holding key slot now).trans hlapsed, hvalue⟩
  · rintro ⟨h, hmem, rfl, hlapsed, hvalue⟩
    obtain ⟨e, he, rfl⟩ := List.mem_map.mp hmem
    rw [hasLapsed_holding] at hlapsed
    exact ⟨e.2, live?_eq_some_iff.mpr ⟨(Keyed.find?_eq_some_iff (distinct_entries hd)).mpr he,
      hlapsed⟩, hvalue⟩

omit [DecidableEq K] in
private theorem isLapsed_deadlineFrom {s : Timed K V} (hlasting : ∀ e ∈ s.expiry, 0 < e.time.nanos)
    {slot : Slot V} (h : slot.deadline = s.deadlineFrom now) : slot.isLapsed now = false := by
  rw [Slot.isLapsed, h]
  cases hdeadline : s.deadlineFrom now with
  | none => rfl
  | some deadline =>
    obtain ⟨e, he, hadd⟩ := Option.bind_eq_some_iff.mp hdeadline
    have hsum := Instant.add?_eq_some_iff.mp hadd
    have hpositive := hlasting e he
    rw [decide_eq_false_iff_not, Instant.le_iff]
    omega

private theorem live?_writeOver {w : Running (Timed K V) K V}
    (hlasting : ∀ e ∈ w.store.expiry, 0 < e.time.nanos) (value : V) :
    ((writeOver now key value w).2.store.live? now key).map Slot.value = some value := by
  obtain ⟨timer, hwrite⟩ := store_write key w now value
  have hfind : (write now key value w).store.find? key =
      some ⟨value, w.store.nextStamp, w.store.deadlineFrom now, timer⟩ := by
    rw [hwrite]
    exact Keyed.find?_insert_self key _ _
  rw [store_writeOver, live?_eq_some_iff.mpr ⟨hfind, isLapsed_deadlineFrom hlasting rfl⟩]
  rfl

private theorem live?_readOut {w : Running (Timed K V) K V}
    (hlasting : ∀ e ∈ w.store.expiry, 0 < e.time.nanos) {slot : Slot V}
    (h : w.store.live? now key = some slot) :
    ((readOut now key slot w).store.live? now key).map Slot.value = some slot.value := by
  rw [readOut]
  split
  · have hfind : (w.store.set key { slot with deadline := w.store.deadlineFrom now }).find? key =
        some { slot with deadline := w.store.deadlineFrom now } :=
      Keyed.find?_insert_self key _ w.store.entries
    rw [live?_eq_some_iff.mpr ⟨hfind, isLapsed_deadlineFrom hlasting rfl⟩]
    rfl
  · rw [h]
    rfl

instance : Retentive (Timed K V) K V where
  IsLasting s := ∀ e ∈ s.expiry, 0 < e.time.nanos
  lasting_carry now key deed w h := by
    rw [show (LawfulEngine.carry now key deed w).2.store.expiry = w.store.expiry from
      expiry_carryOut w deed]
    exact h
  lasting_sweep _ h := h
  lasting_lapsed key stamp w h := by
    rw [show (LawfulEngine.lapsed key stamp w).2.store.expiry = w.store.expiry from
      expiry_comeDue w stamp]
    exact h
  lasting_teardown w h := by
    rw [store_teardown]
    exact h
  reading_carry now key deed w := by
    have hclock : (carryOut now key deed w).2.agenda.clock = w.agenda.clock :=
      (carryOut_extends key w now deed).1
    have hhost : (carryOut now key deed w).2.host = w.host := by
      obtain ⟨store, agenda, log, hframes⟩ := carryOut_frames key w now deed
      rw [hframes]
    simp only [Engine.reading, LawfulEngine.carry, expiry_carryOut, hclock, hhost]
  reading_records _ _ _ := rfl
  current?_eq now key w hd := live?_eq_valueAt hd
  current?_store now key value w h := live?_writeOver h value
  current?_read now key w value h hlive := by
    obtain ⟨slot, hslot, rfl⟩ := Option.map_eq_some_iff.mp hlive
    simp only [LawfulEngine.current?, LawfulEngine.carry, carryOut, hslot]
    exact live?_readOut h hslot
  keeps now key w value _ hlive := by
    obtain ⟨slot, hslot, rfl⟩ := Option.map_eq_some_iff.mp hlive
    have hkept : LawfulEngine.carry now key .keep w = ([], w) := by
      simp only [LawfulEngine.carry, carryOut, hslot]
    rw [hkept]
    exact ⟨rfl, .refl _⟩

end Timed

namespace Running

variable {σ K V : Type} [DecidableEq K] [Engine σ K V] [LawfulEngine σ K V] [Custodian σ K V]
  [Retentive σ K V]

/-- What a cache is at every point of a history, if its listener never calls back. -/
structure IsSteady (w : Running σ K V) : Prop where
  distinct : w.HoldsDistinct
  quiet : w.IsQuiet
  lasting : Retentive.IsLasting K V w.store

namespace IsSteady

variable {start w w' : Running σ K V}

private theorem congr (h : w.IsSteady) (hstore : w'.store = w.store)
    (hlistener : w'.listener = w.listener) : w'.IsSteady := by
  refine ⟨?_, ?_, ?_⟩
  · rw [HoldsDistinct, hstore]
    exact h.distinct
  · rw [IsQuiet, hlistener]
    exact h.quiet
  · rw [hstore]
    exact h.lasting

variable [DecidableEq V]

/-- A change that keeps the entries distinct and lasting keeps the cache steady, whatever is told of
it. -/
theorem settle (h : w.IsSteady) {r : List (Removal K V) × Running σ K V} (hframes : w.Frames r.2)
    (hdistinct : r.2.HoldsDistinct) (hlasting : Retentive.IsLasting K V r.2.store) (bound : Nat) :
    (Running.settle (reportAt bound) r).IsSteady := by
  have hquiet := h.quiet.frames hframes
  have hr : r.2.IsSteady := ⟨hdistinct, hquiet, hlasting⟩
  obtain ⟨heard, log, htell, -⟩ := tell_of_quiet hquiet bound r.1
  rw [Running.settle, htell]
  exact hr.congr rfl rfl

/-- Every deed keeps it so. -/
theorem carry (h : w.IsSteady) (now : Instant) (key : K) (deed : Deed V) (bound : Nat) :
    (Running.settle (reportAt bound) (LawfulEngine.carry now key deed w)).IsSteady :=
  h.settle (LawfulEngine.carry_frames now key deed w)
    ((Custodian.transfer_carry now true key deed w (fun _ ↦ rfl) h.distinct).distinct h.distinct)
    (Retentive.lasting_carry now key deed w h.lasting) bound

omit [DecidableEq V] in
private theorem teardown (h : w.IsSteady) : (Engine.teardown w).IsSteady := by
  refine ⟨?_, h.quiet.frames (LawfulEngine.teardown_frames w),
    Retentive.lasting_teardown w h.lasting⟩
  rw [HoldsDistinct, Custodian.held_teardown]
  exact List.nodup_nil

/-- Every operation keeps it so. -/
theorem perform (h : w.IsSteady) (operation : Operation K V) :
    (w.perform operation).2.IsSteady := by
  refine performWith_kept (fun now _ key deed w' h' ↦ h'.carry now key deed w.depth) ?_ ?_ h
    operation
  · intro w' h'
    exact h'.settle (LawfulEngine.sweep_frames w')
      ((Custodian.transfer_sweep Clock.fresh.start w').distinct h'.distinct)
      (Retentive.lasting_sweep w' h'.lasting) w.depth
  · intro _
    have hclosed : IsSteady { w with phase := .closed } := h.congr rfl rfl
    have hended := hclosed.teardown
    rw [close]
    split
    · exact h
    · exact hended.congr rfl rfl

private theorem lapse (h : w.IsSteady) (key : K) (stamp : Nat) :
    (Engine.lapse w.report key stamp w).IsSteady := by
  obtain ⟨now, hnow⟩ := w.agenda.clock.exists_shown
  rw [LawfulEngine.lapse_eq]
  exact h.settle (LawfulEngine.lapsed_frames key stamp w)
    ((Custodian.transfer_lapsed now key stamp w hnow h.distinct).distinct h.distinct)
    (Retentive.lasting_lapsed key stamp w h.lasting) w.depth

/-- A cache is steady over every history. -/
theorem undergoes (hstart : start.IsSteady) {dialogue : List (Operation K V × Reply V)}
    (h : Undergoes start dialogue w) : w.IsSteady := by
  induction h with
  | start => exact hstart
  | operate h operation ih => exact ih.perform operation
  | lapse h key stamp ih => exact ih.lapse key stamp
  | upkeep h ih =>
    rw [LawfulEngine.upkeep_eq]
    exact ih
  | rearrange h agenda host ih => exact ih.congr rfl rfl
  | release h ih =>
    next dialogue w =>
    have hclosed : IsSteady { w with phase := .closed } := ih.congr rfl rfl
    rw [release]
    split
    · exact ih
    · exact hclosed.teardown

omit [DecidableEq V] in
/-- The live value of a key, in terms of what is held. -/
theorem current?_eq (h : w.IsSteady) (now : Instant) (key : K) :
    LawfulEngine.current? now key w = Holding.valueAt now key (held w.store) :=
  Retentive.current?_eq now key w h.distinct

/-- Whatever is told of a deed, no time passes. -/
theorem reading_settle (h : w.IsSteady) (now : Instant) (key : K) (deed : Deed V)
    (bound : Nat) :
    Engine.reading (Running.settle (reportAt bound) (LawfulEngine.carry now key deed w)) =
      Engine.reading w := by
  have hquiet := h.quiet.frames (LawfulEngine.carry_frames now key deed w)
  obtain ⟨heard, log, htell, -⟩ := tell_of_quiet hquiet bound (LawfulEngine.carry now key deed w).1
  rw [Running.settle, htell, Retentive.reading_records, Retentive.reading_carry]

end IsSteady

end Running

end Caching
