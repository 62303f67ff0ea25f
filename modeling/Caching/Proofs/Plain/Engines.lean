import Caching.Proofs.Plain.Reference
import Caching.Proofs.Recency.Deeds
import Caching.Proofs.Timed.Deeds
import Caching.Engine.Deferred

/-!
# Engines as plain maps

Without a bound and without expiry, every engine is a plain map behind whatever it does to store its
entries: in the order of their use, in slots with stamps, or with work left for later.
-/

namespace Caching

variable {σ K V : Type}

namespace Running

/-- One state comes from another by changes of the store and the agenda and by telling a quiet
listener of some removals. -/
def Tells (w : Running σ K V) (removals : List (Removal K V)) (w' : Running σ K V) : Prop :=
  ∃ store agenda heard log, w' = { w with store, agenda, heard, log } ∧
    heard.map Heard.removal = if w.isHeeded then w.told ++ removals else w.told

namespace Tells

variable {w w₁ w₂ : Running σ K V}

/-- Changes of the store and the agenda alone tell nothing. -/
theorem of_frames (h : w.Frames w₁) : w.Tells [] w₁ := by
  obtain ⟨store, agenda, log, rfl⟩ := h
  exact ⟨store, agenda, w.heard, log, rfl, by simp [told]⟩

/-- Removals are told one after the other. -/
theorem trans {removals later : List (Removal K V)} (h : w.Tells removals w₁)
    (h' : w₁.Tells later w₂) : w.Tells (removals ++ later) w₂ := by
  obtain ⟨store, agenda, heard, log, rfl, htold⟩ := h
  obtain ⟨store', agenda', heard', log', rfl, htold'⟩ := h'
  refine ⟨store', agenda', heard', log', rfl, ?_⟩
  have hheeded : isHeeded { w with store, agenda, heard, log } = w.isHeeded := rfl
  rw [hheeded] at htold'
  rw [htold', told, htold]
  by_cases h : w.isHeeded = true
  · rw [if_pos h, if_pos h, if_pos h, List.append_assoc]
  · rw [if_neg h, if_neg h, if_neg h]

variable [Engine σ K V] [DecidableEq V]

/-- What is settled is told, and leaves the store as it is. -/
theorem settle (h : w.IsQuiet) {r : List (Removal K V) × Running σ K V} (hframes : w.Frames r.2)
    (bound : Nat) : w.Tells r.1 (Running.settle (reportAt bound) r) := by
  obtain ⟨heard, log', htell, htold⟩ := tell_of_quiet (h.frames hframes) bound r.1
  obtain ⟨store, agenda, log, hr⟩ := hframes
  rw [Running.settle, htell, hr]
  rw [hr] at htold
  exact ⟨store, agenda, heard, log', rfl, htold⟩

end Tells

end Running

/-- What the deed leaves of the entries. -/
def Deed.applied [DecidableEq K] (deed : Deed V) (key : K) (entries : List (K × V)) :
    List (K × V) :=
  match deed with
  | .store value => Keyed.insert key value entries
  | .remove => Keyed.erase key entries
  | .ignore | .abandon | .read | .keep => entries

/-- An engine that is a plain map as long as there is neither a bound nor expiry. -/
class PlainEngine (σ K V : Type) [Engine σ K V] [DecidableEq K] where
  contents : σ → List (K × V)
  IsPlain : σ → Prop
  /-- What a deed changes, and the removals to be told. -/
  carried : Instant → K → Deed V → Running σ K V → List (Removal K V) × Running σ K V
  exists_reading : ∀ {w : Running σ K V} {now : Instant}, IsPlain w.store → w.host.now = .ok now →
    ∃ now, Engine.reading w = .ok now
  serves : ∀ (report : Report σ K V) (now : Instant) {w : Running σ K V}, IsPlain w.store →
    Running.ServesByDeeds report now w (fun key ↦ Keyed.find? key (contents w.store))
      (fun key deed ↦ carried now key deed w)
  carried_eq : ∀ (now : Instant) (key : K) (deed : Deed V) {w : Running σ K V}, IsPlain w.store →
    Keyed.Distinct (contents w.store) →
    w.Frames (carried now key deed w).2 ∧ IsPlain (carried now key deed w).2.store ∧
      (contents (carried now key deed w).2.store).Perm (deed.applied key (contents w.store)) ∧
      (carried now key deed w).1 = deed.removed key (Keyed.find? key (contents w.store))
  size_eq : ∀ (report : Report σ K V) (now : Instant) {w : Running σ K V}, IsPlain w.store →
    w.dispatching = 0 → ∃ w', Engine.size report now w = ((contents w.store).length, w') ∧
      w.Frames w' ∧ IsPlain w'.store ∧ contents w'.store = contents w.store
  clear_tells : ∀ [DecidableEq V] (bound : Nat) (now : Instant) {w : Running σ K V}, w.IsQuiet →
    IsPlain w.store → Keyed.Distinct (contents w.store) → w.dispatching = 0 →
    w.Tells ((contents w.store).map fun e ↦ ⟨e.1, e.2, .explicit⟩)
        (Engine.clear (Running.reportAt bound) now w) ∧
      IsPlain (Engine.clear (Running.reportAt bound) now w).store ∧
      contents (Engine.clear (Running.reportAt bound) now w).store = []
  teardown_eq : ∀ {w : Running σ K V}, IsPlain w.store → w.Frames (Engine.teardown w) ∧
    IsPlain (Engine.teardown w).store ∧ contents (Engine.teardown w).store = []

section

variable [DecidableEq K]

namespace Recency

private theorem bound_touch (s : Recency K V) (key : K) : (s.touch key).bound = s.bound := by
  rw [touch]
  split <;> rfl

private theorem push_of_unbounded {s : Recency K V} (hbound : s.bound = none)
    (h : Keyed.Distinct s.entries) (key : K) (value : V) :
    (s.push key value).1 = (s.find? key).map (fun old ↦ (key, old)) ∧
      (s.push key value).2.bound = none ∧
      (s.push key value).2.entries.Perm (Keyed.insert key value s.entries) := by
  have hfull : s.isFull = false := by rw [isFull, hbound]
  have hplace := Keyed.insert_perm h key value
  rw [push]
  cases hfind : s.find? key with
  | none =>
    have herase : Keyed.erase key s.entries = s.entries := Keyed.erase_of_find?_eq_none hfind
    rw [herase] at hplace
    simp only [hfull]
    exact ⟨rfl, hbound, (List.perm_append_singleton _ _).trans hplace.symm⟩
  | some old =>
    exact ⟨rfl, hbound, (List.perm_append_singleton _ _).trans hplace.symm⟩

instance : PlainEngine (Recency K V) K V where
  contents s := s.entries
  IsPlain s := s.bound = none
  carried _ key deed w := carryOut key deed w
  exists_reading _ _ := ⟨_, rfl⟩
  serves report now w _ := Running.serves_of_lawful report now w
  carried_eq _ key deed w hbound hdistinct := by
    refine ⟨⟨_, w.agenda, w.log, rfl⟩, ?_⟩
    cases deed with
    | ignore => exact ⟨hbound, .refl _, rfl⟩
    | abandon | read | keep =>
      exact ⟨(bound_touch w.store key).trans hbound, entries_touch_perm hdistinct key, rfl⟩
    | store value =>
      obtain ⟨hdisplaced, hplain, hperm⟩ := push_of_unbounded hbound hdistinct key value
      refine ⟨hplain, hperm, ?_⟩
      simp only [carryOut, carry, hdisplaced, Deed.removed, find?]
      cases Keyed.find? key w.store.entries <;> simp
    | remove => exact ⟨hbound, .refl _, rfl⟩
  size_eq _ _ w h _ := ⟨w, rfl, .refl w, h, rfl⟩
  clear_tells bound now w hquiet h _ _ := by
    have hsweep : Engine.clear (Running.reportAt bound) now w =
        Running.settle (Running.reportAt bound) (LawfulEngine.sweep w) :=
      LawfulEngine.clear_eq (Running.reportAt bound) now w
    have hframes := LawfulEngine.sweep_frames w
    obtain ⟨hstore, _⟩ := Running.settle_of_quiet hquiet hframes bound
    rw [hsweep, hstore]
    exact ⟨.settle hquiet hframes bound, h, rfl⟩
  teardown_eq h := ⟨⟨_, _, _, rfl⟩, h, rfl⟩

end Recency

namespace Timed

/-- Nothing that is stored has a deadline, and nothing that will be stored gets one. -/
structure Stays (s : Timed K V) : Prop where
  expiry : s.expiry = none
  deadline : ∀ e ∈ s.entries, e.2.deadline = none

namespace Stays

variable {s : Timed K V}

omit [DecidableEq K] in
private theorem isLapsed_eq (h : Stays s) {e : K × Slot V} (he : e ∈ s.entries) (now : Instant) :
    e.2.isLapsed now = false := by
  rw [Slot.isLapsed, h.deadline e he]

private theorem live?_eq (h : Stays s) (now : Instant) (key : K) :
    s.live? now key = s.find? key := by
  cases hfind : s.find? key with
  | none => exact live?_of_find?_eq_none hfind now
  | some slot =>
    rw [live?_of_find? hfind, h.isLapsed_eq (Keyed.mem_of_find? hfind) now]
    rfl

omit [DecidableEq K] in
private theorem lapsedKeys_eq (h : Stays s) (now : Instant) : s.lapsedKeys now = [] := by
  rw [lapsedKeys, List.map_eq_nil_iff, List.filter_eq_nil_iff]
  intro e he
  rw [h.isLapsed_eq he now]
  exact Bool.false_ne_true

end Stays

section

variable {w : Running (Timed K V) K V}

private theorem takeOut_of_stays (h : Stays w.store) (now : Instant) (key : K) :
    Stays (takeOut now key w).2.store ∧
      Keyed.mapHeld Slot.value (takeOut now key w).2.store.entries =
        Keyed.erase key (Keyed.mapHeld Slot.value w.store.entries) ∧
      (takeOut now key w).1 = Deed.remove.removed key
        (Keyed.find? key (Keyed.mapHeld Slot.value w.store.entries)) := by
  have hentries := entries_takeOut key w now
  rw [hentries, Keyed.mapHeld_erase, Keyed.find?_mapHeld]
  rw [takeOut]
  cases hfind : w.store.find? key with
  | none =>
    rw [find?] at hfind
    rw [hfind]
    exact ⟨h, rfl, rfl⟩
  | some slot =>
    have hlive := h.isLapsed_eq (Keyed.mem_of_find? hfind) now
    rw [find?] at hfind
    dsimp only at hlive
    rw [hfind, store_disarm]
    refine ⟨⟨h.expiry, fun e he ↦ h.deadline e (Keyed.mem_erase_iff.mp he).1⟩, rfl, ?_⟩
    simp only [removal, hlive]
    rfl

private theorem writeOver_of_stays (h : Stays w.store) (now : Instant) (key : K) (value : V) :
    Stays (writeOver now key value w).2.store ∧
      Keyed.mapHeld Slot.value (writeOver now key value w).2.store.entries =
        Keyed.insert key value (Keyed.mapHeld Slot.value w.store.entries) ∧
      (writeOver now key value w).1 = (Deed.store value).removed key
        (Keyed.find? key (Keyed.mapHeld Slot.value w.store.entries)) := by
  obtain ⟨timer, hwrite⟩ := store_write key w now value
  have hstays : Stays (write now key value w).store := by
    rw [hwrite]
    refine ⟨h.expiry, fun e he ↦ ?_⟩
    rcases Keyed.mem_of_mem_insert he with rfl | he
    · simp only [deadlineFrom, h.expiry, Option.bind_none]
    · exact h.deadline e he
  have hentries : Keyed.mapHeld Slot.value (write now key value w).store.entries =
      Keyed.insert key value (Keyed.mapHeld Slot.value w.store.entries) := by
    rw [hwrite, Keyed.mapHeld_insert]
  rw [writeOver, Keyed.find?_mapHeld]
  cases hfind : w.store.find? key with
  | none =>
    rw [find?] at hfind
    rw [hfind]
    exact ⟨hstays, hentries, rfl⟩
  | some slot =>
    have hlive := h.isLapsed_eq (Keyed.mem_of_find? hfind) now
    rw [find?] at hfind
    dsimp only at hlive
    rw [hfind, store_disarm]
    refine ⟨hstays, hentries, ?_⟩
    simp only [removal, hlive]
    rfl

private theorem carryOut_of_stays (h : Stays w.store) (now : Instant) (key : K) (deed : Deed V) :
    Stays (carryOut now key deed w).2.store ∧
      Keyed.mapHeld Slot.value (carryOut now key deed w).2.store.entries =
        deed.applied key (Keyed.mapHeld Slot.value w.store.entries) ∧
      (carryOut now key deed w).1 =
        deed.removed key (Keyed.find? key (Keyed.mapHeld Slot.value w.store.entries)) := by
  have hnothing (hfind : w.store.find? key = none) : takeOut now key w = ([], w) := by
    rw [takeOut, hfind]
  unfold carryOut
  rw [h.live?_eq now key]
  cases deed with
  | store value => exact writeOver_of_stays h now key value
  | remove =>
    cases hfind : w.store.find? key with
    | none => exact takeOut_of_stays h now key
    | some slot => exact takeOut_of_stays h now key
  | ignore | abandon =>
    cases w.store.find? key <;> exact ⟨h, rfl, rfl⟩
  | read =>
    cases hfind : w.store.find? key with
    | none =>
      rw [hnothing hfind]
      exact ⟨h, rfl, rfl⟩
    | some slot =>
      have hread : w.store.resetsOnRead = false := by rw [resetsOnRead, h.expiry]
      simp only [readOut, hread]
      exact ⟨h, rfl, rfl⟩
  | keep =>
    cases hfind : w.store.find? key with
    | none =>
      rw [hnothing hfind]
      exact ⟨h, rfl, rfl⟩
    | some slot => exact ⟨h, rfl, rfl⟩

private theorem foldl_takeOut_of_stays [DecidableEq V] (bound : Nat) (now : Instant)
    (hquiet : w.IsQuiet)
    (h : Stays w.store) {entries : List (K × Slot V)} (hdistinct : Keyed.Distinct entries)
    (hentries : w.store.entries = entries) :
    let w' := (entries.map Prod.fst).foldl
      (fun w key ↦ Running.settle (Running.reportAt bound) (carryOut now key .remove w)) w
    w.Tells ((Keyed.mapHeld Slot.value entries).map fun e ↦ ⟨e.1, e.2, .explicit⟩) w' ∧
      Stays w'.store ∧ w'.store.entries = [] := by
  induction entries generalizing w with
  | nil => exact ⟨.of_frames (.refl w), h, hentries⟩
  | cons e rest ih =>
    obtain ⟨hnot, hrest⟩ := Keyed.distinct_cons.mp hdistinct
    obtain ⟨hstays, _, hremoved⟩ := carryOut_of_stays h now e.1 .remove
    have hframes := carryOut_frames e.1 w now .remove
    obtain ⟨hstore, _, hquiet'⟩ := Running.settle_of_quiet hquiet hframes bound
    have htells := Running.Tells.settle hquiet hframes bound
    have hleft : (carryOut now e.1 .remove w).2.store.entries = rest := by
      have htaken : carryOut now e.1 .remove w = takeOut now e.1 w := by
        unfold carryOut
        cases w.store.live? now e.1 <;> rfl
      have herase : Keyed.erase e.1 (e :: rest) = Keyed.erase e.1 rest :=
        Keyed.erase_cons_self e.2 rest
      rw [htaken, entries_takeOut, hentries, herase,
        Keyed.erase_of_find?_eq_none (Keyed.find?_eq_none_iff.mpr hnot)]
    have hone : (carryOut now e.1 .remove w).1 = [⟨e.1, e.2.value, .explicit⟩] := by
      rw [hremoved, hentries, Keyed.find?_mapHeld]
      simp [Keyed.find?, Deed.removed]
    rw [hone] at htells
    obtain ⟨htells', hstays', hempty⟩ := ih hquiet' (hstore ▸ hstays) hrest (hstore ▸ hleft)
    exact ⟨htells.trans htells', hstays', hempty⟩

end

instance : PlainEngine (Timed K V) K V where
  contents s := Keyed.mapHeld Slot.value s.entries
  IsPlain := Stays
  carried now key deed w := carryOut now key deed w
  exists_reading {w} _ h _ := by
    refine ⟨w.host.start, ?_⟩
    simp only [Engine.reading, h.expiry]
  serves report now w h := by
    have hlive : (fun key ↦ Keyed.find? key (Keyed.mapHeld Slot.value w.store.entries)) =
        fun key ↦ LawfulEngine.current? now key w := by
      funext key
      rw [Keyed.find?_mapHeld]
      exact (congrArg (Option.map Slot.value) (h.live?_eq now key)).symm
    rw [hlive]
    exact Running.serves_of_lawful report now w
  carried_eq now key deed w h _ := by
    obtain ⟨hstays, hentries, hremoved⟩ := carryOut_of_stays h now key deed
    exact ⟨carryOut_frames key w now deed, hstays, .of_eq hentries, hremoved⟩
  size_eq report now w h _ := by
    refine ⟨w, ?_, .refl w, h, rfl⟩
    have hnone : LawfulEngine.stale now w = [] := h.lapsedKeys_eq now
    rw [LawfulEngine.size_eq, hnone, Keyed.mapHeld, List.length_map]
    rfl
  clear_tells bound now w hquiet h hdistinct _ := by
    have hclear : Engine.clear (Running.reportAt bound) now w =
        (w.store.entries.map Prod.fst).foldl
          (fun w key ↦ Running.settle (Running.reportAt bound) (carryOut now key .remove w)) w :=
      LawfulEngine.clear_eq (Running.reportAt bound) now w
    have hkeys : Keyed.Distinct w.store.entries :=
      Keyed.distinct_of_keys_eq (Keyed.keys_mapHeld Slot.value w.store.entries) hdistinct
    obtain ⟨htells, hstays, hempty⟩ := foldl_takeOut_of_stays bound now hquiet h hkeys rfl
    rw [hclear, hempty]
    exact ⟨htells, hstays, rfl⟩
  teardown_eq {w} h := by
    have hstore := store_teardown w
    refine ⟨teardown_frames w, ?_, ?_⟩
    · rw [hstore]
      exact ⟨h.expiry, fun e he ↦ absurd he List.not_mem_nil⟩
    · rw [hstore]
      rfl

end Timed

end

end Caching
