import Caching.Proofs.Plain.Engines

/-!
# The deferred engine as a plain map

Without a bound and without expiry nothing is left for later but the report of a cleared entry,
which is made before the clearing ends. Maintenance then only counts.
-/

namespace Caching.Deferred

variable {K V : Type} [DecidableEq K]

/-- There is neither a bound nor expiry, and nothing waits for maintenance. -/
structure IsPrompt (s : Deferred K V) : Prop where
  bound : s.bound = none
  expiry : s.expiry = none
  doomed : s.doomed = []

/-- What a deed changes where nothing is left for later, and the removals to be told. -/
def carryOut (now : Instant) (key : K) (deed : Deed V) (w : Running (Deferred K V) K V) :
    List (Removal K V) × Running (Deferred K V) K V :=
  let s := w.store
  (deed.removed key ((s.find? key).map Stamped.value),
    match deed with
    | .ignore => w
    | .abandon | .read | .keep => { w with store := s.touch now key }
    | .store value =>
      { w with store := { s with entries := Keyed.moveToEnd key ⟨value, now, now⟩ s.entries } }
    | .remove => { w with store := { s with entries := Keyed.erase key s.entries } })

private theorem carryOut_frames (now : Instant) (key : K) (deed : Deed V)
    (w : Running (Deferred K V) K V) : w.Frames (carryOut now key deed w).2 := by
  cases deed with
  | ignore => exact .refl w
  | _ => exact ⟨_, w.agenda, w.log, rfl⟩

namespace IsPrompt

variable {s : Deferred K V}

omit [DecidableEq K] in
private theorem isLapsed_eq (h : IsPrompt s) (now : Instant) (e : Stamped V) :
    s.isLapsed now e = false := by
  rw [isLapsed, h.expiry]

omit [DecidableEq K] in
private theorem cause_eq (h : IsPrompt s) (now : Instant) (e : Stamped V)
    (otherwise : RemovalCause) : s.cause now e otherwise = otherwise := by
  rw [cause, h.isLapsed_eq now e]
  rfl

private theorem live?_eq (h : IsPrompt s) (now : Instant) (key : K) :
    s.live? now key = s.find? key := by
  rw [live?]
  cases hfind : s.find? key with
  | none => rfl
  | some e => simp [h.isLapsed_eq now e]

private theorem touch_eq (h : IsPrompt s) (now : Instant) (key : K) :
    s.touch now key =
      match s.find? key with
      | some e => { s with entries := Keyed.moveToEnd key { e with used := now } s.entries }
      | none => s := by
  cases hfind : s.find? key <;> rw [touch, h.live?_eq now key, hfind]

private theorem touch_spec (h : IsPrompt s) (now : Instant) (key : K) :
    ∃ entries, s.touch now key = { s with entries } ∧
      Keyed.erase key entries = Keyed.erase key s.entries ∧
      (Keyed.find? key entries).map Stamped.value =
        (Keyed.find? key s.entries).map Stamped.value := by
  rw [h.touch_eq now key]
  cases hfind : s.find? key with
  | none => exact ⟨s.entries, rfl, rfl, rfl⟩
  | some e =>
    refine ⟨_, rfl, Keyed.erase_moveToEnd key _ s.entries, ?_⟩
    rw [find?] at hfind
    rw [Keyed.find?_moveToEnd_self, hfind]
    rfl

end IsPrompt

private theorem mapHeld_moveToEnd_perm {entries : List (K × Stamped V)}
    (hdistinct : Keyed.Distinct entries) (key : K) (e : Stamped V) :
    (Keyed.mapHeld Stamped.value (Keyed.moveToEnd key e entries)).Perm
      (Keyed.insert key e.value (Keyed.mapHeld Stamped.value entries)) := by
  rw [← Keyed.mapHeld_insert]
  exact ((List.perm_append_singleton _ _).trans (Keyed.insert_perm hdistinct key e).symm).map _

section

variable {w : Running (Deferred K V) K V} (h : IsPrompt w.store)
include h

private theorem carryOut_spec (now : Instant) (key : K) (deed : Deed V)
    (hdistinct : Keyed.Distinct w.store.entries) :
    IsPrompt (carryOut now key deed w).2.store ∧
      (Keyed.mapHeld Stamped.value (carryOut now key deed w).2.store.entries).Perm
        (deed.applied key (Keyed.mapHeld Stamped.value w.store.entries)) := by
  cases deed with
  | ignore => exact ⟨h, .refl _⟩
  | store value =>
    exact ⟨⟨h.bound, h.expiry, h.doomed⟩, mapHeld_moveToEnd_perm hdistinct key _⟩
  | remove => exact ⟨⟨h.bound, h.expiry, h.doomed⟩, .of_eq (Keyed.mapHeld_erase _ _ _)⟩
  | abandon | read | keep =>
    simp only [carryOut, Deed.applied, h.touch_eq now key]
    cases hfind : w.store.find? key with
    | none => exact ⟨h, .refl _⟩
    | some e =>
      refine ⟨⟨h.bound, h.expiry, h.doomed⟩, (mapHeld_moveToEnd_perm hdistinct key _).trans ?_⟩
      rw [find?] at hfind
      rw [Keyed.insert_of_find? (by rw [Keyed.find?_mapHeld, hfind]; rfl)]

private theorem store_eq (report : Report (Deferred K V) K V) (now : Instant) (key : K) (value : V)
    {entries : List (K × Stamped V)}
    (herase : Keyed.erase key entries = Keyed.erase key w.store.entries)
    (hvalue : (Keyed.find? key entries).map Stamped.value =
      (Keyed.find? key w.store.entries).map Stamped.value) :
    store report now key value { w with store := { w.store with entries } } =
      Running.settle report (carryOut now key (.store value) w) := by
  have hcause (e : Stamped V) : cause { w.store with entries } now e .replaced = .replaced :=
    IsPrompt.cause_eq ⟨h.bound, h.expiry, h.doomed⟩ now e .replaced
  simp only [store, carryOut, find?, Keyed.moveToEnd, herase, hcause, ← hvalue, Running.settle,
    Deed.removed]
  cases Keyed.find? key entries <;> rfl

private theorem drop_eq (report : Report (Deferred K V) K V) (now : Instant) (key : K)
    {entries : List (K × Stamped V)}
    (herase : Keyed.erase key entries = Keyed.erase key w.store.entries)
    (hvalue : (Keyed.find? key entries).map Stamped.value =
      (Keyed.find? key w.store.entries).map Stamped.value)
    (hsame : Keyed.find? key entries = none → entries = w.store.entries) :
    drop report now key .explicit { w with store := { w.store with entries } } =
      ((Keyed.find? key w.store.entries).map Stamped.value,
        Running.settle report (carryOut now key .remove w)) := by
  have hcause (e : Stamped V) : cause { w.store with entries } now e .explicit = .explicit :=
    IsPrompt.cause_eq ⟨h.bound, h.expiry, h.doomed⟩ now e .explicit
  simp only [drop, carryOut, find?, herase, hcause, ← hvalue, Running.settle, Deed.removed]
  cases hfind : Keyed.find? key entries with
  | some e => rfl
  | none =>
    have hgone : Keyed.find? key w.store.entries = none := by
      simpa [hfind] using hvalue.symm
    rw [hsame hfind, Keyed.erase_of_find?_eq_none hgone]
    rfl

/-- All operations on one key are served by deeds. -/
theorem serves_of_prompt (report : Report (Deferred K V) K V) (now : Instant) :
    Running.ServesByDeeds report now w
      (fun key ↦ Keyed.find? key (Keyed.mapHeld Stamped.value w.store.entries))
      (fun key deed ↦ carryOut now key deed w) := by
  have hlive (key : K) : (w.store.live? now key).map Stamped.value =
      Keyed.find? key (Keyed.mapHeld Stamped.value w.store.entries) := by
    rw [h.live?_eq now key, Keyed.find?_mapHeld, find?]
  have hstore (key : K) (value : V) : store report now key value w =
      Running.settle report (carryOut now key (.store value) w) :=
    store_eq h report now key value rfl rfl
  have hdrop (key : K) : drop report now key .explicit w =
      (Keyed.find? key (Keyed.mapHeld Stamped.value w.store.entries),
        Running.settle report (carryOut now key .remove w)) := by
    rw [Keyed.find?_mapHeld]
    exact drop_eq h report now key rfl rfl fun _ ↦ rfl
  refine ⟨fun _ ↦ rfl, fun key ↦ ?_, fun key value ↦ ?_, fun key value ↦ ?_, fun key value ↦ ?_,
    fun key decide ↦ ?_, fun key ↦ ?_, fun key ↦ ?_⟩
  · rw [← hlive]
    rfl
  · rw [← hlive, ← hstore]
    rfl
  · simp only [← hlive, Engine.putIfAbsent]
    cases w.store.live? now key with
    | some e => rfl
    | none => exact congrArg _ (hstore key value)
  · simp only [← hlive, Engine.replace]
    cases hfind : w.store.live? now key with
    | some e => exact congrArg _ (hstore key value)
    | none =>
      have htouch : w.store.touch now key = w.store := by rw [touch, hfind]
      simp only [carryOut, htouch]
      rfl
  · obtain ⟨entries, htouch, herase, hvalue⟩ := h.touch_spec now key
    simp only [Engine.alter, hlive]
    generalize hcurrent : Keyed.find? key (Keyed.mapHeld Stamped.value w.store.entries) = current
    rw [Keyed.find?_mapHeld] at hcurrent
    rcases decide current with abort | (_ | value | _)
    · rfl
    · rfl
    · simp only [htouch, store_eq h report now key value herase hvalue]
    · cases current with
      | some current =>
        have hfound : Keyed.find? key entries ≠ none := by
          intro hnone
          rw [hcurrent, hnone] at hvalue
          cases hvalue
        simp only [htouch, drop_eq h report now key herase hvalue fun hnone ↦ (hfound hnone).elim]
      | none =>
        have hgone : Keyed.find? key w.store.entries = none := Option.map_eq_none_iff.mp hcurrent
        have hsame : w.store.touch now key = w.store := by
          rw [h.touch_eq now key, find?, hgone]
        simp only [hsame, carryOut, Keyed.erase_of_find?_eq_none hgone, find?, hgone]
        rfl
  · exact hdrop key
  · rw [← hlive, Option.isSome_map]
    rfl

private theorem expire_of_prompt (report : Report (Deferred K V) K V) (now : Instant) (key : K) :
    expire report now key w = w := by
  rw [expire]
  cases w.store.find? key with
  | none => rfl
  | some e => simp [h.isLapsed_eq now e]

private theorem evict_of_prompt (report : Report (Deferred K V) K V) (now : Instant) :
    evict report now w = w := by
  have hover : w.store.isOver = false := by rw [isOver, h.bound]
  rw [evict, hover]

omit [DecidableEq K] in
private theorem bury_of_prompt (report : Report (Deferred K V) K V) (now : Instant) :
    bury report now w = w := by
  obtain ⟨⟨bound, expiry, entries, doomed, counted, chain⟩, _⟩ := w
  have hdoomed : doomed = [] := h.doomed
  subst hdoomed
  rfl

end

private theorem maintain_eq {w : Running (Deferred K V) K V} {report : Report (Deferred K V) K V}
    {now : Instant} (h : IsPrompt (bury report now w).store) : maintain report now w =
      let w := bury report now w
      { w with store := { w.store with counted := w.store.entries.length } } := by
  have hexpire (keys : List K) : keys.foldl (fun w key ↦ expire report now key w)
      (bury report now w) = bury report now w := by
    induction keys with
    | nil => rfl
    | cons key rest ih => rw [List.foldl_cons, expire_of_prompt h, ih]
  have hevict (rounds : List Nat) : rounds.foldl (fun w _ ↦ evict report now w)
      (bury report now w) = bury report now w := by
    induction rounds with
    | nil => rfl
    | cons round rest ih => rw [List.foldl_cons, evict_of_prompt h, ih]
  simp only [maintain, hexpire, hevict]

/-- The entries are cleared, and their reports left for maintenance. -/
def doom (w : Running (Deferred K V) K V) : Running (Deferred K V) K V :=
  let s := w.store
  { w with store := { s with entries := [], doomed := s.doomed ++ s.entries } }

/-- What clearing changes where nothing is left for later, and the removals to be told. -/
def sweep (w : Running (Deferred K V) K V) : List (Removal K V) × Running (Deferred K V) K V :=
  ((Keyed.mapHeld Stamped.value w.store.entries).map fun e ↦ ⟨e.1, e.2, .explicit⟩,
    { w with store := { w.store with entries := [] } })

private theorem size_of_prompt {w : Running (Deferred K V) K V} (h : IsPrompt w.store)
    (hdispatching : w.dispatching = 0) (report : Report (Deferred K V) K V) (now : Instant) :
    Engine.size report now w = (w.store.entries.length,
      { w with store := { w.store with counted := w.store.entries.length } }) := by
  have hbury := bury_of_prompt h report now
  have hmaintain := maintain_eq (hbury.symm ▸ h)
  rw [hbury] at hmaintain
  simp only [Engine.size, maintainOutside, if_pos hdispatching, hmaintain]

omit [DecidableEq K] in
private theorem bury_doom {w : Running (Deferred K V) K V} (h : IsPrompt w.store)
    (report : Report (Deferred K V) K V) (now : Instant) :
    bury report now (doom w) = Running.settle report (sweep w) := by
  obtain ⟨⟨limit, expiry, entries, doomed, counted, chain⟩, _⟩ := w
  have hdoomed : doomed = [] := h.doomed
  have hexpiry : expiry = none := h.expiry
  subst hdoomed hexpiry
  simp only [bury, doom, sweep, Running.settle, Running.tell, Keyed.mapHeld, List.foldl_map,
    List.nil_append]
  rfl

private theorem clear_of_prompt [DecidableEq V] {w : Running (Deferred K V) K V}
    (h : IsPrompt w.store)
    (hquiet : w.IsQuiet) (hdispatching : w.dispatching = 0) (bound : Nat) (now : Instant) :
    w.Tells (sweep w).1 (Engine.clear (Running.reportAt bound) now w) ∧
      IsPrompt (Engine.clear (Running.reportAt bound) now w).store ∧
      (Engine.clear (Running.reportAt bound) now w).store.entries = [] := by
  have hframes : w.Frames (sweep w).2 := ⟨_, w.agenda, w.log, rfl⟩
  have hbury := bury_doom h (Running.reportAt bound) now
  obtain ⟨hstore, _⟩ := Running.settle_of_quiet hquiet hframes bound
  have hprompt : IsPrompt (Running.settle (Running.reportAt bound) (sweep w)).store := by
    rw [hstore]
    exact ⟨h.bound, h.expiry, h.doomed⟩
  have hclear : Engine.clear (Running.reportAt bound) now w =
      maintain (Running.reportAt bound) now (doom w) := by
    simp only [Engine.clear, maintainOutside, if_pos hdispatching]
    rfl
  rw [hclear, maintain_eq (hbury.symm ▸ hprompt), hbury]
  refine ⟨?_, ⟨hprompt.bound, hprompt.expiry, hprompt.doomed⟩, ?_⟩
  · rw [← List.append_nil (sweep w).1]
    exact (Running.Tells.settle hquiet hframes bound).trans (.of_frames ⟨_, _, _, rfl⟩)
  · simp only [hstore]
    rfl

instance : PlainEngine (Deferred K V) K V where
  contents s := Keyed.mapHeld Stamped.value s.entries
  IsPlain := IsPrompt
  carried now key deed w := carryOut now key deed w
  exists_reading _ hnow := ⟨_, hnow⟩
  serves report now w h := serves_of_prompt h report now
  carried_eq now key deed w h hdistinct := by
    obtain ⟨hprompt, hperm⟩ := carryOut_spec h now key deed
      (Keyed.distinct_of_keys_eq (Keyed.keys_mapHeld Stamped.value w.store.entries) hdistinct)
    refine ⟨carryOut_frames now key deed w, hprompt, hperm, ?_⟩
    rw [Keyed.find?_mapHeld]
    rfl
  size_eq report now w h hdispatching := by
    refine ⟨{ w with store := { w.store with counted := w.store.entries.length } }, ?_,
      ⟨_, w.agenda, w.log, rfl⟩, ⟨h.bound, h.expiry, h.doomed⟩, rfl⟩
    rw [size_of_prompt h hdispatching, Keyed.mapHeld, List.length_map]
  clear_tells bound now w hquiet h _ hdispatching := by
    obtain ⟨htells, hprompt, hempty⟩ := clear_of_prompt h hquiet hdispatching bound now
    rw [hempty]
    exact ⟨htells, hprompt, rfl⟩
  teardown_eq {w} h := by
    simp only [Engine.teardown]
    cases w.store.chain with
    | none => exact ⟨⟨_, w.agenda, w.log, rfl⟩, ⟨h.bound, h.expiry, rfl⟩, rfl⟩
    | some chain => exact ⟨⟨_, w.agenda.cancel chain, w.log, rfl⟩, ⟨h.bound, h.expiry, rfl⟩, rfl⟩

end Caching.Deferred
