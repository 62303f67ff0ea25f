import Caching.Engine.Deferred
import Caching.Proofs.Closing.Engines

/-!
# Plans of the deferred engine

Maintenance is a long chain of small changes, each of which may be reported: whatever a report does,
the rest of the chain takes the entries as it finds them. Only the store changes on the way.
-/

namespace Caching.Deferred

variable {K V : Type} [DecidableEq K]

section

variable (now : Instant) (key : K) (w : Running (Deferred K V) K V)

/-- What storing a value changes, and the removals to be told. -/
def storing (value : V) : List (Removal K V) × Running (Deferred K V) K V :=
  let s := w.store
  ((s.find? key).toList.map fun old ↦ ⟨key, old.value, s.cause now old .replaced⟩,
    { w with store := { s with entries := Keyed.moveToEnd key ⟨value, now, now⟩ s.entries } })

/-- What taking a key out changes, and the removals to be told. -/
def dropping (otherwise : RemovalCause) : List (Removal K V) × Running (Deferred K V) K V :=
  let s := w.store
  match s.find? key with
  | some e =>
    ([⟨key, e.value, s.cause now e otherwise⟩],
      { w with store := { s with entries := Keyed.erase key s.entries } })
  | none => ([], w)

/-- What taking a lapsed key out changes, and the removals to be told. -/
def expiring : List (Removal K V) × Running (Deferred K V) K V :=
  match w.store.find? key with
  | some e => if w.store.isLapsed now e then dropping now key w .expired else ([], w)
  | none => ([], w)

/-- What making room changes, and the removals to be told. -/
def evicting : List (Removal K V) × Running (Deferred K V) K V :=
  match w.store.isOver, w.store.entries with
  | true, (oldest, _) :: _ => dropping now oldest w .size
  | _, _ => ([], w)

/-- The entries that were cleared, to be told. -/
def burying : List (Removal K V) × Running (Deferred K V) K V :=
  let s := w.store
  (s.doomed.map fun e ↦ ⟨e.1, e.2.value, s.cause now e.2 .explicit⟩,
    { w with store := { s with doomed := [] } })

/-- Maintenance. -/
def maintaining : Plan (Deferred K V) K V :=
  (Plan.settle (burying now w)).andThen fun w ↦
    (Plan.each (fun key w ↦ .settle (expiring now key w))
      (w.store.entries.map Prod.fst) w).andThen fun w ↦
        (Plan.each (fun _ w ↦ .settle (evicting now w))
          (List.range w.store.entries.length) w).andThen fun w ↦
            .done { w with store := { w.store with counted := w.store.entries.length } }

/-- Maintenance, unless a report is being made. -/
def maintainingOutside : Plan (Deferred K V) K V :=
  if w.dispatching = 0 then maintaining now w else .done w

/-- The use of a key. -/
def touching : Running (Deferred K V) K V :=
  { w with store := w.store.touch now key }

/-- What a change of the live value comes to. -/
def altering (decide : Option V → Except Abort (Change V)) : Plan (Deferred K V) K V :=
  let previous := (w.store.live? now key).map Stamped.value
  let w := touching now key w
  match decide previous with
  | .ok (.store value) => .settle (storing now key w value)
  | .ok .remove =>
    if previous.isSome then .settle (dropping now key w .explicit) else .done w
  | .ok .keep | .error _ => .done w

variable [DecidableEq V]

/-- What is done at an operation of an open cache, other than to close it. -/
def serve : Operation K V → Plan (Deferred K V) K V
  | .get key => .done (touching now key w)
  | .put key value => .settle (storing now key w value)
  | .putIfAbsent key value =>
    if (w.store.live? now key).isSome then .done (touching now key w)
    else .settle (storing now key w value)
  | .replace key value =>
    if (w.store.live? now key).isSome then .settle (storing now key w value) else .done w
  | .replaceIf key expected value =>
    altering now key w fun v ↦ .ok (Running.replaceExpected expected value v)
  | .compute key remap => altering now key w fun v ↦ (remap v).map .ofRemapped
  | .computeIfPresent key remap => altering now key w (Running.mapPresent remap)
  | .merge key value combine => altering now key w (Running.combined value combine)
  | .remove key => .settle (dropping now key w .explicit)
  | .size => maintainingOutside now w
  | .clear => maintainingOutside now { w with
      store := { w.store with entries := [], doomed := w.store.doomed ++ w.store.entries } }
  | .containsKey _ | .close | .state | .provider => .done w

end

section

variable (report : Report (Deferred K V) K V) (now : Instant) (key : K)
  (w : Running (Deferred K V) K V)

private theorem store_eq_settle (value : V) :
    store report now key value w = Running.settle report (storing now key w value) := by
  rw [store, storing]
  cases w.store.find? key <;> rfl

private theorem drop_eq_settle (otherwise : RemovalCause) :
    (drop report now key otherwise w).2 =
      Running.settle report (dropping now key w otherwise) := by
  rw [drop, dropping]
  cases w.store.find? key <;> rfl

private theorem expire_eq_settle :
    expire report now key w = Running.settle report (expiring now key w) := by
  rw [expire, expiring]
  cases w.store.find? key with
  | none => rfl
  | some e =>
    dsimp only
    rw [drop_eq_settle]
    split <;> rfl

private theorem evict_eq_settle : evict report now w = Running.settle report (evicting now w) := by
  rw [evict, evicting]
  cases w.store.isOver with
  | false => rfl
  | true =>
    cases w.store.entries with
    | nil => rfl
    | cons e rest => exact drop_eq_settle report now e.1 w .size

omit [DecidableEq K] in
private theorem bury_eq_settle : bury report now w = Running.settle report (burying now w) := by
  rw [bury, burying, Running.settle, Running.tell, List.foldl_map]

/-- The plan of maintenance. -/
theorem run_maintaining : (maintaining now w).run report = maintain report now w := by
  simp only [maintaining, maintain, Plan.run_andThen, Plan.run_settle, Plan.run_each,
    ← bury_eq_settle, ← expire_eq_settle, ← evict_eq_settle]
  rfl

/-- The plan of maintenance outside of reports. -/
theorem run_maintainingOutside :
    (maintainingOutside now w).run report = maintainOutside report now w := by
  rw [maintainingOutside, maintainOutside]
  split
  · exact run_maintaining report now w
  · rfl

/-- The plan of a change. -/
theorem run_altering (decide : Option V → Except Abort (Change V)) :
    (altering now key w decide).run report = (Engine.alter report now key decide w).2 := by
  simp only [altering, Engine.alter, touching]
  rcases decide ((w.store.live? now key).map Stamped.value) with abort | (_ | value | _)
  · rfl
  · rfl
  · simp only [store_eq_settle, Plan.run_settle]
  · cases w.store.live? now key with
    | none => rfl
    | some previous =>
      simp only [Option.map_some, Option.isSome_some, if_true, drop_eq_settle, Plan.run_settle]

variable [DecidableEq V]

/-- The plan of an operation. -/
theorem run_serve {operation : Operation K V} (hclose : operation ≠ .close)
    (hactive : w.phase = .active) (hnow : Engine.reading w = .ok now) :
    (Running.performWith report operation w).2 = (serve now w operation).run report := by
  have haltered (shown : Option V → List (Option V)) (key : K)
      (decide : Option V → Except Abort (Change V)) :
      (Running.altered shown (Engine.alter report now key decide w)).2 =
        (altering now key w decide).run report := by
    rw [run_altering, Running.altered]
    split <;> rfl
  cases operation
  case state => rfl
  case provider => rfl
  case close => exact absurd rfl hclose
  all_goals rw [Running.performWith, Running.guarded_of_reading hactive hnow]
  case get key => rfl
  case containsKey key => rfl
  case put key value =>
    simp only [Running.valued, Engine.put, store_eq_settle, serve, Plan.run_settle]
  case putIfAbsent key value =>
    simp only [Running.valued, Engine.putIfAbsent, store_eq_settle, serve]
    cases w.store.live? now key with
    | none => simp only [Option.isSome_none, Bool.false_eq_true, if_false, Plan.run_settle]
    | some e => rfl
  case replace key value =>
    simp only [Running.valued, Engine.replace, store_eq_settle, serve]
    cases w.store.live? now key with
    | none => rfl
    | some e => simp only [Option.isSome_some, if_true, Plan.run_settle]
  case replaceIf key expected value =>
    simp only [serve, run_altering]
    split
    · next haltered => rw [haltered]
    · next haltered => rw [haltered]
  case compute key remap => exact haltered _ key _
  case computeIfPresent key remap => exact haltered _ key _
  case merge key value combine => exact haltered _ key _
  case remove key =>
    simp only [Running.valued, Engine.remove, drop_eq_settle, serve, Plan.run_settle]
  case size => exact (run_maintainingOutside report now w).symm
  case clear => exact (run_maintainingOutside report now _).symm

end

open Running

section

variable (own : Bool) (now : Instant) (key : K) (w : Running (Deferred K V) K V)

private theorem dropping_passes (otherwise : RemovalCause) :
    w.Passes (IsUntimed own) (dropping now key w otherwise).2 := by
  rw [dropping]
  split
  · exact IsUntimed.passes own w _
  · exact .refl w

private theorem expiring_passes : w.Passes (IsUntimed own) (expiring now key w).2 := by
  rw [expiring]
  split
  · split
    · exact dropping_passes own now key w .expired
    · exact .refl w
  · exact .refl w

private theorem evicting_passes : w.Passes (IsUntimed own) (evicting now w).2 := by
  rw [evicting]
  split
  · exact dropping_passes own now _ w .size
  · exact .refl w

private theorem maintaining_moves : (maintaining now w).Moves (IsUntimed own) w := by
  refine (Plan.Moves.settle (IsUntimed.passes own w _)).andThen fun w ↦ ?_
  refine (Plan.Moves.each (fun key w ↦ .settle (expiring_passes own now key w)) _ w).andThen ?_
  intro w
  refine (Plan.Moves.each (fun _ w ↦ .settle (evicting_passes own now w)) _ w).andThen ?_
  intro w
  exact IsUntimed.passes own w _

private theorem maintainingOutside_moves :
    (maintainingOutside now w).Moves (IsUntimed own) w := by
  rw [maintainingOutside]
  split
  · exact maintaining_moves own now w
  · exact Passes.refl w

private theorem altering_moves (decide : Option V → Except Abort (Change V)) :
    (altering now key w decide).Moves (IsUntimed own) w := by
  have htouch := IsUntimed.passes own w (w.store.touch now key)
  rw [altering]
  split
  · exact .settle (htouch.trans (IsUntimed.passes own _ _))
  · split
    · exact .settle (htouch.trans (dropping_passes own now key _ .explicit))
    · exact htouch
  · exact htouch
  · exact htouch

variable [DecidableEq V]

/-- An operation changes the store only. -/
theorem serve_moves (operation : Operation K V) :
    (serve now w operation).Moves (IsUntimed own) w := by
  have htouch (key : K) := IsUntimed.passes own w (w.store.touch now key)
  have hstore (key : K) (value : V) :
      (Plan.settle (storing now key w value)).Moves (IsUntimed own) w :=
    .settle (IsUntimed.passes own w _)
  cases operation with
  | get key => exact htouch key
  | put key value => exact hstore key value
  | putIfAbsent key value =>
    rw [serve]
    split
    · exact htouch key
    · exact hstore key value
  | replace key value =>
    rw [serve]
    split
    · exact hstore key value
    · exact Passes.refl w
  | replaceIf key | compute key | computeIfPresent key | merge key =>
    rw [serve]
    exact altering_moves own now key w _
  | remove key => exact .settle (dropping_passes own now key w .explicit)
  | size => exact maintainingOutside_moves own now w
  | clear => exact .after (IsUntimed.passes own w _) (maintainingOutside_moves own now _)
  | containsKey | close | state | provider => exact Passes.refl w

instance : PlannedEngine (Deferred K V) K V where
  serve now operation w := serve now w operation
  lapse _ _ := .done
  upkeep w :=
    match w.host.now with
    | .ok now => maintaining now w
    | .error _ => .done w
  IsTended := IsUntimed
  serve_eq report now _ w hclose hactive hnow := run_serve report now w hclose hactive hnow
  lapse_eq _ _ _ _ := rfl
  upkeep_eq report w := by
    simp only [Engine.upkeep]
    cases w.host.now with
    | ok now => exact (run_maintaining report now w).symm
    | error abort => rfl
  serve_moves own now operation w _ := serve_moves own now w operation
  lapse_moves _ _ _ := .refl _
  upkeep_moves own w := by
    cases w.host.now with
    | ok now => exact maintaining_moves own now w
    | error abort => exact .refl w
  aside h := h.aside
  cancelled_of_closed h _ _ he key stamp hbody := absurd hbody (h.ne_lapse he key stamp)
  stopped_of_closed h _ := h.not_own.elim
  teardown_frames w := by
    simp only [Engine.teardown]
    cases w.store.chain with
    | none => exact ⟨_, w.agenda, w.log, rfl⟩
    | some chain => exact ⟨_, w.agenda.cancel chain, w.log, rfl⟩
  teardown_stopped w _ := by
    simp only [Engine.teardown]
    cases w.store.chain with
    | none => rfl
    | some chain => exact w.agenda.stopped_cancel chain
  teardown_tended {own w} h := by
    simp only [Engine.teardown]
    cases w.store.chain with
    | none => exact ⟨h.timers, h.owns⟩
    | some chain =>
      have haside := h.aside (Agenda.yields_cancel w.agenda chain) w.dispatching w.listener w.heard
        w.host w.log
      exact ⟨haside.timers, haside.owns⟩

end

end Caching.Deferred
