import Caching.Cache.Basic
import Caching.Proofs.Closing.Silence
import Caching.Proofs.Listener.Unnoticed

/-!
# Calling back and calling afterwards

An operation on one key makes all its changes and settles its answer before it tells of a removal,
and there is one removal at most. So a listener may answer the call with any program of operations
on the same cache: it comes to the same as running the program once the operation is over. Clearing
a recency cache takes all entries out before it tells of the first, and comes to the same as running
the programs of all its calls one after the other.
-/

namespace Caching

variable {σ K V : Type}

/-- An engine that has one removal to tell at most, whatever it does with a key. -/
class SparingEngine (σ K V : Type) [Engine σ K V] [LawfulEngine σ K V] : Prop where
  carry : ∀ (now : Instant) (key : K) (deed : Deed V) (w : Running σ K V),
    (LawfulEngine.carry now key deed w).1.length ≤ 1
  lapsed : ∀ (key : K) (stamp : Nat) (w : Running σ K V),
    (LawfulEngine.lapsed (V := V) key stamp w).1.length ≤ 1

private theorem length_map_toList {α β : Type} (f : α → β) (o : Option α) :
    (o.toList.map f).length ≤ 1 := by
  cases o with
  | none => exact Nat.zero_le 1
  | some a => exact Nat.le_refl 1

instance : SparingEngine Vacant K V where
  carry _ _ _ _ := length_map_toList _ _
  lapsed _ _ _ := Nat.zero_le 1

section

variable [DecidableEq K]

instance : SparingEngine (Recency K V) K V where
  carry _ key deed w := by
    cases deed with
    | ignore | abandon | read | keep => exact Nat.zero_le 1
    | store value => exact length_map_toList _ (w.store.push key value).1
    | remove => exact length_map_toList _ (w.store.find? key)
  lapsed _ _ _ := Nat.zero_le 1

namespace Timed

variable (now : Instant) (key : K) (w : Running (Timed K V) K V)

private theorem length_takeOut_le : (takeOut now key w).1.length ≤ 1 := by
  rw [takeOut]
  cases w.store.find? key with
  | none => exact Nat.zero_le 1
  | some slot => exact Nat.le_refl 1

private theorem length_writeOver_le (value : V) : (writeOver now key value w).1.length ≤ 1 := by
  rw [writeOver]
  cases w.store.find? key with
  | none => exact Nat.zero_le 1
  | some slot => exact Nat.le_refl 1

private theorem length_carryOut_le (deed : Deed V) : (carryOut now key deed w).1.length ≤ 1 := by
  unfold carryOut
  split
  case h_5 | h_6 | h_7 => exact length_takeOut_le now key w
  case h_8 => exact length_writeOver_le now key w _
  all_goals exact Nat.zero_le 1

private theorem length_comeDue_le (stamp : Nat) : (comeDue key stamp w).1.length ≤ 1 := by
  rw [comeDue]
  split
  · split
    · split
      · split
        · exact Nat.le_refl 1
        · exact Nat.zero_le 1
      · exact Nat.zero_le 1
    · exact Nat.zero_le 1
  · exact Nat.zero_le 1

end Timed

instance : SparingEngine (Timed K V) K V where
  carry now key deed w := Timed.length_carryOut_le now key w deed
  lapsed key stamp w := Timed.length_comeDue_le key w stamp

end

namespace Running

variable (reaction : Removal K V → Script (Operation K V) (Reply V) (Verdict V))
  (lasting : Removal K V → Option Payload)

/-- The cache with a listener that only records. -/
def recording (w : Running σ K V) : Running σ K V :=
  { w with listener := some ⟨[], lasting⟩ }

/-- The cache with a listener that answers the next call with a program of operations, and only
records what the program removes. -/
def calling (w : Running σ K V) : Running σ K V :=
  { w with listener := some ⟨[reaction], lasting⟩ }

variable [Engine σ K V] [DecidableEq V]

/-- Tells a listener that answers every call with a program of operations, but only records what
these programs remove. -/
def answering : Report σ K V :=
  fun removal w ↦ reportAt 1 removal (w.calling reaction lasting)

/-- Runs the programs that answer the removals, one after the other. -/
def afterwards (removals : List (Removal K V)) (w : Running σ K V) : Running σ K V :=
  removals.foldl (fun w removal ↦ (w.follow (reaction removal)).2) w

/-- Calling back came to the same as calling afterwards. A listener that only records was told of
the given removals; the results are the same, and so are the states once the programs that answer
these removals have been run. -/
structure SameAfterwards {α : Type} (w : Running σ K V) (removals : List (Removal K V))
    (called recorded : α × Running σ K V) : Prop where
  told : recorded.2.told = w.told ++ removals
  result : called.1 = recorded.1
  state : called.2.Alike (recorded.2.afterwards reaction removals)

section

variable {reaction lasting} {w w' : Running σ K V}

omit [Engine σ K V] [DecidableEq V] in
private theorem isQuiet_recording (lasting : Removal K V → Option Payload) (w : Running σ K V) :
    (w.recording lasting).IsQuiet := by
  intro listener hlistener
  cases hlistener
  rfl

omit [Engine σ K V] [DecidableEq V] in
private theorem Alike.endCall (w : Running σ K V) (removal : Removal K V) (panic : Option Payload) :
    w.Alike (w.endCall removal panic) := by
  obtain ⟨log, hend⟩ := w.endCall_eq removal panic
  rw [hend]
  exact .aside _ _ _ _ _

private theorem answering_of_listener (hlistener : w.listener = some ⟨[reaction], lasting⟩)
    (removal : Removal K V) : answering reaction lasting removal w = reportAt 1 removal w := by
  rw [answering, calling, ← hlistener]

private theorem afterwards_of_closed (h : w.phase = .closed) (removals : List (Removal K V)) :
    w.afterwards reaction removals = w := by
  induction removals with
  | nil => rfl
  | cons removal rest ih =>
    have hfirst : w.afterwards reaction (removal :: rest) =
        (w.follow (reaction removal)).2.afterwards reaction rest := rfl
    rw [hfirst, follow_of_closed h, ih]

variable [LawfulEngine σ K V] [UnawareEngine σ K V]

private theorem Alike.answering (h : w.Alike w') (hquiet : w'.IsQuiet) (removal : Removal K V) :
    (answering reaction lasting removal w).Alike (w'.follow (reaction removal)).2 ∧
      (w'.follow (reaction removal)).2.IsQuiet := by
  cases hp : w.phase with
  | closed =>
    have hclosed : (w.calling reaction lasting).phase = .closed := hp
    rw [Running.answering, reportAt_of_closed hclosed, follow_of_closed (h.phase.trans hp)]
    exact ⟨(Alike.aside _ _ _ _ _).symm.trans h, hquiet⟩
  | active =>
    have hactive : (w.calling reaction lasting).phase = .active := hp
    have hstart : (((w.calling reaction lasting).beginCall removal).recording
        lasting).AlikeInQuiet w' :=
      ⟨(Alike.aside _ _ _ _ _).symm.trans h, isQuiet_recording lasting _, hquiet⟩
    obtain ⟨-, hrun⟩ := Script.run_simulation
      (fun operation s t hrelated ↦ hrelated.performWith operation 0 t.depth)
      (reaction removal) hstart
    refine ⟨?_, hrun.right⟩
    rw [Running.answering, reportAt]
    simp only [hactive]
    -- the replies that are kept and the end of the call are no concern of the engine
    exact (Alike.endCall _ _ _).symm.trans ((Alike.aside _ _ _ _ _).symm.trans hrun.alike)

private theorem Alike.tell_answering (h : w.Alike w') (hquiet : w'.IsQuiet)
    (removals : List (Removal K V)) :
    (tell (Running.answering reaction lasting) removals w).Alike
      (w'.afterwards reaction removals) := by
  induction removals generalizing w w' with
  | nil => exact h
  | cons removal rest ih =>
    obtain ⟨hanswered, hquiet'⟩ := h.answering hquiet removal
    exact ih hanswered hquiet'

variable (reaction lasting) in
/-- A change with its calls answered comes to the same as the change with its calls recorded, and
the programs afterwards. -/
theorem settle_answering {r r' : List (Removal K V) × Running σ K V}
    (h : ChangesAlike r r') (hquiet : r'.2.IsQuiet) (bound : Nat) :
    (settle (Running.answering reaction lasting) r).Alike
      ((settle (reportAt bound) r').afterwards reaction r.1) := by
  obtain ⟨heard, log, htell, -⟩ := tell_of_quiet hquiet bound r'.1
  have halike : r.2.Alike (settle (reportAt bound) r') := by
    rw [settle, htell]
    exact h.2.trans (.aside _ _ _ _ _)
  have hquiet' : (settle (reportAt bound) r').IsQuiet := by
    rw [settle, htell]
    exact hquiet
  exact halike.tell_answering hquiet' r.1

omit [LawfulEngine σ K V] [UnawareEngine σ K V] in
private theorem settle_answering_of_single {r : List (Removal K V) × Running σ K V}
    (hlistener : r.2.listener = some ⟨[reaction], lasting⟩) (hsingle : r.1.length ≤ 1) :
    settle (Running.answering reaction lasting) r = settle (reportAt 1) r := by
  obtain ⟨removals, v⟩ := r
  match removals, hsingle with
  | [], _ => rfl
  | [removal], _ => exact answering_of_listener hlistener removal

omit [LawfulEngine σ K V] [UnawareEngine σ K V] in
private theorem told_settle {r : List (Removal K V) × Running σ K V}
    (hframes : (w.recording lasting).Frames r.2) (bound : Nat) :
    (settle (reportAt bound) r).told = w.told ++ if w.phase = .active then r.1 else [] := by
  have hquiet := (isQuiet_recording lasting w).frames hframes
  obtain ⟨heard, log, htell, htold⟩ := tell_of_quiet hquiet bound r.1
  obtain ⟨store, agenda, log', hr⟩ := hframes
  have hheeded : r.2.isHeeded = decide (w.phase = .active) := by
    rw [hr]
    rfl
  have hbefore : r.2.told = w.told := by
    rw [hr]
    rfl
  rw [settle, htell]
  refine htold.trans ?_
  rw [hheeded, hbefore]
  by_cases hactive : w.phase = .active
  · rw [if_pos (decide_eq_true hactive), if_pos hactive]
  · rw [if_neg (by simpa using hactive), if_neg hactive, List.append_nil]

end

namespace SameAfterwards

variable {reaction lasting} {α : Type} {w : Running σ K V}

private theorem unchanged (a : α) :
    SameAfterwards reaction w [] (a, w.calling reaction lasting) (a, w.recording lasting) where
  told := (List.append_nil _).symm
  result := rfl
  state := .aside _ _ _ _ _

variable [LawfulEngine σ K V] [UnawareEngine σ K V]

variable (reaction lasting) in
private theorem settle (a : α) {r r' : List (Removal K V) × Running σ K V}
    (hchange : ChangesAlike r r') (hframes : (w.recording lasting).Frames r'.2) (bound : Nat) :
    SameAfterwards reaction w (if w.phase = .active then r.1 else [])
      (a, Running.settle (answering reaction lasting) r)
      (a, Running.settle (reportAt bound) r') where
  told := by
    rw [← hchange.1]
    exact told_settle hframes bound
  result := rfl
  state := by
    have hquiet := (isQuiet_recording lasting w).frames hframes
    have hstate := settle_answering reaction lasting hchange hquiet bound
    cases hp : w.phase with
    | active => exact hstate
    | closed =>
      obtain ⟨heard, log, htell, -⟩ := tell_of_quiet hquiet bound r'.1
      obtain ⟨store, agenda, log', hr⟩ := hframes
      have hclosed : (Running.settle (reportAt bound) r').phase = .closed := by
        rw [Running.settle, htell, hr]
        exact hp
      rwa [afterwards_of_closed hclosed] at hstate

variable (reaction lasting) in
private theorem settle_of_single (a : α) {r r' : List (Removal K V) × Running σ K V}
    (hchange : ChangesAlike r r') (hframes : (w.calling reaction lasting).Frames r.2)
    (hframes' : (w.recording lasting).Frames r'.2) (hsingle : r.1.length ≤ 1) (bound : Nat) :
    ∃ removals, removals.length ≤ 1 ∧
      SameAfterwards reaction w removals (a, Running.settle (reportAt 1) r)
        (a, Running.settle (reportAt bound) r') := by
  rw [← settle_answering_of_single hframes.listener hsingle]
  refine ⟨_, ?_, settle reaction lasting a hchange hframes' bound⟩
  split
  · exact hsingle
  · exact Nat.zero_le 1

variable [SparingEngine σ K V]

open LawfulEngine

/-- An operation on one key comes to the same. -/
theorem perform {operation : Operation K V} {key : K} (hkey : operation.key? = some key)
    (w : Running σ K V) : ∃ removals, removals.length ≤ 1 ∧
      SameAfterwards reaction w removals ((w.calling reaction lasting).perform operation)
        ((w.recording lasting).perform operation) := by
  have halike : (w.calling reaction lasting).Alike (w.recording lasting) := .aside _ _ _ _ _
  rw [Running.perform, Running.perform]
  cases hp : w.phase with
  | closed =>
    have hcalling : (w.calling reaction lasting).phase = .closed := hp
    have hrecording : (w.recording lasting).phase = .closed := hp
    rw [performWith_of_closed _ hcalling, performWith_of_closed _ hrecording]
    exact ⟨[], Nat.zero_le 1, unchanged _⟩
  | active =>
    have hcalling : (w.calling reaction lasting).phase = .active := hp
    have hrecording : (w.recording lasting).phase = .active := hp
    have hreading := UnawareEngine.reading (K := K) (V := V) halike
    cases hnow : Engine.reading (w.calling reaction lasting) with
    | error abort =>
      have hserved : ¬ (operation = .close ∨ operation = .state ∨ operation = .provider) := by
        rintro (rfl | rfl | rfl) <;> cases hkey
      rw [performWith_of_unread _ hcalling hnow hserved,
        performWith_of_unread _ hrecording (hreading.trans hnow) hserved]
      exact ⟨[], Nat.zero_le 1, unchanged _⟩
    | ok now =>
      rw [performWith_of_key _ hkey hcalling hnow,
        performWith_of_key _ hkey hrecording (hreading.trans hnow), UnawareEngine.current? halike]
      exact settle_of_single reaction lasting _ (UnawareEngine.carry halike _ _ _)
        (carry_frames _ _ _ _) (carry_frames _ _ _ _) (SparingEngine.carry _ _ _ _) _

/-- The duty of an entry comes to the same. -/
theorem lapse (key : K) (stamp run : Nat) (w : Running σ K V) : ∃ removals called recorded,
    removals.length ≤ 1 ∧
      attend (.lapse key stamp) run (w.calling reaction lasting) = some called ∧
      attend (.lapse key stamp) run (w.recording lasting) = some recorded ∧
      SameAfterwards reaction w removals called recorded := by
  have halike : (w.calling reaction lasting).Alike (w.recording lasting) := .aside _ _ _ _ _
  rw [attend, attend, lapse_eq, lapse_eq]
  obtain ⟨removals, hsingle, hsame⟩ := settle_of_single reaction lasting false
    (UnawareEngine.lapsed halike key stamp) (lapsed_frames key stamp _)
    (lapsed_frames key stamp _) (SparingEngine.lapsed key stamp _) (w.recording lasting).depth
  exact ⟨removals, _, _, hsingle, rfl, rfl, hsame⟩

omit [Engine σ K V] [LawfulEngine σ K V] [UnawareEngine σ K V] [SparingEngine σ K V] in
/-- Clearing a recency cache comes to the same. -/
theorem clear [DecidableEq K] (w : Running (Recency K V) K V) :
    SameAfterwards reaction w
      (if w.phase = .active then w.store.entries.map fun e ↦ ⟨e.1, e.2, .explicit⟩ else [])
      (performWith (answering reaction lasting) .clear (w.calling reaction lasting))
      ((w.recording lasting).perform .clear) := by
  have halike : (w.calling reaction lasting).Alike (w.recording lasting) := .aside _ _ _ _ _
  rw [Running.perform]
  cases hp : w.phase with
  | closed =>
    have hcalling : (w.calling reaction lasting).phase = .closed := hp
    have hrecording : (w.recording lasting).phase = .closed := hp
    rw [performWith_of_closed _ hcalling, performWith_of_closed _ hrecording]
    exact unchanged _
  | active =>
    have hcalling : (w.calling reaction lasting).phase = .active := hp
    have hrecording : (w.recording lasting).phase = .active := hp
    simp only [performWith]
    rw [guarded_of_reading hcalling rfl, guarded_of_reading hrecording rfl, clear_eq, clear_eq]
    have hsame := settle reaction lasting (Reply.ok .done : Reply V) (UnawareEngine.sweep halike)
      (sweep_frames (w.recording lasting)) (w.recording lasting).depth
    rw [hp] at hsame
    exact hsame

end SameAfterwards

/-- On a cache that does not defer its work, calling back is calling afterwards. An operation on one
key and the duty of an entry have one removal to tell at most; if the listener answers that call
with a program of operations on the same cache, which may store under the same key or close the
cache, then the result is the same as with a listener that only records, and the state is the same
as when the program is run after the operation. Clearing a recency cache tells of its entries in
their order, and comes to the same as running the programs of all calls after it. -/
theorem answers_as_afterwards [DecidableEq K] (kind : Kind) (hkind : kind ≠ .deferred)
    (reaction : Removal K V → Script (Operation K V) (Reply V) (Verdict V))
    (lasting : Removal K V → Option Payload) :
    (∀ (operation : Operation K V) key, operation.key? = some key →
      ∀ w : Running (kind.Store K V) K V, ∃ removals, removals.length ≤ 1 ∧
        SameAfterwards reaction w removals ((w.calling reaction lasting).perform operation)
          ((w.recording lasting).perform operation)) ∧
      (∀ key stamp run, ∀ w : Running (kind.Store K V) K V, ∃ removals called recorded,
        removals.length ≤ 1 ∧
          attend (.lapse key stamp) run (w.calling reaction lasting) = some called ∧
          attend (.lapse key stamp) run (w.recording lasting) = some recorded ∧
          SameAfterwards reaction w removals called recorded) ∧
      ∀ w : Running (Recency K V) K V, SameAfterwards reaction w
        (if w.phase = .active then w.store.entries.map fun e ↦ ⟨e.1, e.2, .explicit⟩ else [])
        (performWith (answering reaction lasting) .clear (w.calling reaction lasting))
        ((w.recording lasting).perform .clear) := by
  cases kind with
  | deferred => exact absurd rfl hkind
  | vacant =>
    exact ⟨fun _ _ hkey w ↦ SameAfterwards.perform (σ := Vacant) hkey w,
      fun key stamp run w ↦ SameAfterwards.lapse (σ := Vacant) key stamp run w, .clear⟩
  | recency =>
    exact ⟨fun _ _ hkey w ↦ SameAfterwards.perform (σ := Recency K V) hkey w,
      fun key stamp run w ↦ SameAfterwards.lapse (σ := Recency K V) key stamp run w, .clear⟩
  | timed =>
    exact ⟨fun _ _ hkey w ↦ SameAfterwards.perform (σ := Timed K V) hkey w,
      fun key stamp run w ↦ SameAfterwards.lapse (σ := Timed K V) key stamp run w, .clear⟩

/-- A listener that is told of a replaced value stores another one under the same key, which
replaces the new value in its turn, and closes the cache. -/
theorem answers_as_afterwards_of_closing :
    let expiry : Expiry := ⟨true, ⟨100, by decide⟩⟩
    let spec : CacheSpec Nat Nat :=
      ⟨some .dashMap, none, .postAccess, some expiry.time, none, some (.ofClock .fresh), false⟩
    let reaction : Removal Nat Nat → Script (Operation Nat Nat) (Reply Nat) (Verdict Nat) :=
      fun removal ↦ .call (.put removal.key 7) fun _ ↦ .call .close fun _ ↦ .done ⟨[], none⟩
    let lasting : Removal Nat Nat → Option Payload := fun _ ↦ none
    let w : Running (Timed Nat Nat) Nat Nat :=
      ((Running.start (.empty (some expiry)) .dashMap spec .fresh).perform (.put 1 10)).2
    Kind.timed ≠ .deferred ∧
      ((w.recording lasting).perform (.put 1 20)).2.told = [⟨1, 10, .replaced⟩] ∧
      ((w.calling reaction lasting).perform (.put 1 20)).2.told =
        [⟨1, 10, .replaced⟩, ⟨1, 20, .replaced⟩] ∧
      ((w.calling reaction lasting).perform (.put 1 20)).2.phase = .closed ∧
      ∃ removals, removals.length ≤ 1 ∧
        SameAfterwards reaction w removals ((w.calling reaction lasting).perform (.put 1 20))
          ((w.recording lasting).perform (.put 1 20)) := by
  intro expiry spec reaction lasting w
  have hsame := (answers_as_afterwards .timed (by decide) reaction lasting).1 (.put 1 20) 1 rfl w
  exact ⟨by decide, by decide +kernel, by decide +kernel, by decide +kernel, hsame⟩

end Running

end Caching
