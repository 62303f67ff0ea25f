import Caching.Proofs.Contract.Deed
import Caching.Proofs.Listener.Telling

/-!
# Engines that serve by deeds

An engine may serve every operation on one key in a way of its own. It is lawful if all of them come
down to the same: the live value is looked up, the deed that follows from it is carried out, and
whoever had to leave is told of. Counting and clearing are deeds on one key after the other, and
clearing may take out much at once before. All the while only the store and the agenda change.
-/

namespace Caching

/-- Carries a deed to its end: the listener is told of the removals. -/
def Running.settle {σ K V : Type} (report : Report σ K V)
    (r : List (Removal K V) × Running σ K V) : Running σ K V :=
  Running.tell report r.1 r.2

namespace Running

variable {σ K V : Type}

/-- Only the store, the agenda and the log may differ. -/
def Frames (w w' : Running σ K V) : Prop :=
  ∃ store agenda log, w' = { w with store, agenda, log }

/-- Nothing need differ. -/
theorem Frames.refl (w : Running σ K V) : w.Frames w :=
  ⟨w.store, w.agenda, w.log, rfl⟩

/-- Another store and another agenda. -/
theorem frames_of_store (w : Running σ K V) (store : σ) (agenda : Agenda (Duty K V)) :
    w.Frames { w with store, agenda } :=
  ⟨store, agenda, w.log, rfl⟩

/-- Two changes within the frame are one. -/
theorem Frames.trans {w w₁ w₂ : Running σ K V} (h : w.Frames w₁) (h' : w₁.Frames w₂) :
    w.Frames w₂ := by
  obtain ⟨store, agenda, log, rfl⟩ := h
  obtain ⟨store', agenda', log', rfl⟩ := h'
  exact ⟨store', agenda', log', rfl⟩

/-- The listener is the same. -/
theorem Frames.listener {w w' : Running σ K V} (h : w.Frames w') : w'.listener = w.listener := by
  obtain ⟨store, agenda, log, rfl⟩ := h
  rfl

/-- A quiet listener stays quiet. -/
theorem IsQuiet.frames {w w' : Running σ K V} (h : w.IsQuiet) (hframes : w.Frames w') :
    w'.IsQuiet := by
  rw [IsQuiet, hframes.listener]
  exact h

/-- What a quiet listener is told leaves the entries and the agenda as they are, and it stays quiet.
-/
theorem settle_of_quiet [Engine σ K V] [DecidableEq V] {w : Running σ K V} (h : w.IsQuiet)
    {r : List (Removal K V) × Running σ K V} (hframes : w.Frames r.2) (bound : Nat) :
    (settle (reportAt bound) r).store = r.2.store ∧
      (settle (reportAt bound) r).agenda = r.2.agenda ∧ (settle (reportAt bound) r).IsQuiet := by
  have hquiet := h.frames hframes
  obtain ⟨heard, log, htell, _⟩ := tell_of_quiet hquiet bound r.1
  rw [settle, htell]
  exact ⟨rfl, rfl, hquiet⟩

end Running

/-- An engine whose operations are deeds. -/
class LawfulEngine (σ K V : Type) [Engine σ K V] where
  /-- The live value of a key. -/
  current? : Instant → K → Running σ K V → Option V
  /-- What a deed changes, and the removals to be told. -/
  carry : Instant → K → Deed V → Running σ K V → List (Removal K V) × Running σ K V
  /-- The keys that counting looks after. -/
  stale : Instant → Running σ K V → List K
  count : Running σ K V → Nat
  /-- What clearing takes out at once. -/
  sweep : Running σ K V → List (Removal K V) × Running σ K V
  /-- The keys that clearing then takes out one by one. -/
  remaining : Running σ K V → List K
  /-- What the duty of an entry changes, and the removals to be told. -/
  lapsed : K → Nat → Running σ K V → List (Removal K V) × Running σ K V
  carry_ignore : ∀ now key w, carry now key .ignore w = ([], w)
  get_eq : ∀ report now key w, Engine.get report now key w =
    (current? now key w, Running.settle report (carry now key .read w))
  put_eq : ∀ report now key value w, Engine.put report now key value w =
    (current? now key w, Running.settle report (carry now key (.store value) w))
  putIfAbsent_eq : ∀ report now key value w, Engine.putIfAbsent report now key value w =
    (current? now key w, Running.settle report
      (carry now key (if (current? now key w).isSome then .keep else .store value) w))
  replace_eq : ∀ report now key value w, Engine.replace report now key value w =
    (current? now key w, Running.settle report
      (carry now key (if (current? now key w).isSome then .store value else .keep) w))
  alter_eq : ∀ report now key decide w, Engine.alter report now key decide w =
    match decide (current? now key w) with
    | .error abort => (.error abort, Running.settle report (carry now key .abandon w))
    | .ok .keep => (.ok ⟨current? now key w, current? now key w⟩,
        Running.settle report (carry now key .keep w))
    | .ok (.store value) => (.ok ⟨current? now key w, some value⟩,
        Running.settle report (carry now key (.store value) w))
    | .ok .remove => (.ok ⟨current? now key w, none⟩,
        Running.settle report (carry now key .remove w))
  remove_eq : ∀ report now key w, Engine.remove report now key w =
    (current? now key w, Running.settle report (carry now key .remove w))
  containsKey_eq : ∀ now key w, Engine.containsKey now key w = (current? now key w).isSome
  size_eq : ∀ report now w, Engine.size report now w =
    let w := (stale now w).foldl (fun w key ↦ Running.settle report (carry now key .keep w)) w
    (count w, w)
  clear_eq : ∀ report now w, Engine.clear report now w =
    (remaining w).foldl (fun w key ↦ Running.settle report (carry now key .remove w))
      (Running.settle report (sweep w))
  lapse_eq : ∀ report key stamp w, Engine.lapse report key stamp w =
    Running.settle report (lapsed key stamp w)
  upkeep_eq : ∀ (report : Report σ K V) w, Engine.upkeep report w = w
  carry_frames : ∀ now key deed w, Running.Frames w (carry now key deed w).2
  sweep_frames : ∀ w, Running.Frames w (sweep w).2
  lapsed_frames : ∀ key stamp w, Running.Frames w (lapsed key stamp w).2
  teardown_frames : ∀ w : Running σ K V, Running.Frames w (Engine.teardown w)

namespace Running

variable {σ K V : Type} [Engine σ K V]

private theorem guarded_of_closed {w : Running σ K V} (h : w.phase = .closed)
    (serve : Instant → Reply V × Running σ K V) : w.guarded serve = (.refused w.provider, w) := by
  rw [guarded, h]

/-- An open cache is served at the instant that its engine reads. -/
theorem guarded_of_reading {w : Running σ K V} {now : Instant} (h : w.phase = .active)
    (hnow : Engine.reading w = .ok now) (serve : Instant → Reply V × Running σ K V) :
    w.guarded serve = serve now := by
  rw [guarded, h, hnow]

/-- Nothing is served while the clock cannot be read. -/
theorem guarded_of_abort {w : Running σ K V} {abort : Abort} (h : w.phase = .active)
    (habort : Engine.reading w = .error abort) (serve : Instant → Reply V × Running σ K V) :
    w.guarded serve = (.failed (.abort abort), w) := by
  rw [guarded, h, habort]

variable [DecidableEq V]

/-- On the state, every operation on one key looks up the live value, carries a deed out and tells
of whoever had to leave. -/
structure ServesByDeeds (report : Report σ K V) (now : Instant) (w : Running σ K V)
    (live : K → Option V) (carried : K → Deed V → List (Removal K V) × Running σ K V) : Prop where
  ignore : ∀ key, carried key .ignore = ([], w)
  get : ∀ key, Engine.get report now key w = (live key, settle report (carried key .read))
  put : ∀ key value, Engine.put report now key value w =
    (live key, settle report (carried key (.store value)))
  putIfAbsent : ∀ key value, Engine.putIfAbsent report now key value w =
    (live key, settle report (carried key (if (live key).isSome then .keep else .store value)))
  replace : ∀ key value, Engine.replace report now key value w =
    (live key, settle report (carried key (if (live key).isSome then .store value else .keep)))
  alter : ∀ key decide, Engine.alter report now key decide w =
    match decide (live key) with
    | .error abort => (.error abort, settle report (carried key .abandon))
    | .ok .keep => (.ok ⟨live key, live key⟩, settle report (carried key .keep))
    | .ok (.store value) =>
      (.ok ⟨live key, some value⟩, settle report (carried key (.store value)))
    | .ok .remove => (.ok ⟨live key, none⟩, settle report (carried key .remove))
  remove : ∀ key, Engine.remove report now key w = (live key, settle report (carried key .remove))
  containsKey : ∀ key, Engine.containsKey now key w = (live key).isSome

/-- An operation that is served by a deed answers by the live value. -/
theorem ServesByDeeds.performWith {report : Report σ K V} {now : Instant} {w : Running σ K V}
    {live : K → Option V} {carried : K → Deed V → List (Removal K V) × Running σ K V}
    (h : ServesByDeeds report now w live carried) {operation : Operation K V} {key : K}
    (hkey : operation.key? = some key) (hactive : w.phase = .active)
    (hnow : Engine.reading w = .ok now) :
    Running.performWith report operation w =
      (operation.answer (live key),
        settle report (carried key (operation.deed (live key)))) := by
  cases operation <;> simp only [Operation.key?, reduceCtorEq, Option.some.injEq] at hkey <;>
    subst hkey <;> rw [Running.performWith, guarded_of_reading hactive hnow]
  case get key => rw [h.get, valued, Operation.answer, Operation.deed]
  case put key value => rw [h.put, valued, Operation.answer, Operation.deed]
  case putIfAbsent key value =>
    rw [h.putIfAbsent, valued]
    cases live key <;> rfl
  case replace key value =>
    rw [h.replace, valued]
    cases live key <;> rfl
  case replaceIf key expected value =>
    rw [h.alter, replaceExpected, Operation.deed, Operation.answer]
    by_cases hexpected : live key = some expected
    · simp only [if_pos hexpected]
    · simp only [if_neg hexpected]
  case compute key remap =>
    rw [h.alter, Operation.deed, Operation.answer]
    rcases remap (live key) with abort | (_ | value) <;> rfl
  case computeIfPresent key remap =>
    rw [h.alter]
    cases live key with
    | none => rfl
    | some current =>
      rw [mapPresent, Operation.deed, Operation.answer]
      rcases remap current with abort | (_ | value) <;> rfl
  case merge key value combine =>
    rw [h.alter]
    cases live key with
    | none => rfl
    | some current =>
      rw [combined, Operation.deed, Operation.answer]
      rcases combine current value with abort | (_ | value) <;> rfl
  case remove key => rw [h.remove, valued, Operation.answer, Operation.deed]
  case containsKey key =>
    rw [h.containsKey, Operation.answer, Operation.deed, h.ignore, settle, tell_nil]

/-- A closed cache still tells what it is, and refuses the rest. -/
theorem performWith_of_closed (report : Report σ K V) {w : Running σ K V} (h : w.phase = .closed)
    (operation : Operation K V) :
    performWith report operation w = (operation.closedReply w.provider, w) := by
  cases operation with
  | close => simp only [performWith, close, h, Operation.closedReply]
  | state => simp only [performWith, h, Operation.closedReply]
  | provider => rfl
  | _ => exact guarded_of_closed h _

/-- While the clock cannot be read, nothing is done, and the abort is the reply. -/
theorem performWith_of_unread (report : Report σ K V) {w : Running σ K V} {abort : Abort}
    (h : w.phase = .active) (habort : Engine.reading w = .error abort) {operation : Operation K V}
    (hserved : ¬ (operation = .close ∨ operation = .state ∨ operation = .provider)) :
    performWith report operation w = (.failed (.abort abort), w) := by
  cases operation with
  | close | state | provider => simp at hserved
  | _ => exact guarded_of_abort h habort _

/-- While the clock cannot be read, nothing changes but that the cache may be closed. -/
theorem performWith_of_abort (report : Report σ K V) {w : Running σ K V} {abort : Abort}
    (h : w.phase = .active) (habort : Engine.reading w = .error abort) {operation : Operation K V}
    (hclose : operation ≠ .close) : (performWith report operation w).2 = w := by
  cases operation with
  | close => exact absurd rfl hclose
  | state | provider => rfl
  | _ => exact congrArg Prod.snd (guarded_of_abort h habort _)

variable [LawfulEngine σ K V]

open LawfulEngine

/-- There is no deferred work to be done. -/
theorem attend_upkeep {w w' : Running σ K V} {run : Nat} {again : Bool}
    (h : attend .upkeep run w = some (again, w')) : w' = w := by
  unfold attend at h
  cases hp : w.phase with
  | active =>
    simp only [hp, upkeep_eq, Option.some.injEq, Prod.mk.injEq] at h
    exact h.2.symm
  | closed =>
    simp only [hp, Option.some.injEq, Prod.mk.injEq] at h
    exact h.2.symm

omit [DecidableEq V] in
/-- A lawful engine serves by deeds on every state. -/
theorem serves_of_lawful (report : Report σ K V) (now : Instant) (w : Running σ K V) :
    ServesByDeeds report now w (fun key ↦ current? now key w)
      (fun key deed ↦ carry now key deed w) where
  ignore key := carry_ignore now key w
  get key := get_eq report now key w
  put key value := put_eq report now key value w
  putIfAbsent key value := putIfAbsent_eq report now key value w
  replace key value := replace_eq report now key value w
  alter key decide := alter_eq report now key decide w
  remove key := remove_eq report now key w
  containsKey key := containsKey_eq now key w

/-- An operation on one key answers by the live value, does its deed and tells who had to leave. -/
theorem performWith_of_key (report : Report σ K V) {operation : Operation K V} {key : K}
    (hkey : operation.key? = some key) {w : Running σ K V} {now : Instant}
    (hactive : w.phase = .active) (hnow : Engine.reading w = .ok now) :
    performWith report operation w =
      (operation.answer (current? now key w),
        settle report (carry now key (operation.deed (current? now key w)) w)) :=
  (serves_of_lawful report now w).performWith hkey hactive hnow

end Running

end Caching
