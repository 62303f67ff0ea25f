import Caching.Proofs.Engine.Lawful
import Caching.Proofs.Script.Simulation

/-!
# The course of an operation

An operation of a lawful engine is a chain of changes, and the listener is told of whoever left
before the next change is made. What the listener then does is anything that a report may do. So
what every change brings about and every report keeps, holds all along the course; and what every
change and every call keep, every operation keeps, however deep the listener calls back.
-/

namespace Caching.Running

variable {σ K V : Type}

/-- The chains of changes from one state to another, with the entries that were stored on the way.
`change` tells what one change stores and which removals it leaves to be told. Each change keeps to
the store, the agenda and the log; whatever else differs in the end, the telling has done. -/
inductive Course (change : Running σ K V → List (K × V) → List (Removal K V) → Running σ K V → Prop)
    (report : Report σ K V) : Running σ K V → List (K × V) → Running σ K V → Prop where
  | done (w : Running σ K V) : Course change report w [] w
  | step {w w₁ w' : Running σ K V} {stored later : List (K × V)} {removals : List (Removal K V)}
      (first : change w stored removals w₁) (frames : w.Frames w₁)
      (rest : Course change report (tell report removals w₁) later w') :
      Course change report w (stored ++ later) w'

/-- A single change with its removals told is a course. -/
theorem Course.single
    {change : Running σ K V → List (K × V) → List (Removal K V) → Running σ K V → Prop}
    {report : Report σ K V} {w : Running σ K V} {stored : List (K × V)}
    {r : List (Removal K V) × Running σ K V} (h : change w stored r.1 r.2)
    (hframes : w.Frames r.2) : Course change report w stored (settle report r) := by
  have hcourse := Course.step h hframes (.done (settle report r))
  rwa [List.append_nil] at hcourse

variable [Engine σ K V] [LawfulEngine σ K V]

open LawfulEngine

/-- The changes that the engine itself makes at an instant: a deed, what clearing takes out at once,
and the duty of an entry. -/
inductive Dealt (now : Instant) :
    Running σ K V → List (K × V) → List (Removal K V) → Running σ K V → Prop where
  | carry (key : K) (deed : Deed V) (w : Running σ K V) :
      Dealt now w (deed.storedUnder key) (carry now key deed w).1 (carry now key deed w).2
  | sweep (w : Running σ K V) : Dealt now w [] (sweep w).1 (sweep w).2
  | lapsed (key : K) (stamp : Nat) (w : Running σ K V) :
      Dealt now w [] (lapsed key stamp w).1 (lapsed key stamp w).2

section

variable {report : Report σ K V} {now : Instant} {good : Running σ K V → Prop}
  {allowed : Deed V → Prop}
  {change : Running σ K V → List (K × V) → List (Removal K V) → Running σ K V → Prop}

/-- A deed that stores nothing, on one key after the other. -/
theorem course_foldl
    (hchange : ∀ key deed w, allowed deed → good w →
      change w (deed.storedUnder key) (carry now key deed w).1 (carry now key deed w).2)
    (hgood : ∀ key deed w, good w → good (settle report (carry now key deed w)))
    {deed : Deed V} (hdeed : deed.stored = none) (hallowed : allowed deed) (keys : List K)
    {w : Running σ K V} (h : good w) :
    Course change report w []
      (keys.foldl (fun w key ↦ settle report (carry now key deed w)) w) := by
  induction keys generalizing w with
  | nil => exact .done w
  | cons key rest ih =>
    have hfirst := hchange key deed w hallowed h
    rw [Deed.storedUnder, hdeed] at hfirst
    exact .step hfirst (carry_frames now key deed w) (ih (hgood key deed w h))

variable [DecidableEq V]

/-- The operation does only deeds that are allowed, when it is performed on the state. -/
structure DoesOnly (now : Instant) (allowed : Deed V → Prop) (operation : Operation K V)
    (w : Running σ K V) : Prop where
  key : ∀ key, operation.key? = some key → allowed (operation.deed (current? now key w))
  size : operation = .size → allowed .keep
  clear : operation = .clear → allowed .remove

/-- An operation takes its course: every change on the way starts from a good state, and together
they store what the reply tells. -/
theorem performWith_course
    (hchange : ∀ key deed w, allowed deed → good w →
      change w (deed.storedUnder key) (carry now key deed w).1 (carry now key deed w).2)
    (hsweep : ∀ w, allowed .remove → good w → change w [] (sweep w).1 (sweep w).2)
    (hgood : ∀ key deed w, good w → good (settle report (carry now key deed w)))
    (hswept : ∀ w, good w → good (settle report (sweep w)))
    {operation : Operation K V} (hclose : operation ≠ .close) {w : Running σ K V} (h : good w)
    (hallowed : DoesOnly now allowed operation w)
    (hactive : w.phase = .active) (hnow : Engine.reading w = .ok now) :
    Course change report w
      (operation.accepted (performWith report operation w).1).toList
      (performWith report operation w).2 := by
  cases hkey : operation.key? with
  | some key =>
    rw [performWith_of_key report hkey hactive hnow, Operation.accepted_answer hkey]
    have hcourse : Course change report w ((operation.deed (current? now key w)).storedUnder key)
        (settle report (carry now key (operation.deed (current? now key w)) w)) :=
      .single (hchange key _ w (hallowed.key key hkey) h) (carry_frames now key _ w)
    rw [Deed.storedUnder] at hcourse
    cases hs : (operation.deed (current? now key w)).stored <;> rw [hs] at hcourse <;> exact hcourse
  | none =>
    cases operation with
    | size =>
      rw [performWith, guarded_of_reading hactive hnow, size_eq]
      exact course_foldl hchange hgood rfl (hallowed.size rfl) _ h
    | clear =>
      rw [performWith, guarded_of_reading hactive hnow, clear_eq]
      exact .step (hsweep w (hallowed.clear rfl) h) (sweep_frames w)
        (course_foldl hchange hgood rfl (hallowed.clear rfl) _ (hswept w h))
    | state | provider => exact .done w
    | close => exact absurd rfl hclose
    | _ => simp [Operation.key?] at hkey

end

section

variable {good : Running σ K V → Prop}

omit [Engine σ K V] [LawfulEngine σ K V] in
/-- What every call keeps, telling of several removals keeps. -/
theorem tell_kept {report : Report σ K V} (hreport : ∀ removal w, good w → good (report removal w))
    (removals : List (Removal K V)) {w : Running σ K V} (h : good w) :
    good (tell report removals w) := by
  induction removals generalizing w with
  | nil => exact h
  | cons removal rest ih => exact ih (hreport removal w h)

variable [DecidableEq V]

/-- What every change of an operation keeps, the operation keeps. -/
theorem performWith_kept {report : Report σ K V} {w : Running σ K V}
    (hcarry : ∀ now, Engine.reading w = .ok now → ∀ key deed w', good w' →
      good (settle report (carry now key deed w')))
    (hsweep : ∀ w', good w' → good (settle report (sweep w')))
    (hclose : good w → good w.close) (h : good w) (operation : Operation K V) :
    good (performWith report operation w).2 := by
  have hfold (deed : Deed V) (now : Instant) (hnow : Engine.reading w = .ok now) (keys : List K)
      (w' : Running σ K V) (h' : good w') :
      good (keys.foldl (fun w key ↦ settle report (carry now key deed w)) w') := by
    induction keys generalizing w' with
    | nil => exact h'
    | cons key rest ih => exact ih _ (hcarry now hnow key deed w' h')
  cases hp : w.phase with
  | closed =>
    rw [performWith_of_closed report hp]
    exact h
  | active =>
    by_cases hnone : operation = .close ∨ operation = .state ∨ operation = .provider
    · rcases hnone with rfl | rfl | rfl
      · exact hclose h
      · exact h
      · exact h
    · cases hnow : Engine.reading w with
      | error abort =>
        rw [performWith_of_abort report hp hnow fun hclose ↦ hnone (.inl hclose)]
        exact h
      | ok now =>
        cases hkey : operation.key? with
        | some key =>
          rw [performWith_of_key report hkey hp hnow]
          exact hcarry now hnow key _ w h
        | none =>
          cases operation with
          | size =>
            rw [performWith, guarded_of_reading hp hnow, size_eq]
            exact hfold .keep now hnow _ w h
          | clear =>
            rw [performWith, guarded_of_reading hp hnow, clear_eq]
            exact hfold .remove now hnow _ _ (hsweep w h)
          | close | state | provider => simp at hnone
          | _ => simp [Operation.key?] at hkey

omit [LawfulEngine σ K V] in
/-- What operations keep whenever the calls in them do, is kept by every call, if the listener and
the records of the calls have no part in it. -/
theorem reportAt_kept
    (hperform : ∀ report : Report σ K V, (∀ removal w, good w → good (report removal w)) →
      ∀ operation w, good w → good (performWith report operation w).2)
    (hbooks : ∀ (w : Running σ K V) dispatching listener heard log, good w →
      good { w with dispatching, listener, heard, log })
    (bound : Nat) (removal : Removal K V) {w : Running σ K V} (h : good w) :
    good (reportAt bound removal w) := by
  have hend (removal : Removal K V) (w : Running σ K V) (panic : Option Payload) (h : good w) :
      good (w.endCall removal panic) := by
    obtain ⟨log, hlog⟩ := w.endCall_eq removal panic
    rw [hlog]
    exact hbooks w _ w.listener w.heard log h
  induction bound generalizing removal w with
  | zero =>
    unfold reportAt
    split
    · exact h
    · exact h
    · exact hend _ _ _ (hbooks w _ w.listener _ w.log h)
  | succ bound ih =>
    unfold reportAt
    split
    · exact h
    · exact h
    · next listener _ _ =>
      have hbegun : good (w.beginCall removal) := hbooks w _ w.listener _ w.log h
      dsimp only
      split
      · next n reaction rest hn _ =>
        obtain rfl : bound = n := Nat.succ.inj hn
        have hreport (removal : Removal K V) (w : Running σ K V) (h : good w) := ih removal h
        have hrun := Script.run_invariant (hperform (reportAt bound) hreport) (reaction removal)
          (hbooks _ (w.beginCall removal).dispatching (some ⟨rest, listener.lasting⟩)
            (w.beginCall removal).heard (w.beginCall removal).log hbegun)
        exact hend _ _ _ (hbooks _ _ _ _ _ hrun)
      · exact hend _ _ _ hbegun

end

end Caching.Running
