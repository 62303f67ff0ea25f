import Caching.Proofs.Engine.Lawful

/-!
# Plans

A plan lays open what an engine does between its reports: what it changes up to each of them, and
how it goes on from whatever state the report leaves. With a way to report it can be run, and what
happens in its reports can be listed in their order.
-/

namespace Caching

variable {σ K V : Type}

/-- An engine at work, between two reports: the store, the agenda and the log may change, but a
supplied agenda is not shut down, and whatever is tended stays so. -/
structure Running.Passes (tended : Running σ K V → Prop) (w w' : Running σ K V) : Prop where
  frames : w.Frames w'
  stopped : w.supplied = true → w'.agenda.stopped = w.agenda.stopped
  tended : tended w → tended w'

namespace Running.Passes

variable {tended : Running σ K V → Prop} {w w₁ w₂ : Running σ K V}

/-- Nothing need be done. -/
theorem refl (w : Running σ K V) : w.Passes tended w :=
  ⟨.refl w, fun _ ↦ rfl, id⟩

/-- Two things in a row. -/
theorem trans (h : w.Passes tended w₁) (h' : w₁.Passes tended w₂) : w.Passes tended w₂ := by
  refine ⟨h.frames.trans h'.frames, fun hsupplied ↦ ?_, fun hw ↦ h'.tended (h.tended hw)⟩
  have hsame : w₁.supplied = true := by
    obtain ⟨store, agenda, log, rfl⟩ := h.frames
    exact hsupplied
  exact (h'.stopped hsame).trans (h.stopped hsupplied)

/-- Another store alone. -/
theorem of_store {store : σ} (h : tended w → tended { w with store }) :
    w.Passes tended { w with store } :=
  ⟨⟨store, w.agenda, w.log, rfl⟩, fun _ ↦ rfl, h⟩

end Running.Passes

/-- What is still to be done, up to the next report and from there on. -/
inductive Plan (σ K V : Type) where
  /-- Nothing more is reported. -/
  | done (w : Running σ K V)
  /-- A removal is reported, and the plan goes on from what the report leaves. -/
  | tell (removal : Removal K V) (w : Running σ K V) (next : Running σ K V → Plan σ K V)

namespace Plan

/-- Carries the plan out. -/
def run (report : Report σ K V) : Plan σ K V → Running σ K V
  | done w => w
  | tell removal w next => run report (next (report removal w))

/-- What happens in the reports of the plan, given what happens in each. -/
def events {E : Type} (report : Report σ K V) (inside : Removal K V → Running σ K V → List E) :
    Plan σ K V → List E
  | done _ => []
  | tell removal w next => inside removal w ++ events report inside (next (report removal w))

/-- One plan, then another from where the first has come to. -/
def andThen (f : Running σ K V → Plan σ K V) : Plan σ K V → Plan σ K V
  | done w => f w
  | tell removal w next => tell removal w fun w' ↦ (next w').andThen f

/-- A change, with the removals it leaves to be told. -/
def settle (r : List (Removal K V) × Running σ K V) : Plan σ K V :=
  go r.1 r.2
where
  go : List (Removal K V) → Running σ K V → Plan σ K V
    | [], w => done w
    | removal :: rest, w => tell removal w (go rest)

/-- The same for one thing after the other. -/
def each {A : Type} (f : A → Running σ K V → Plan σ K V) : List A → Running σ K V → Plan σ K V
  | [], w => done w
  | a :: rest, w => (f a w).andThen (each f rest)

/-- Whatever is tended stays so in everything that the plan does up to a report, and after the
report whatever the report leaves. -/
def Moves (tended : Running σ K V → Prop) : Plan σ K V → Running σ K V → Prop
  | done w', w => w.Passes tended w'
  | tell _ w' next, w => w.Passes tended w' ∧ ∀ w'', (next w'').Moves tended w''

section

variable (report : Report σ K V)

/-- Running two plans in a row is running the first and then the second. -/
@[simp]
theorem run_andThen (p : Plan σ K V) (f : Running σ K V → Plan σ K V) :
    (p.andThen f).run report = (f (p.run report)).run report := by
  induction p with
  | done w => rfl
  | tell removal w next ih => exact ih (report removal w)

/-- Settling tells of the removals. -/
@[simp]
theorem run_settle (r : List (Removal K V) × Running σ K V) :
    (settle r).run report = Running.settle report r := by
  obtain ⟨removals, w⟩ := r
  simp only [settle, Running.settle]
  induction removals generalizing w with
  | nil => rfl
  | cons removal rest ih => exact ih (report removal w)

/-- Running the same for one thing after the other. -/
@[simp]
theorem run_each {A : Type} (f : A → Running σ K V → Plan σ K V) (as : List A)
    (w : Running σ K V) :
    (each f as w).run report = as.foldl (fun w a ↦ (f a w).run report) w := by
  induction as generalizing w with
  | nil => rfl
  | cons a rest ih => rw [each, run_andThen, ih, List.foldl_cons]

end

namespace Moves

variable {tended : Running σ K V → Prop} {w w' : Running σ K V} {p : Plan σ K V}

/-- Something may be done before a plan. -/
theorem after (hpasses : w.Passes tended w') (h : p.Moves tended w') : p.Moves tended w := by
  cases p with
  | done w₁ => exact hpasses.trans h
  | tell removal w₁ next => exact ⟨hpasses.trans h.1, h.2⟩

/-- One plan, then another. -/
theorem andThen {f : Running σ K V → Plan σ K V} (h : p.Moves tended w)
    (hf : ∀ w, (f w).Moves tended w) : (p.andThen f).Moves tended w := by
  induction p generalizing w with
  | done w₁ => exact .after h (hf w₁)
  | tell removal w₁ next ih => exact ⟨h.1, fun w₂ ↦ ih w₂ (h.2 w₂)⟩

/-- A change, with the removals it leaves to be told. -/
theorem settle {r : List (Removal K V) × Running σ K V} (h : w.Passes tended r.2) :
    (Plan.settle r).Moves tended w := by
  have hgo (removals : List (Removal K V)) (w w' : Running σ K V) (h : w.Passes tended w') :
      (settle.go removals w').Moves tended w := by
    induction removals generalizing w w' with
    | nil => exact h
    | cons removal rest ih => exact ⟨h, fun w'' ↦ ih w'' w'' (.refl w'')⟩
  exact hgo r.1 w r.2 h

/-- The same for one thing after the other. -/
theorem each {A : Type} {f : A → Running σ K V → Plan σ K V}
    (hf : ∀ a w, (f a w).Moves tended w) (as : List A) (w : Running σ K V) :
    (Plan.each f as w).Moves tended w := by
  induction as generalizing w with
  | nil => exact .refl w
  | cons a rest ih => exact (hf a w).andThen ih

end Moves

end Plan

section

variable [Engine σ K V] [LawfulEngine σ K V]

open LawfulEngine

variable [DecidableEq V]

/-- What a lawful engine does at an operation of an open cache, other than to close it. -/
def LawfulEngine.serve (now : Instant) (operation : Operation K V) (w : Running σ K V) :
    Plan σ K V :=
  match operation.key?, operation with
  | some key, operation => .settle (carry now key (operation.deed (current? now key w)) w)
  | none, .size => .each (fun key w ↦ .settle (carry now key .keep w)) (stale now w) w
  | none, .clear =>
    (Plan.settle (sweep w)).andThen
      (.each (fun key w ↦ .settle (carry now key .remove w)) (remaining w))
  | none, _ => .done w

namespace Running

/-- The plan of an operation is what the operation does. -/
theorem serve_run (report : Report σ K V) {now : Instant} {operation : Operation K V}
    (hclose : operation ≠ .close) {w : Running σ K V} (hactive : w.phase = .active)
    (hnow : Engine.reading w = .ok now) :
    (performWith report operation w).2 = (LawfulEngine.serve now operation w).run report := by
  cases hkey : operation.key? with
  | some key =>
    rw [performWith_of_key report hkey hactive hnow]
    simp only [LawfulEngine.serve, hkey, Plan.run_settle]
  | none =>
    cases operation with
    | size =>
      rw [performWith, guarded_of_reading hactive hnow, size_eq]
      simp only [LawfulEngine.serve, Operation.key?, Plan.run_each, Plan.run_settle]
    | clear =>
      rw [performWith, guarded_of_reading hactive hnow, clear_eq]
      simp only [LawfulEngine.serve, Operation.key?, Plan.run_andThen, Plan.run_each,
        Plan.run_settle]
    | state | provider => rfl
    | close => exact absurd rfl hclose
    | _ => cases hkey

omit [DecidableEq V] in
/-- The duty of a slot is settled at once. -/
theorem lapse_run (report : Report σ K V) (key : K) (stamp : Nat) (w : Running σ K V) :
    Engine.lapse report key stamp w = (Plan.settle (lapsed key stamp w)).run report := by
  rw [lapse_eq, Plan.run_settle]

omit [DecidableEq V] in
/-- A lawful engine defers no work. -/
theorem upkeep_run (report : Report σ K V) (w : Running σ K V) :
    Engine.upkeep report w = (Plan.done w).run report :=
  upkeep_eq report w

/-- Whatever every deed keeps tended stays so in an operation. What stores comes first. -/
theorem serve_moves {tended : Running σ K V → Prop}
    (hcarry : ∀ now key (deed : Deed V) (w : Running σ K V),
      w.phase = .active ∨ deed.stored = none → w.Passes tended (carry now key deed w).2)
    (hsweep : ∀ w : Running σ K V, w.Passes tended (sweep w).2) (now : Instant)
    (operation : Operation K V) {w : Running σ K V} (hactive : w.phase = .active) :
    (LawfulEngine.serve now operation w).Moves tended w := by
  unfold LawfulEngine.serve
  split
  · exact .settle (hcarry now _ _ w (.inl hactive))
  · exact .each (fun key w ↦ .settle (hcarry now key .keep w (.inr rfl))) _ w
  · exact (Plan.Moves.settle (hsweep w)).andThen
      (.each (fun key w ↦ .settle (hcarry now key .remove w (.inr rfl))) _)
  · exact .refl w

end Running

end

end Caching
