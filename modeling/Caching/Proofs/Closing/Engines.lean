import Caching.Proofs.Recency.Deeds
import Caching.Proofs.Timed.Tending
import Caching.Proofs.Vacant.Deeds

/-!
# Engines that follow plans

All that an engine does between its reports is laid open by plans: at operations, when a duty comes
due, and when deferred work is done. All the while it tends its timers, so that at the end of the
cache none of them is left.
-/

namespace Caching

variable {σ K V : Type}

/-- An engine whose doings are plans, and which tends its timers. -/
class PlannedEngine (σ K V : Type) [Engine σ K V] [DecidableEq V] where
  /-- What is done at an operation of an open cache, other than to close it. -/
  serve : Instant → Operation K V → Running σ K V → Plan σ K V
  /-- What is done when a duty comes due. -/
  lapse : K → Nat → Running σ K V → Plan σ K V
  upkeep : Running σ K V → Plan σ K V
  /-- The timers are tended, and so is the schedule of the engine's own, if the flag says that it
  keeps one. -/
  IsTended : Bool → Running σ K V → Prop
  serve_eq : ∀ (report : Report σ K V) {now : Instant} {operation : Operation K V}
    {w : Running σ K V}, operation ≠ .close → w.phase = .active → Engine.reading w = .ok now →
    (Running.performWith report operation w).2 = (serve now operation w).run report
  lapse_eq : ∀ (report : Report σ K V) (key : K) (stamp : Nat) (w : Running σ K V),
    Engine.lapse report key stamp w = (lapse key stamp w).run report
  upkeep_eq : ∀ (report : Report σ K V) (w : Running σ K V),
    Engine.upkeep report w = (upkeep w).run report
  serve_moves : ∀ (own : Bool) (now : Instant) (operation : Operation K V) {w : Running σ K V},
    w.phase = .active → (serve now operation w).Moves (IsTended own) w
  lapse_moves : ∀ {own : Bool} {w : Running σ K V} {target : Option Instant}
    {e : Entry (Duty K V)} {a : Agenda (Duty K V)} {key : K} {stamp : Nat}, IsTended own w →
    w.agenda.take? target = some (true, e, a) → e.job.body = .lapse key stamp →
    (lapse key stamp { w with agenda := a }).Moves (IsTended own) { w with agenda := a }
  upkeep_moves : ∀ (own : Bool) (w : Running σ K V), (upkeep w).Moves (IsTended own) w
  /-- Others may do with the agenda what they like, and the records of the cache have no part in the
  timers. -/
  aside : ∀ {own : Bool} {w : Running σ K V} {agenda : Agenda (Duty K V)}, IsTended own w →
    w.agenda.Yields agenda → ∀ dispatching listener heard host log,
    IsTended own { w with dispatching, listener, heard, agenda, host, log }
  cancelled_of_closed : ∀ {own : Bool} {w : Running σ K V}, IsTended own w → w.phase = .closed →
    ∀ e ∈ w.agenda.queue, ∀ key stamp, e.job.body = .lapse key stamp →
    e.handle ∈ w.agenda.cancelled
  stopped_of_closed : ∀ {w : Running σ K V}, IsTended true w → w.phase = .closed →
    w.agenda.stopped = true
  teardown_frames : ∀ w : Running σ K V, w.Frames (Engine.teardown w)
  teardown_stopped : ∀ w : Running σ K V, w.supplied = true →
    (Engine.teardown w).agenda.stopped = w.agenda.stopped
  teardown_tended : ∀ {own : Bool} {w : Running σ K V}, IsTended own w →
    IsTended own (Engine.teardown { w with phase := .closed })

/-- Once the cache is closed, no duty of a slot has its turn, as all of them were cancelled. -/
theorem PlannedEngine.ne_lapse_of_take? [Engine σ K V] [DecidableEq V] [PlannedEngine σ K V]
    {own : Bool} {w : Running σ K V} (h : IsTended own w) (hclosed : w.phase = .closed)
    {target : Option Instant} {e : Entry (Duty K V)} {a : Agenda (Duty K V)}
    (htake : w.agenda.take? target = some (true, e, a)) (key : K) (stamp : Nat) :
    e.job.body ≠ .lapse key stamp := by
  intro hbody
  obtain ⟨_, hqueue, _, hlive, _⟩ := Agenda.take?_eq_some htake
  have hmem : e ∈ w.agenda.queue := by
    rw [hqueue]
    exact List.mem_cons_self
  have hcancelled := cancelled_of_closed h hclosed e hmem key stamp hbody
  rw [Agenda.isCancelled, List.contains_iff_mem.mpr hcancelled] at hlive
  cases hlive

/-- There are no timers at all, and no schedule of the engine's own. -/
structure Running.IsUntimed (own : Bool) (w : Running σ K V) : Prop where
  timers : w.agenda.timers = []
  owns : own = false

namespace Running.IsUntimed

variable {own : Bool} {w : Running σ K V}

/-- Others never add a timer. -/
theorem aside (h : w.IsUntimed own) {agenda : Agenda (Duty K V)} (hyields : w.agenda.Yields agenda)
    (dispatching : Nat) (listener : Option (Listener K V)) (heard : List (Heard K V))
    (host : Clock) (log : List LogEntry) :
    IsUntimed own { w with dispatching, listener, heard, agenda, host, log } := by
  have hsub := hyields.timers
  rw [h.timers, List.subperm_nil] at hsub
  exact ⟨hsub, h.owns⟩

/-- No duty of a slot waits. -/
theorem ne_lapse (h : w.IsUntimed own) {e : Entry (Duty K V)} (he : e ∈ w.agenda.queue) (key : K)
    (stamp : Nat) : e.job.body ≠ .lapse key stamp := by
  intro hbody
  have hmem : e ∈ w.agenda.timers :=
    List.mem_filter.mpr ⟨he, Entry.isTimer_iff.mpr ⟨key, stamp, hbody⟩⟩
  rw [h.timers] at hmem
  cases hmem

/-- Changes of the store have no part in it. -/
theorem passes (own : Bool) (w : Running σ K V) (store : σ) :
    w.Passes (IsUntimed own) { w with store } :=
  .of_store fun h ↦ ⟨h.timers, h.owns⟩

/-- There is no schedule to be ended. -/
theorem not_own (h : w.IsUntimed true) : False := by
  cases h.owns

end Running.IsUntimed

open Running

namespace Vacant

variable [DecidableEq V]

instance : PlannedEngine Vacant K V where
  serve := LawfulEngine.serve
  lapse key stamp w := .settle (LawfulEngine.lapsed key stamp w)
  upkeep := .done
  IsTended := IsUntimed
  serve_eq report _ _ _ hclose hactive hnow := serve_run report hclose hactive hnow
  lapse_eq := lapse_run
  upkeep_eq := upkeep_run
  serve_moves _ now operation _ hactive :=
    serve_moves (fun _ _ _ w _ ↦ .refl w) (fun w ↦ .refl w) now operation hactive
  lapse_moves _ _ _ := .settle (.refl _)
  upkeep_moves _ w := .refl w
  aside h := h.aside
  cancelled_of_closed h _ _ he key stamp hbody := absurd hbody (h.ne_lapse he key stamp)
  stopped_of_closed h _ := h.not_own.elim
  teardown_frames w := .refl w
  teardown_stopped _ _ := rfl
  teardown_tended h := ⟨h.timers, h.owns⟩

end Vacant

namespace Recency

variable [DecidableEq K] [DecidableEq V]

instance : PlannedEngine (Recency K V) K V where
  serve := LawfulEngine.serve
  lapse key stamp w := .settle (LawfulEngine.lapsed key stamp w)
  upkeep := .done
  IsTended := IsUntimed
  serve_eq report _ _ _ hclose hactive hnow := serve_run report hclose hactive hnow
  lapse_eq := lapse_run
  upkeep_eq := upkeep_run
  serve_moves own now operation _ hactive :=
    serve_moves (fun _ _ _ w _ ↦ IsUntimed.passes own w _) (fun w ↦ IsUntimed.passes own w _) now
      operation hactive
  lapse_moves _ _ _ := .settle (.refl _)
  upkeep_moves _ w := .refl w
  aside h := h.aside
  cancelled_of_closed h _ _ he key stamp hbody := absurd hbody (h.ne_lapse he key stamp)
  stopped_of_closed h _ := h.not_own.elim
  teardown_frames w := LawfulEngine.teardown_frames w
  teardown_stopped _ _ := rfl
  teardown_tended h := ⟨h.timers, h.owns⟩

end Recency

namespace Timed

variable [DecidableEq K] [DecidableEq V]

instance : PlannedEngine (Timed K V) K V where
  serve := LawfulEngine.serve
  lapse key stamp w := .settle (LawfulEngine.lapsed key stamp w)
  upkeep := .done
  IsTended := Tended
  serve_eq report _ _ _ hclose hactive hnow := serve_run report hclose hactive hnow
  lapse_eq := lapse_run
  upkeep_eq := upkeep_run
  serve_moves _ now operation _ hactive :=
    serve_moves (fun now key _ _ hopen ↦ carryOut_passes now key hopen) (fun w ↦ .refl w) now
      operation hactive
  lapse_moves h htake hbody := .settle (comeDue_passes (h.attached.duties_take htake hbody) _)
  upkeep_moves _ w := .refl w
  aside h := h.aside
  cancelled_of_closed h hclosed _ he _ _ hbody := h.cancelled_of_closed hclosed he hbody
  stopped_of_closed h hclosed := (h.ended hclosed).2 rfl
  teardown_frames := teardown_frames
  teardown_stopped _ hsupplied := stopped_teardown hsupplied
  teardown_tended h := h.teardown

end Timed

end Caching
