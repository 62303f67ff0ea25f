import Caching.Proofs.Desk.Chronicle
import Caching.Proofs.Desk.Onward

/-!
# The incidents of a run

What an observer would note of a run of actions on a desk: everything that happens to the agenda,
and besides when the body of a chain runs and asks for its next run, when an errand moves the clock,
and when one of its actions is aborted. What holds of the notes so far and of the desk, and is kept
by each single step, is kept by every action, however its errands are nested.
-/

namespace Caching

variable {L : Type}

/-- Something that is noted of a run. -/
inductive Incident (L : Type) where
  /-- It happens to the agenda. -/
  | occurred (occurrence : Occurrence (Commission L))
  /-- A run of the body of a chain starts while the clock shows that much. -/
  | ran (chain : Handle) (run : Nat) (shown : Int)
  /-- The body of a chain has asked for that run. -/
  | continued (chain : Handle) (run : Nat)
  /-- An errand is about to move the clock. -/
  | moved
  /-- An action of an errand was aborted. -/
  | aborted (abort : Abort)

/-- What happens to the agenda, if that is what is noted. -/
def Incident.occurrence? : Incident L → Option (Occurrence (Commission L))
  | occurred occurrence => some occurrence
  | ran _ _ _ | continued _ _ | moved | aborted _ => none

/-- An errand is about to move the clock. -/
def Incident.isMoved : Incident L → Bool
  | moved => true
  | occurred _ | ran _ _ _ | continued _ _ | aborted _ => false

/-- Something is submitted, or its handle is cancelled at once. -/
def Incident.IsFiling (x : Incident L) : Prop :=
  (∃ e, x = occurred (.submitted e)) ∨ ∃ handle, x = occurred (.cancelled handle)

namespace Agenda

variable {a : Agenda (Commission L)} {x : Incident L}

/-- A submission is filed. -/
theorem isFiling_of_mem_submission {delay : Duration} {job : Job (Commission L)}
    (hx : x ∈ (a.submission delay job).map .occurred) : x.IsFiling := by
  obtain ⟨occurrence, hmem, rfl⟩ := List.mem_map.mp hx
  rw [submission] at hmem
  split at hmem
  · exact .inr ⟨_, congrArg _ (List.mem_singleton.mp hmem)⟩
  · split at hmem
    · cases hmem
    · split at hmem
      · cases hmem
      · exact .inl ⟨_, congrArg _ (List.mem_singleton.mp hmem)⟩

/-- So is the next run of a chain. -/
theorem isFiling_of_mem_resumption {chain : Handle} {period : Duration} {run : Nat}
    {c : Commission L} (hx : x ∈ (a.resumption chain period run c).map .occurred) :
    x.IsFiling := by
  rw [resumption] at hx
  split at hx
  · cases hx
  · exact isFiling_of_mem_submission hx

end Agenda

/-- The action moves the clock, by hand or by letting more than no time pass. -/
def Action.moves : Action L → Bool
  | .advance d => decide (d ≠ .zero)
  | .moveClock _ => true
  | .schedule _ _ _ | .scheduleRepeating _ _ _ | .cancel _ | .isCancelled _ | .runPending | .elapsed
  | .pending | .shutdown | .isShutdown | .describe => false

/-- What is noted before an errand does an action. -/
def Action.notice (action : Action L) : List (Incident L) :=
  if action.moves then [.moved] else []

/-- What is noted of the answer to an action of an errand. -/
def Response.notice : Response → List (Incident L)
  | .aborted abort => [.aborted abort]
  | _ => []

/-- What is noted when a job is started. A chain that was cancelled does not run. -/
def Job.notice (job : Job (Commission L)) (a : Agenda (Commission L)) : List (Incident L) :=
  match job with
  | .once _ => []
  | .link chain _ run _ => if a.isCancelled chain then [] else [.ran chain run a.clock.shown]

/-- What is noted when a job is started is the run of its chain. -/
theorem Job.eq_ran_of_mem_notice {job : Job (Commission L)} {a : Agenda (Commission L)}
    {x : Incident L} (hx : x ∈ job.notice a) : ∃ chain period run c,
      job = .link chain period run c ∧ a.isCancelled chain = false ∧
        x = .ran chain run a.clock.shown := by
  cases job with
  | once body => cases hx
  | link chain period run c =>
    rw [notice] at hx
    split at hx
    · cases hx
    · next hlive =>
      exact ⟨chain, period, run, c, rfl, by simpa using hlive, List.mem_singleton.mp hx⟩

namespace Desk

variable [DecidableEq L]

/-- Notes what happens while time passes. -/
def observer (inside : Commission L → Nat → Desk L → List (Incident L)) :
    Chronicler (Desk L) (Commission L) (Incident L) where
  turn live e a :=
    if live then .occurred (.started e a.clock.elapsed) :: e.job.notice a
    else [.occurred (.skipped e a.clock.elapsed)]
  inside := inside
  resume a chain period run c :=
    .continued chain run ::
      match a.arm chain period run c with
      | .ok _ => (a.resumption chain period run c).map .occurred
      | .error _ => [.occurred .broken]

/-- What is noted while an action is done; `inside` tells of the errands that are run then. -/
def actIncidents (attend : Attend (Desk L) (Commission L))
    (inside : Commission L → Nat → Desk L → List (Incident L)) (fuel : Nat) (action : Action L)
    (d : Desk L) : List (Incident L) :=
  match action with
  | .advance duration => advanceChronicle (observer inside) attend fuel duration d
  | .runPending => advanceChronicle (observer inside) attend fuel .zero d
  | action => (actChronicle attend (fun _ _ _ ↦ []) fuel action d).map .occurred

/-- What is noted while an errand is followed. -/
def followIncidents : Nat → L → Errand L → Desk L → List (Incident L)
  | _, _, .done _, _ => []
  | 0, _, .act _ _, _ => []
  | fuel + 1, label, .act action next, d =>
    action.notice ++
      actIncidents (attend fuel)
        (fun c run d ↦ followIncidents fuel c.label (c.body run)
          (d.note (.fired c.label d.agenda.clock.elapsed)))
        fuel action d ++
      match act (attend fuel) fuel action d with
      | none => []
      | some (response, d) =>
        response.notice ++
          followIncidents fuel label (next response) (d.note (.answered label response))

/-- What is noted while a commission is attended to. -/
def attendIncidents (fuel : Nat) (c : Commission L) (run : Nat) (d : Desk L) : List (Incident L) :=
  followIncidents fuel c.label (c.body run) (d.note (.fired c.label d.agenda.clock.elapsed))

/-- What is noted while actions are done from outside. -/
def incidents (fuel : Nat) : List (Action L) → Desk L → List (Incident L)
  | [], _ => []
  | action :: rest, d =>
    actIncidents (attend fuel) (attendIncidents fuel) fuel action d ++
      match d.step fuel action with
      | none => []
      | some (_, d) => incidents fuel rest d

/-- What is noted of an errand is what is noted of its first action and then of what follows on the
answer. -/
theorem followIncidents_act {fuel : Nat} {label : L} {action : Action L}
    {next : Response → Errand L} {response : Response} {d d' : Desk L}
    (h : act (attend fuel) fuel action d = some (response, d')) :
    followIncidents (fuel + 1) label (.act action next) d =
      action.notice ++ actIncidents (attend fuel) (attendIncidents fuel) fuel action d ++
        (response.notice ++
          followIncidents fuel label (next response) (d'.note (.answered label response))) := by
  rw [followIncidents, h]
  rfl

/-- What is noted of several actions is what is noted of the first and then of the others. -/
theorem incidents_cons {fuel : Nat} {action : Action L} {rest : List (Action L)}
    {response : Response} {d d' : Desk L} (h : d.step fuel action = some (response, d')) :
    incidents fuel (action :: rest) d =
      actIncidents (attend fuel) (attendIncidents fuel) fuel action d ++
        incidents fuel rest d' := by
  rw [incidents, h]

variable {reach : Instant → Prop} {told : List (Incident L) → Desk L → Prop}

/-- What is told of a run is kept by every single step of it. An entry that is started has its
errand followed, so what is told may be supposed to be kept by that. Unless an errand has moved the
clock, an entry that has its turn is within the reach of whoever lets time pass from outside, or the
clock has reached its due instant already. -/
structure Keeps (reach : Instant → Prop) (told : List (Incident L) → Desk L → Prop) : Prop where
  note : ∀ {history d} notice, told history d → told history (d.note notice)
  submit : ∀ {history d label delay c handle a}, told history d →
    d.agenda.submit delay (.once c) = .ok (handle, a) →
    told (history ++ (d.agenda.submission delay (.once c)).map .occurred)
      { d with agenda := a, directory := (label, handle) :: d.directory }
  begin : ∀ {history d label period c a}, told history d →
    d.agenda.freshHandle.2.arm ⟨d.agenda.nextHandle⟩ period 1 c = .ok a →
    told (history ++ (d.agenda.freshHandle.2.resumption ⟨d.agenda.nextHandle⟩ period 1 c).map
        .occurred)
      { d with agenda := a, directory := (label, ⟨d.agenda.nextHandle⟩) :: d.directory }
  cancel : ∀ {history d label handle}, told history d → d.handle? label = some handle →
    told (history ++ [.occurred (.cancelled handle)])
      { d with agenda := d.agenda.cancel handle }
  stop : ∀ {history d}, told history d →
    told (history ++ [.occurred (.stopped d.agenda.queue d.agenda.clock.elapsed)])
      { d with agenda := d.agenda.shutdown }
  skip : ∀ {history d target e a}, told history d →
    d.agenda.take? target = some (false, e, a) →
    (.moved ∈ history ∨ reach e.due ∨ e.due.nanos ≤ d.agenda.clock.shown) →
    told (history ++ [.occurred (.skipped e a.clock.elapsed)]) (withAgenda d a)
  start : ∀ {fuel history d target e a r d'},
    (∀ history c run d again d', told history d → attend fuel c run d = some (again, d') →
      told (history ++ attendIncidents fuel c run d) d') →
    told history d → d.agenda.take? target = some (true, e, a) →
    (.moved ∈ history ∨ reach e.due ∨ e.due.nanos ≤ d.agenda.clock.shown) →
    e.job.perform (attend fuel) (withAgenda d a) = some (r, d') →
    told (history ++ .occurred (.started e a.clock.elapsed) :: e.job.notice a ++
      e.job.chronicle (observer (attendIncidents fuel)) (attend fuel) (withAgenda d a)) d'
  moving : ∀ {history d}, told history d → told (history ++ [.moved]) d
  shift : ∀ {history d clock}, .moved ∈ history → told history d →
    clock.start = d.agenda.clock.start → d.agenda.clock.shown ≤ clock.shown →
    told history { d with agenda.clock := clock }
  fail : ∀ {history d abort}, told history d →
    (.moved ∈ history ∨ ∃ abort, d.agenda.clock.now = .error abort) →
    told (history ++ [.aborted abort]) d

/-- Doing a job comes to what attending to its body and going on with its own chain come to. -/
theorem perform_ends (told ended : List (Incident L) → Desk L → Prop) {fuel : Nat}
    (history : List (Incident L)) {d d' : Desk L} {job : Job (Commission L)} {r : Except Abort Unit}
    (hinside : ∀ run again d₁, attend fuel job.body run d = some (again, d₁) →
      told (history ++ attendIncidents fuel job.body run d) d₁)
    (hresume : ∀ history chain period run c d₁, job = .link chain period run c →
      d.agenda.Onward d₁.agenda → told history d₁ →
      match d₁.agenda.arm chain period (run + 1) c with
      | .ok a => ended (history ++ .continued chain (run + 1) ::
          (d₁.agenda.resumption chain period (run + 1) c).map .occurred) (withAgenda d₁ a)
      | .error _ => ended (history ++ [.continued chain (run + 1), .occurred .broken]) d₁)
    (hended : ∀ history d, told history d → ended history d) (h : told history d)
    (hperform : job.perform (attend fuel) d = some (r, d')) :
    ended (history ++ job.chronicle (observer (attendIncidents fuel)) (attend fuel) d) d' := by
  refine Job.perform_told (observer (attendIncidents fuel)) told (fun _ ↦ ended) hinside ?_ hended h
    hperform
  intro history chain period run d₁ hjob hattend h₁
  have hresumed := hresume history chain period run job.body d₁ hjob (attend_onward hattend) h₁
  rw [agenda_eq]
  simp only [observer]
  cases harm : d₁.agenda.arm chain period (run + 1) job.body with
  | ok a =>
    simp only [harm] at hresumed ⊢
    exact hresumed
  | error abort =>
    simp only [harm] at hresumed ⊢
    exact hresumed

/-- Doing a job keeps what attending to its body keeps and going on with its own chain. -/
theorem perform_told {fuel : Nat} (history : List (Incident L)) {d d' : Desk L}
    {job : Job (Commission L)} {r : Except Abort Unit}
    (hinside : ∀ history c run d again d', told history d → attend fuel c run d = some (again, d') →
      told (history ++ attendIncidents fuel c run d) d')
    (hresume : ∀ history chain period run c d₁, job = .link chain period run c →
      d.agenda.Onward d₁.agenda → told history d₁ →
      match d₁.agenda.arm chain period (run + 1) c with
      | .ok a => told (history ++ .continued chain (run + 1) ::
          (d₁.agenda.resumption chain period (run + 1) c).map .occurred) (withAgenda d₁ a)
      | .error _ => told (history ++ [.continued chain (run + 1), .occurred .broken]) d₁)
    (h : told history d) (hperform : job.perform (attend fuel) d = some (r, d')) :
    told (history ++ job.chronicle (observer (attendIncidents fuel)) (attend fuel) d) d' :=
  perform_ends told told history
    (fun run again d₁ hattend ↦ hinside history job.body run d again d₁ h hattend) hresume
    (fun _ _ h ↦ h) h hperform

namespace Keeps

variable {history : List (Incident L)} {d d' : Desk L} {fuel : Nat}

section

variable (hk : Keeps reach told)
  (hinside : ∀ history c run d again d', told history d → attend fuel c run d = some (again, d') →
    told (history ++ attendIncidents fuel c run d) d')

include hk hinside

/-- Draining keeps it, and is aborted only if the clock cannot be read then. -/
theorem drain (h : told history d) {target : Option Instant}
    (hpass : .moved ∈ history ∨ ∀ due, Agenda.within target due = true →
      reach due ∨ due.nanos ≤ d.agenda.clock.shown)
    {n : Nat} {r : Except Abort Nat}
    (hdrain : Caching.drain (attend fuel) target n d = some (r, d')) :
    told (history ++ drainChronicle (observer (attendIncidents fuel)) (attend fuel) target n d) d' ∧
      ∀ abort, r = .error abort → d'.agenda.clock.now = .error abort := by
  have hdue (more : List (Incident L)) (d₁ : Desk L) (honward : d.agenda.Onward d₁.agenda)
      {live : Bool} {e : Entry (Commission L)} {a : Agenda (Commission L)}
      (htake : d₁.agenda.take? target = some (live, e, a)) :
      .moved ∈ history ++ more ∨ reach e.due ∨ e.due.nanos ≤ d₁.agenda.clock.shown := by
    obtain ⟨-, -, hwithin, -⟩ := Agenda.take?_eq_some htake
    rcases hpass with hmoved | hpass
    · exact .inl (List.mem_append_left _ hmoved)
    · exact .inr ((hpass e.due hwithin).imp_right fun hle ↦ Int.le_trans hle honward.shown)
  have hdrained := drain_told (observer (attendIncidents fuel))
    (fun r history' d' ↦ (∃ more, history' = history ++ more) ∧ d.agenda.Onward d'.agenda ∧
      told history' d' ∧ ∀ abort, r = .error abort → d'.agenda.clock.now = .error abort)
    (n := 0) ?_ ?_ ⟨⟨[], (List.append_nil _).symm⟩, .refl _, h, nofun⟩ hdrain
  · obtain ⟨-, -, htold, herror⟩ := hdrained
    refine ⟨htold, ?_⟩
    cases r with
    | ok count => exact nofun
    | error abort => exact herror
  · rintro n _ d₁ e a ⟨⟨more, rfl⟩, honward, htold, -⟩ htake
    exact ⟨⟨_, List.append_assoc _ _ _⟩, honward.trans (.take htake),
      hk.skip htold htake (hdue more d₁ honward htake), nofun⟩
  · rintro n _ d₁ e a r d₂ ⟨⟨more, rfl⟩, honward, htold, -⟩ htake hperform
    refine ⟨⟨_, (congrArg (· ++ _) (List.append_assoc _ _ _)).trans (List.append_assoc _ _ _)⟩, ?_,
      hk.start hinside htold htake (hdue more d₁ honward htake) hperform, ?_⟩
    · have hperformed : a.Onward d₂.agenda :=
        perform_onward (fun _ _ _ _ _ hattend ↦ attend_onward hattend) hperform
      exact (honward.trans (.take htake)).trans hperformed
    · intro abort hr
      cases r with
      | ok => cases hr
      | error other =>
        cases hr
        exact Job.now_of_perform_eq_error hperform

/-- While time passes, it is kept up to the point where the clock is moved on to the end of that
time. -/
theorem advance (h : told history d) {t : Duration}
    (hpass : .moved ∈ history ∨ ∀ now, d.agenda.clock.now = .ok now → ∀ due,
      Agenda.within (now.add? t) due = true → reach due ∨ due.nanos ≤ d.agenda.clock.shown)
    {r : Except Abort Nat} (hadvance : Caching.advance (attend fuel) fuel t d = some (r, d')) :
    ∃ d₁, told (history ++
        advanceChronicle (observer (attendIncidents fuel)) (attend fuel) fuel t d) d₁ ∧
      d.agenda.Onward d₁.agenda ∧
      ((∃ abort, r = .error abort ∧ d'.agenda.clock.now = .error abort ∧ d' = d₁) ∨
        ∃ now count, d.agenda.clock.now = .ok now ∧ r = .ok count ∧
          d₁.agenda.take? (now.add? t) = none ∧
          ((now.add? t = none ∧ d' = d₁) ∨ ∃ instant, now.add? t = some instant ∧
            d' = withAgenda d₁ (d₁.agenda.readied instant))) := by
  rw [advanceChronicle]
  rcases advance_cases hadvance with ⟨abort, hnow, rfl⟩ | ⟨now, d₁, hnow, hdrain, hend⟩
  · rw [Caching.advance, hnow] at hadvance
    simp only [Option.some.injEq, Prod.mk.injEq, and_true] at hadvance
    refine ⟨d', ?_, .refl _, .inl ⟨abort, hadvance.symm, hnow, rfl⟩⟩
    rw [hnow, List.append_nil]
    exact h
  · rw [hnow]
    obtain ⟨hdrained, herror⟩ := hk.drain hinside h (hpass.imp_right fun hp ↦ hp now hnow) hdrain
    have honward := drain_onward (fun _ _ _ _ _ hattend ↦ attend_onward hattend) hdrain
    have hdone := (@drain_kept _ _ _ _ (fun _ ↦ True) _ (fun _ _ _ _ _ ↦ trivial)
      (fun _ _ _ _ _ _ _ _ ↦ trivial) _ _ _ _ trivial hdrain).2
    refine ⟨d₁, hdrained, honward, ?_⟩
    rcases hend with ⟨abort, rfl, rfl⟩ | ⟨htarget, rfl⟩ | ⟨instant, count, rfl, htarget, rfl⟩
    · exact .inl ⟨abort, rfl, herror abort rfl, rfl⟩
    · cases r with
      | error abort => exact .inl ⟨abort, rfl, herror abort rfl, rfl⟩
      | ok count => exact .inr ⟨now, count, hnow, rfl, hdone count rfl, .inl ⟨htarget, rfl⟩⟩
    · exact .inr ⟨now, count, hnow, rfl, hdone count rfl, .inr ⟨instant, htarget, rfl⟩⟩

private theorem runPending (h : told history d) {r : Except Abort Nat}
    (hadvance : Caching.advance (attend fuel) fuel .zero d = some (r, d')) :
    told (history ++
        advanceChronicle (observer (attendIncidents fuel)) (attend fuel) fuel .zero d) d' ∧
      ∀ abort, r = .error abort → d'.agenda.clock.now = .error abort := by
  have hpass (now : Instant) (hnow : d.agenda.clock.now = .ok now) (due : Instant)
      (hdue : Agenda.within (now.add? .zero) due = true) :
      reach due ∨ due.nanos ≤ d.agenda.clock.shown := by
    have hzero : now.add? .zero = some now := by
      rw [Instant.add?_eq_some_iff]
      exact (Int.add_zero _).symm
    rw [hzero] at hdue
    rw [Clock.now_eq_ok_iff_shown.mp hnow]
    exact .inr (of_decide_eq_true hdue)
  obtain ⟨d₁, htold, honward, hend⟩ := hk.advance hinside h (.inr hpass) hadvance
  rcases hend with ⟨abort, rfl, hnow, rfl⟩ | ⟨now, count, hnow, rfl, -, hclock⟩
  · exact ⟨htold, fun _ hr ↦ Except.error.inj hr ▸ hnow⟩
  · refine ⟨?_, nofun⟩
    rcases hclock with ⟨-, rfl⟩ | ⟨instant, htarget, rfl⟩
    · exact htold
    · have hzero := Instant.add?_eq_some_iff.mp htarget
      have hshown := Clock.now_eq_ok_iff_shown.mp hnow
      have hreached : instant.nanos ≤ d₁.agenda.clock.shown := by
        have hbefore := honward.shown
        simp only [Duration.zero] at hzero
        omega
      have hstays : d₁.agenda.readied instant = d₁.agenda := by
        rw [Agenda.readied, Clock.advanceTo_of_le_shown hreached]
      rw [hstays]
      exact htold

/-- An action that lets no time pass keeps it, and is aborted only if the clock cannot be read. -/
theorem advance_zero (h : told history d) {response : Response}
    (hact : Desk.act (attend fuel) fuel (.advance .zero) d = some (response, d')) :
    told (history ++
        advanceChronicle (observer (attendIncidents fuel)) (attend fuel) fuel .zero d) d' ∧
      ∀ abort, response = .aborted abort → ∃ abort, d'.agenda.clock.now = .error abort := by
  rcases act_advance_eq_some_iff.mp hact with ⟨count, rfl, hadvance⟩ | ⟨abort, rfl, hadvance⟩
  · exact ⟨(hk.runPending hinside h hadvance).1, by simp⟩
  · obtain ⟨htold, hnow⟩ := hk.runPending hinside h hadvance
    exact ⟨htold, fun _ _ ↦ ⟨abort, hnow abort rfl⟩⟩

/-- Letting time pass keeps it, if it is kept when the clock is moved on. -/
theorem advance_shift (h : told history d) {t : Duration} {response : Response}
    (hpass : .moved ∈ history ∨ ∀ due, reach due)
    (hshift : ∀ more d clock, told (history ++ more) d →
      clock.start = d.agenda.clock.start → d.agenda.clock.shown ≤ clock.shown →
      told (history ++ more) { d with agenda.clock := clock })
    (hact : Desk.act (attend fuel) fuel (.advance t) d = some (response, d')) :
    told (history ++
      advanceChronicle (observer (attendIncidents fuel)) (attend fuel) fuel t d) d' := by
  obtain ⟨r, hadvance⟩ : ∃ r, Caching.advance (attend fuel) fuel t d = some (r, d') := by
    rcases act_advance_eq_some_iff.mp hact with ⟨_, _, hadvance⟩ | ⟨_, _, hadvance⟩
    · exact ⟨_, hadvance⟩
    · exact ⟨_, hadvance⟩
  obtain ⟨d₁, htold, -, hend⟩ := hk.advance hinside h
    (hpass.imp_right fun hreach _ _ due _ ↦ .inl (hreach due)) hadvance
  rcases hend with ⟨_, _, _, rfl⟩ | ⟨_, _, _, _, _, ⟨-, rfl⟩ | ⟨instant, _, rfl⟩⟩
  · exact htold
  · exact htold
  · exact hshift _ _ _ htold rfl (Agenda.Onward.readied d₁.agenda instant).shown

omit hinside in
private theorem schedule (h : told history d) {label : L} {delay : Duration} {body : Errand L}
    {response : Response}
    (hact : Desk.act (attend fuel) fuel (.schedule label delay body) d = some (response, d')) :
    told (history ++
        actIncidents (attend fuel) (attendIncidents fuel) fuel (.schedule label delay body) d) d' ∧
      ∀ abort, response = .aborted abort → ∃ abort, d'.agenda.clock.now = .error abort := by
  simp only [Desk.act, Option.some.injEq, Agenda.schedule] at hact
  simp only [actIncidents, actChronicle]
  cases hsubmit : d.agenda.submit delay (.once ⟨label, fun _ ↦ body⟩) with
  | ok submitted =>
    rw [hsubmit] at hact
    cases hact
    exact ⟨hk.submit h hsubmit, by simp⟩
  | error abort =>
    rw [hsubmit] at hact
    cases hact
    rw [Agenda.submission_eq_nil hsubmit]
    refine ⟨?_, fun _ _ ↦ ⟨abort, Agenda.now_of_submit_eq_error hsubmit⟩⟩
    simpa using h

omit hinside in
private theorem scheduleRepeating (h : told history d) {label : L} {period : Duration}
    {body : Nat → Errand L} {response : Response}
    (hact : Desk.act (attend fuel) fuel (.scheduleRepeating label period body) d =
      some (response, d')) :
    told (history ++ actIncidents (attend fuel) (attendIncidents fuel) fuel
        (.scheduleRepeating label period body) d) d' ∧
      ∀ abort, response = .aborted abort → ∃ abort, d'.agenda.clock.now = .error abort := by
  simp only [Desk.act, Option.some.injEq] at hact
  simp only [actIncidents, actChronicle]
  cases hbegin : d.agenda.scheduleRepeating period ⟨label, body⟩ with
  | ok begun =>
    rw [hbegin] at hact
    cases hact
    obtain ⟨hchain, harm⟩ := Agenda.scheduleRepeating_eq_ok_iff.mp hbegin
    rw [hchain] at harm ⊢
    exact ⟨hk.begin h harm, by simp⟩
  | error abort =>
    rw [hbegin] at hact
    cases hact
    have harm := Agenda.scheduleRepeating_eq_error_iff.mp hbegin
    have hnone : (d.agenda.freshHandle.2.resumption d.agenda.freshHandle.1 period 1
        ⟨label, body⟩) = [] := Agenda.resumption_eq_nil harm
    have hunread := Agenda.now_of_arm_eq_error (a := d.agenda.freshHandle.2) harm
    rw [hnone]
    refine ⟨?_, fun _ _ ↦ ⟨abort, hunread⟩⟩
    simpa using h

/-- Every action keeps it, if it is kept when the clock is moved on, or the action does not move the
clock. An action that does not move the clock is aborted only if the clock cannot be read. -/
theorem act {action : Action L} {response : Response}
    (hpass : action.moves = true → .moved ∈ history ∨ ∀ due, reach due)
    (hshift : action.moves = true → ∀ more d clock, told (history ++ more) d →
      clock.start = d.agenda.clock.start → d.agenda.clock.shown ≤ clock.shown →
      told (history ++ more) { d with agenda.clock := clock })
    (h : told history d) (hact : Desk.act (attend fuel) fuel action d = some (response, d')) :
    told (history ++ actIncidents (attend fuel) (attendIncidents fuel) fuel action d) d' ∧
      ∀ abort, response = .aborted abort →
        action.moves = true ∨ ∃ abort, d'.agenda.clock.now = .error abort := by
  have hunchanged : told (history ++ []) d := by
    rw [List.append_nil]
    exact h
  cases action with
  | schedule label delay body =>
    obtain ⟨htold, hnow⟩ := hk.schedule h hact
    exact ⟨htold, fun abort hr ↦ .inr (hnow abort hr)⟩
  | scheduleRepeating label period body =>
    obtain ⟨htold, hnow⟩ := hk.scheduleRepeating h hact
    exact ⟨htold, fun abort hr ↦ .inr (hnow abort hr)⟩
  | cancel label =>
    simp only [Desk.act] at hact
    simp only [actIncidents, actChronicle]
    cases hhandle : d.handle? label with
    | none =>
      rw [hhandle] at hact
      cases hact
      exact ⟨hunchanged, by simp⟩
    | some handle =>
      rw [hhandle] at hact
      cases hact
      exact ⟨hk.cancel h hhandle, by simp⟩
  | isCancelled label =>
    simp only [Desk.act] at hact
    split at hact
    · cases hact
      exact ⟨hunchanged, by simp⟩
    · cases hact
      exact ⟨hunchanged, by simp⟩
  | advance duration =>
    by_cases hzero : duration = .zero
    · subst hzero
      obtain ⟨htold, hnow⟩ := hk.advance_zero hinside h hact
      exact ⟨htold, fun abort hr ↦ .inr (hnow abort hr)⟩
    · have hmoves : (Action.advance duration : Action L).moves = true := decide_eq_true hzero
      exact ⟨hk.advance_shift hinside h (hpass hmoves) (hshift hmoves) hact, fun _ _ ↦ .inl hmoves⟩
  | runPending =>
    obtain ⟨htold, hnow⟩ := hk.advance_zero hinside h hact
    exact ⟨htold, fun abort hr ↦ .inr (hnow abort hr)⟩
  | moveClock duration =>
    simp only [Desk.act] at hact
    refine ⟨?_, fun _ _ ↦ .inl rfl⟩
    cases hmove : d.agenda.moveClock duration with
    | ok a =>
      simp only [hmove, Option.some.injEq, Prod.mk.injEq] at hact
      obtain ⟨rfl, rfl⟩ := hact
      have honward := Agenda.Onward.moveClock hmove
      obtain ⟨clock, rfl⟩ := Agenda.moveClock_eq_ok hmove
      exact hshift rfl [] d clock hunchanged honward.start honward.shown
    | error abort =>
      simp only [hmove, Option.some.injEq, Prod.mk.injEq] at hact
      obtain ⟨rfl, rfl⟩ := hact
      exact hunchanged
  | shutdown =>
    cases hact
    exact ⟨hk.stop h, by simp⟩
  | elapsed | pending | isShutdown | describe =>
    cases hact
    exact ⟨hunchanged, by simp⟩

private theorem act_inside {action : Action L} {response : Response} (h : told history d)
    (hact : Desk.act (attend fuel) fuel action d = some (response, d')) :
    told (history ++ (action.notice ++
      actIncidents (attend fuel) (attendIncidents fuel) fuel action d ++ response.notice)) d' := by
  have hbefore : told (history ++ action.notice) d := by
    rw [Action.notice]
    split
    · exact hk.moving h
    · rw [List.append_nil]
      exact h
  have hmoved (hmoves : action.moves = true) (more : List (Incident L)) :
      .moved ∈ history ++ action.notice ++ more := by
    rw [Action.notice, if_pos hmoves]
    simp
  have hpass (hmoves : action.moves = true) :
      .moved ∈ history ++ action.notice ∨ ∀ due, reach due := by
    have hmem := hmoved hmoves []
    rw [List.append_nil] at hmem
    exact .inl hmem
  obtain ⟨htold, hfail⟩ := hk.act hinside hpass
    (fun hmoves more d clock h hstart hshown ↦ hk.shift (hmoved hmoves more) h hstart hshown)
    hbefore hact
  rw [← List.append_assoc, ← List.append_assoc]
  cases response with
  | aborted abort =>
    exact hk.fail htold ((hfail abort rfl).imp (fun hmoves ↦ hmoved hmoves _) id)
  | _ => simpa [Response.notice] using htold

end

variable (hk : Keeps reach told)

include hk

/-- Following an errand keeps it. -/
theorem follow (h : told history d) {label : L} {errand : Errand L} {again : Bool}
    (hfollow : Desk.follow fuel label errand d = some (again, d')) :
    told (history ++ followIncidents fuel label errand d) d' := by
  induction fuel generalizing history label errand d again d' with
  | zero =>
    cases errand with
    | done again =>
      cases hfollow
      simpa [followIncidents] using h
    | act action next => cases hfollow
  | succ fuel ih =>
    cases errand with
    | done again =>
      cases hfollow
      simpa [followIncidents] using h
    | act action next =>
      obtain ⟨response, d₁, hact, hrest⟩ := follow_act_eq_some_iff.mp hfollow
      have hinside (history : List (Incident L)) (c : Commission L) (run : Nat) (d : Desk L)
          (again : Bool) (d' : Desk L) (h : told history d)
          (hattend : Desk.attend fuel c run d = some (again, d')) :
          told (history ++ attendIncidents fuel c run d) d' :=
        ih (hk.note _ h) hattend
      have hacted := ih (hk.note _ (hk.act_inside hinside h hact)) hrest
      rw [followIncidents_act hact]
      simpa using hacted

/-- Attending to a commission keeps it. -/
theorem attend (h : told history d) {c : Commission L} {run : Nat} {again : Bool}
    (hattend : Desk.attend fuel c run d = some (again, d')) :
    told (history ++ attendIncidents fuel c run d) d' :=
  hk.follow (hk.note _ h) hattend

/-- An action from outside that does not move the clock keeps it. It is aborted only if the clock
cannot be read. -/
theorem step {action : Action L} {response : Response} (hstill : action.moves = false)
    (h : told history d) (hstep : d.step fuel action = some (response, d')) :
    told (history ++ actIncidents (Desk.attend fuel) (attendIncidents fuel) fuel action d) d' ∧
      ∀ abort, response = .aborted abort → ∃ abort, d'.agenda.clock.now = .error abort := by
  have hnot {p : Prop} (hmoves : action.moves = true) : p := by
    rw [hstill] at hmoves
    cases hmoves
  obtain ⟨htold, hfail⟩ :=
    hk.act (fun _ _ _ _ _ _ h hattend ↦ hk.attend h hattend) hnot hnot h hstep
  exact ⟨htold, fun abort hr ↦ (hfail abort hr).resolve_left hnot⟩

/-- Letting time pass from outside keeps it up to the point where the clock is moved on to the end
of that time. -/
theorem step_advance (history : List (Incident L)) (h : told history d) {t : Duration}
    (hpass : ∀ now, d.agenda.clock.now = .ok now → ∀ due,
      Agenda.within (now.add? t) due = true → reach due ∨ due.nanos ≤ d.agenda.clock.shown)
    {response : Response} (hstep : d.step fuel (.advance t) = some (response, d')) :
    ∃ d₁, told (history ++
        actIncidents (Desk.attend fuel) (attendIncidents fuel) fuel (.advance t) d) d₁ ∧
      d.agenda.Onward d₁.agenda ∧
      ((∃ abort, response = .aborted abort ∧ d'.agenda.clock.now = .error abort ∧ d' = d₁) ∨
        ∃ now count, d.agenda.clock.now = .ok now ∧ response = .executed count ∧
          d₁.agenda.take? (now.add? t) = none ∧
          ((now.add? t = none ∧ d' = d₁) ∨ ∃ instant, now.add? t = some instant ∧
            d' = withAgenda d₁ (d₁.agenda.readied instant))) := by
  have hinside (history : List (Incident L)) (c : Commission L) (run : Nat) (d : Desk L)
      (again : Bool) (d' : Desk L) (h : told history d)
      (hattend : Desk.attend fuel c run d = some (again, d')) :
      told (history ++ attendIncidents fuel c run d) d' :=
    hk.attend h hattend
  rcases act_advance_eq_some_iff.mp hstep with ⟨count, rfl, hadvance⟩ | ⟨abort, rfl, hadvance⟩
  · obtain ⟨d₁, htold, honward, ⟨_, hr, _⟩ | ⟨now, count, hnow, hr, hend⟩⟩ :=
      hk.advance hinside h (.inr hpass) hadvance
    · cases hr
    · cases hr
      exact ⟨d₁, htold, honward, .inr ⟨now, count, hnow, rfl, hend⟩⟩
  · obtain ⟨d₁, htold, honward, ⟨abort, hr, hend⟩ | ⟨_, _, _, hr, _⟩⟩ :=
      hk.advance hinside h (.inr hpass) hadvance
    · cases hr
      exact ⟨d₁, htold, honward, .inl ⟨abort, rfl, hend⟩⟩
    · cases hr

/-- Actions from outside keep it, if it is kept whenever the clock is moved on. -/
theorem play (history : List (Incident L)) (hreach : ∀ due, reach due)
    (hshift : ∀ history d clock, told history d → clock.start = d.agenda.clock.start →
      d.agenda.clock.shown ≤ clock.shown → told history { d with agenda.clock := clock })
    (h : told history d) {actions : List (Action L)} {responses : List Response}
    (hplay : Desk.play fuel actions d = some (responses, d')) :
    told (history ++ incidents fuel actions d) d' := by
  induction actions generalizing history d responses with
  | nil =>
    cases hplay
    simpa [incidents] using h
  | cons action rest ih =>
    obtain ⟨response, d₁, later, hstep, hrest, rfl⟩ := play_cons_eq_some_iff.mp hplay
    rw [incidents_cons hstep, ← List.append_assoc]
    have hacted := hk.act (fun _ _ _ _ _ _ h hattend ↦ hk.attend h hattend)
      (fun _ ↦ .inr hreach) (fun _ more d clock ↦ hshift (history ++ more) d clock) h hstep
    exact ih _ hacted.1 hrest

end Keeps

end Desk

end Caching
