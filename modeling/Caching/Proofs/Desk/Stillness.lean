import Caching.Proofs.Desk.Laws

/-!
# Errands that do not move the clock

An errand is still if it only submits, cancels, shuts down, looks around and runs what is due
already, and if what it submits is still as well. As long as all errands on a desk are still,
letting time pass at once is the same as letting it pass in two parts: the same errands are started
in the same order with the same clock readings and answers, and the desk is left the same.
-/

namespace Caching

variable {L : Type}

mutual

/-- The action does not move the clock, now or later. -/
def Action.IsStill : Action L → Prop
  | .schedule _ _ body => body.IsStill
  | .scheduleRepeating _ _ body => ∀ run, (body run).IsStill
  | .advance _ | .moveClock _ => False
  | .cancel _ | .isCancelled _ | .runPending | .elapsed | .pending | .shutdown | .isShutdown
  | .describe => True

/-- The errand does not move the clock, whatever it is answered. -/
def Errand.IsStill : Errand L → Prop
  | .done _ => True
  | .act action next => action.IsStill ∧ ∀ response, (next response).IsStill

end

/-- No run of the commission moves the clock. -/
def Commission.IsStill (c : Commission L) : Prop :=
  ∀ run, (c.body run).IsStill

namespace Desk

/-- The clock of the desk stands still: its errands do not move it. -/
structure StandsStill (clock : Clock) (d : Desk L) : Prop where
  clock_eq : d.agenda.clock = clock
  still : ∀ e ∈ d.agenda.queue, e.job.body.IsStill

namespace StandsStill

variable {clock : Clock} {d d' : Desk L} {now : Instant}

private theorem congr (h : StandsStill clock d) (hagenda : d'.agenda = d.agenda) :
    StandsStill clock d' :=
  ⟨hagenda ▸ h.clock_eq, hagenda ▸ h.still⟩

private theorem note (h : StandsStill clock d) (notice : Notice L) :
    StandsStill clock (d.note notice) :=
  h.congr rfl

private theorem submit (h : StandsStill clock d) {delay : Duration} {job : Job (Commission L)}
    (hjob : job.body.IsStill) {handle : Handle} {a : Agenda (Commission L)}
    (hsubmit : d.agenda.submit delay job = .ok (handle, a)) :
    StandsStill clock (withAgenda d a) := by
  obtain ⟨hclock, hqueue⟩ := Agenda.submit_cases hsubmit
  constructor
  · exact hclock.trans h.clock_eq
  · intro e he
    rcases hqueue e he with he | heq
    · exact h.still e he
    · rw [heq]
      exact hjob

private theorem arm (h : StandsStill clock d) {chain : Handle} {period : Duration} {run : Nat}
    {c : Commission L} (hc : c.IsStill) {a : Agenda (Commission L)}
    (harm : d.agenda.arm chain period run c = .ok a) : StandsStill clock (withAgenda d a) := by
  rcases Agenda.arm_cases harm with rfl | ⟨handle, hsubmit⟩
  · exact h.congr rfl
  · have hjob : (Job.link chain period run c).body.IsStill := hc
    exact h.submit hjob hsubmit

private theorem take (h : StandsStill clock d) (hnow : clock.now = .ok now) {live : Bool}
    {e : Entry (Commission L)} {a : Agenda (Commission L)}
    (htake : d.agenda.take? (some now) = some (live, e, a)) :
    e.job.body.IsStill ∧ StandsStill clock (withAgenda d a) := by
  obtain ⟨_, hwithin, _, rest, hqueue, rfl⟩ := Agenda.take?_eq_some_iff.mp htake
  have hdue : e.due ≤ now := of_decide_eq_true hwithin
  refine ⟨h.still e (hqueue ▸ List.mem_cons_self), ?_, ?_⟩
  · show d.agenda.clock.advanceTo e.due = clock
    rw [h.clock_eq, Clock.advanceTo_of_le hnow hdue]
  · intro e' he'
    exact h.still e' (hqueue ▸ List.mem_cons_of_mem e he')

/-- A job whose errand keeps the clock keeps it, and it is not aborted. -/
theorem perform (h : StandsStill clock d) (hnow : clock.now = .ok now)
    {attend : Attend (Desk L) (Commission L)} {job : Job (Commission L)} (hjob : job.body.IsStill)
    (hattend : ∀ c run d again d', c.IsStill → StandsStill clock d →
      attend c run d = some (again, d') → StandsStill clock d')
    {r : Except Abort Unit} (hperform : job.perform attend d = some (r, d')) :
    r = .ok () ∧ StandsStill clock d' := by
  constructor
  · apply job.perform_ok _ hperform
    rintro chain period run c again d₁ rfl hc
    have hd₁ := hattend c run d again d₁ hjob h hc
    exact Agenda.arm_ok (hd₁.clock_eq ▸ hnow) chain period (run + 1) c
  · refine job.perform_kept ?_ ?_ (fun _ h ↦ h) h hperform
    · rintro c again d d₁ rfl hd hc
      exact hattend c 1 d again d₁ hjob hd hc
    · rintro chain period run c again d d₁ rfl hd hc
      have hd₁ := hattend c run d again d₁ hjob hd hc
      exact ⟨hd₁, fun a harm ↦ hd₁.arm hjob harm⟩

private theorem runPending (h : StandsStill clock d) (hnow : clock.now = .ok now)
    {attend : Attend (Desk L) (Commission L)}
    (hattend : ∀ c run d again d', c.IsStill → StandsStill clock d →
      attend c run d = some (again, d') → StandsStill clock d')
    {fuel : Nat} {r : Except Abort Nat}
    (hadvance : advance attend fuel .zero d = some (r, d')) : StandsStill clock d' := by
  have hzero : now.add? .zero = some now := by
    rw [Instant.add?_eq_some_iff]
    exact (Int.add_zero _).symm
  rcases advance_cases hadvance with ⟨_, _, rfl⟩ | ⟨now', d₁, hnow', hdrain, hend⟩
  · exact h
  · have hsame : Except.ok now' = .ok now := hnow'.symm.trans (h.clock_eq ▸ hnow)
    cases hsame
    rw [hzero] at hdrain hend
    have hskip (d : Desk L) (e : Entry (Commission L)) (a : Agenda (Commission L))
        (hd : StandsStill clock d) (htake : d.agenda.take? (some now) = some (false, e, a)) :=
      (hd.take hnow htake).2
    have hstart (d : Desk L) (e : Entry (Commission L)) (a : Agenda (Commission L))
        (r : Except Abort Unit) (d' : Desk L) (hd : StandsStill clock d)
        (htake : d.agenda.take? (some now) = some (true, e, a))
        (hperform : e.job.perform attend (withAgenda d a) = some (r, d')) :=
      ((hd.take hnow htake).2.perform hnow (hd.take hnow htake).1 hattend hperform).2
    obtain ⟨hd₁, _⟩ := drain_kept hskip hstart h hdrain
    rcases hend with ⟨_, _, rfl⟩ | ⟨hnone, _⟩ | ⟨instant, _, _, htarget, rfl⟩
    · exact hd₁
    · cases hnone
    · cases htarget
      constructor
      · show d₁.agenda.clock.advanceTo now = clock
        rw [hd₁.clock_eq, Clock.advanceTo_of_le hnow (Int.le_refl _)]
      · exact hd₁.still

private theorem register (h : StandsStill clock d) {label : L}
    {r : Except Abort (Handle × Agenda (Commission L))}
    (hsubmit : ∀ handle a, r = .ok (handle, a) → StandsStill clock (withAgenda d a)) :
    StandsStill clock (d.register label r).2 := by
  cases r with
  | error abort => exact h
  | ok submitted => exact (hsubmit submitted.1 submitted.2 rfl).congr rfl

variable [DecidableEq L]

private theorem act (h : StandsStill clock d) (hnow : clock.now = .ok now)
    {attend : Attend (Desk L) (Commission L)}
    (hattend : ∀ c run d again d', c.IsStill → StandsStill clock d →
      attend c run d = some (again, d') → StandsStill clock d')
    {fuel : Nat} {action : Action L} (haction : action.IsStill) {response : Response}
    (hact : Desk.act attend fuel action d = some (response, d')) : StandsStill clock d' := by
  cases action with
  | schedule label delay body =>
    simp only [Desk.act, Option.some.injEq] at hact
    obtain rfl := congrArg Prod.snd hact
    refine h.register fun handle a hsubmit ↦ ?_
    have hbody : (Job.once (⟨label, fun _ ↦ body⟩ : Commission L)).body.IsStill :=
      fun _ ↦ haction
    exact h.submit hbody hsubmit
  | scheduleRepeating label period body =>
    simp only [Desk.act, Option.some.injEq] at hact
    obtain rfl := congrArg Prod.snd hact
    refine h.register fun handle a hsubmit ↦ ?_
    have hfresh : StandsStill clock (withAgenda d d.agenda.freshHandle.2) :=
      ⟨h.clock_eq, h.still⟩
    have hbody : Commission.IsStill ⟨label, body⟩ := haction
    exact (hfresh.arm hbody (Agenda.scheduleRepeating_eq_ok_iff.mp hsubmit).2).congr rfl
  | cancel label =>
    simp only [Desk.act] at hact
    split at hact
    · next handle _ =>
      cases hact
      exact ⟨(d.agenda.clock_cancel handle).trans h.clock_eq,
        fun e he ↦ h.still e (d.agenda.queue_cancel handle ▸ he)⟩
    · cases hact
      exact h
  | isCancelled label =>
    simp only [Desk.act] at hact
    split at hact <;> cases hact <;> exact h
  | runPending =>
    rw [act_runPending, act_advance_eq_some_iff] at hact
    rcases hact with ⟨_, _, hadvance⟩ | ⟨_, _, hadvance⟩
    · exact h.runPending hnow hattend hadvance
    · exact h.runPending hnow hattend hadvance
  | shutdown =>
    cases hact
    exact ⟨h.clock_eq, fun e he ↦ absurd he List.not_mem_nil⟩
  | advance _ | moveClock _ => exact haction.elim
  | elapsed | pending | isShutdown | describe =>
    cases hact
    exact h

/-- An errand that is still keeps the clock. -/
theorem follow (h : StandsStill clock d) (hnow : clock.now = .ok now) {fuel : Nat} {label : L}
    {errand : Errand L} (herrand : errand.IsStill) {again : Bool}
    (hfollow : Desk.follow fuel label errand d = some (again, d')) : StandsStill clock d' := by
  induction fuel generalizing label errand d again d' with
  | zero =>
    cases errand with
    | done again =>
      cases hfollow
      exact h
    | act action next => cases hfollow
  | succ fuel ih =>
    cases errand with
    | done again =>
      cases hfollow
      exact h
    | act action next =>
      obtain ⟨response, d₁, hact, hrest⟩ := follow_act_eq_some_iff.mp hfollow
      have hattend (c : Commission L) (run : Nat) (d : Desk L) (again : Bool) (d' : Desk L)
          (hc : c.IsStill) (hd : StandsStill clock d)
          (hattend : Desk.attend fuel c run d = some (again, d')) : StandsStill clock d' :=
        ih (hd.note _) (hc run) hattend
      have hd₁ := h.act hnow hattend herrand.1 hact
      exact ih (hd₁.note _) (herrand.2 response) hrest

private theorem attend (h : StandsStill clock d) (hnow : clock.now = .ok now) {fuel : Nat}
    {c : Commission L} (hc : c.IsStill) {run : Nat} {again : Bool}
    (hattend : Desk.attend fuel c run d = some (again, d')) : StandsStill clock d' :=
  (h.note _).follow hnow (hc run) hattend

end StandsStill

/-- The clock of the desk can be read, and only draining and letting time pass moves it. -/
def IsAtRest (d : Desk L) : Prop :=
  (∃ now, d.agenda.clock.now = .ok now) ∧ ∀ e ∈ d.agenda.queue, e.job.body.IsStill

namespace IsAtRest

variable {d d' : Desk L} {target : Option Instant} {e : Entry (Commission L)}
  {a : Agenda (Commission L)} {live : Bool}

private theorem take (h : d.IsAtRest) (htake : (agenda d).take? target = some (live, e, a)) :
    (∃ now, a.clock.now = .ok now) ∧ e.job.body.IsStill ∧
      StandsStill a.clock (withAgenda d a) := by
  obtain ⟨⟨now, hnow⟩, hstill⟩ := h
  obtain ⟨_, _, _, rest, hqueue, rfl⟩ := Agenda.take?_eq_some_iff.mp htake
  change d.agenda.queue = e :: rest at hqueue
  rw [hqueue] at hstill
  refine ⟨⟨_, Clock.now_advanceTo hnow e.due⟩, hstill e List.mem_cons_self, rfl, ?_⟩
  exact fun e' he' ↦ hstill e' (List.mem_cons_of_mem e he')

/-- An entry that is skipped leaves a desk at rest. -/
theorem skip (h : d.IsAtRest) (htake : (agenda d).take? target = some (live, e, a)) :
    (withAgenda d a).IsAtRest :=
  ⟨(h.take htake).1, (h.take htake).2.2.still⟩

variable [DecidableEq L]

/-- An entry that is started leaves a desk at rest. It is not aborted, and it leaves the clock where
it was taken. -/
theorem start (h : d.IsAtRest) (htake : (agenda d).take? target = some (live, e, a)) {fuel : Nat}
    {r : Except Abort Unit}
    (hperform : e.job.perform (Desk.attend fuel) (withAgenda d a) = some (r, d')) :
    r = .ok () ∧ (agenda d').clock = a.clock ∧ d'.IsAtRest := by
  obtain ⟨⟨now, hnow⟩, hjob, hstands⟩ := h.take htake
  have hattend (c : Commission L) (run : Nat) (d : Desk L) (again : Bool) (d' : Desk L)
      (hc : c.IsStill) (hd : StandsStill a.clock d)
      (hattend : Desk.attend fuel c run d = some (again, d')) : StandsStill a.clock d' :=
    hd.attend hnow hc hattend
  obtain ⟨hr, hd'⟩ := hstands.perform hnow hjob hattend hperform
  exact ⟨hr, hd'.clock_eq, ⟨now, hd'.clock_eq ▸ hnow⟩, hd'.still⟩

end IsAtRest

variable [DecidableEq L]

/-- Letting time pass in two parts starts the same errands as letting it pass at once, and leaves
the same desk: the log tells of the same starts, clock readings and answers. -/
theorem step_advance_add {fuel : Nat} {a b : Duration} {now : Instant} {d : Desk L}
    (hnow : d.agenda.clock.now = .ok now)
    (hrange : now.nanos + a.nanos + b.nanos < instantBound)
    (hstill : ∀ e ∈ d.agenda.queue, e.job.body.IsStill) :
    ∃ ab, a.add? b = some ab ∧ ∀ response d', d.step fuel (.advance ab) = some (response, d') →
      ∃ n₁ n₂ mid, d.step fuel (.advance a) = some (.executed n₁, mid) ∧
        mid.step fuel (.advance b) = some (.executed n₂, d') ∧
        response = .executed (n₁ + n₂) := by
  obtain ⟨first, hfirst⟩ : ∃ first, now.add? a = some first :=
    Instant.exists_add? (by omega)
  have hfirst' := Instant.add?_eq_some_iff.mp hfirst
  obtain ⟨last, hlast⟩ : ∃ last, first.add? b = some last :=
    Instant.exists_add? (by omega)
  obtain ⟨ab, hsum⟩ := Duration.exists_add? hrange
  refine ⟨ab, hsum, fun response d' hstep ↦ ?_⟩
  have hrest : d.IsAtRest := ⟨⟨now, hnow⟩, hstill⟩
  obtain ⟨count, rfl, hadvance⟩ : ∃ count, response = .executed count ∧
      advance (Desk.attend fuel) fuel ab d = some (.ok count, d') := by
    rcases act_advance_eq_some_iff.mp hstep with hcounted | ⟨abort, _, hadvance⟩
    · exact hcounted
    · obtain ⟨count, hcount⟩ := advance_ok (fun _ _ _ h htake ↦ h.skip htake)
        (fun _ _ _ _ _ h htake hperform ↦
          ⟨(h.start htake hperform).1, (h.start htake hperform).2.2⟩) hrest hnow hadvance
      cases hcount
  obtain ⟨n₁, n₂, mid, hcount, ha, hb⟩ := advance_split hfirst hlast hsum
    (fun _ _ _ h htake ↦ h.skip htake)
    (fun _ _ _ _ _ h htake hperform ↦ (h.start htake hperform).2) hrest hnow hadvance
  refine ⟨n₁, n₂, mid, act_advance_eq_some_iff.mpr (.inl ⟨n₁, rfl, ha⟩),
    act_advance_eq_some_iff.mpr (.inl ⟨n₂, rfl, hb⟩), ?_⟩
  rw [hcount]

/-- An errand that is due after one nanosecond submits another one that is due after three. The
first one is started within two nanoseconds, and the other one within one more. -/
theorem step_advance_add_of_followup :
    let clock : Clock := .ofStart ⟨0, by decide, by decide⟩
    let errand : Errand Nat :=
      .ofList false [.elapsed, .schedule 2 ⟨2, by decide⟩ (.ofList false [.pending])]
    let entry : Entry (Commission Nat) :=
      ⟨⟨1, by decide, by decide⟩, 0, ⟨0⟩, .once ⟨1, fun _ ↦ errand⟩⟩
    let d : Desk Nat := ⟨⟨clock, [entry], 1, 1, [], false, []⟩, [], []⟩
    (∀ e ∈ d.agenda.queue, e.job.body.IsStill) ∧
      ∃ d' n₁ n₂ mid, d.step 5 (.advance ⟨3, by decide⟩) = some (.executed 2, d') ∧
        d.step 5 (.advance ⟨2, by decide⟩) = some (.executed n₁, mid) ∧
        mid.step 5 (.advance ⟨1, by decide⟩) = some (.executed n₂, d') ∧ n₁ + n₂ = 2 ∧
        d'.log = [.fired 1 ⟨1, by decide⟩, .answered 1 (.elapsed ⟨1, by decide⟩),
          .answered 1 (.cancelled false), .fired 2 ⟨3, by decide⟩, .answered 2 (.count 0)] := by
  intro clock errand entry d
  have hstill (e : Entry (Commission Nat)) (he : e ∈ d.agenda.queue) : e.job.body.IsStill := by
    rw [List.mem_singleton.mp he]
    intro run
    exact ⟨trivial, fun _ ↦ ⟨⟨trivial, fun _ ↦ trivial⟩, fun _ ↦ trivial⟩⟩
  refine ⟨hstill, ?_⟩
  have hnow : d.agenda.clock.now = .ok ⟨0, by decide, by decide⟩ := Clock.now_eq_ok_iff.mpr rfl
  obtain ⟨ab, hsum, hparts⟩ :=
    @step_advance_add Nat _ 5 ⟨2, by decide⟩ ⟨1, by decide⟩ _ d hnow (by decide) hstill
  have hab : ab = ⟨3, by decide⟩ := Duration.ext (Duration.add?_eq_some_iff.mp hsum)
  subst hab
  have hends : (d.step 5 (.advance ⟨3, by decide⟩)).map (fun r ↦ (r.1, r.2.log)) =
      some (.executed 2, [.fired 1 ⟨1, by decide⟩, .answered 1 (.elapsed ⟨1, by decide⟩),
        .answered 1 (.cancelled false), .fired 2 ⟨3, by decide⟩, .answered 2 (.count 0)]) := by
    decide +kernel
  obtain ⟨⟨response, d'⟩, hstep, hlog⟩ := Option.map_eq_some_iff.mp hends
  simp only [Prod.mk.injEq] at hlog
  obtain ⟨rfl, hlog⟩ := hlog
  obtain ⟨n₁, n₂, mid, ha, hb, hcount⟩ := hparts _ _ hstep
  exact ⟨d', n₁, n₂, mid, hstep, ha, hb, (Response.executed.inj hcount).symm, hlog⟩

end Desk

end Caching
