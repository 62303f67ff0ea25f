import Caching.Proofs.Desk.Chains
import Caching.Proofs.Desk.Endurance
import Mathlib.Data.ENat.Lattice

/-!
# Repeated errands run on a grid

While time passes from outside, in however many parts, a repeated errand runs once a period: each
run starts exactly one period after the one before, whatever else is due at the same instants, for
as long as its body asks for more.
-/

namespace Caching

variable {L : Type}

/-- The time that the action lets pass. -/
def Action.span : Action L → Nat
  | .advance d => d.nanos
  | .schedule _ _ _ | .scheduleRepeating _ _ _ | .cancel _ | .isCancelled _ | .runPending
  | .moveClock _ | .elapsed | .pending | .shutdown | .isShutdown | .describe => 0

private theorem Action.span_eq_zero {action : Action L} (h : action.moves = false) :
    action.span = 0 := by
  cases action with
  | advance d =>
    have hzero : d = .zero := by simpa [moves] using h
    rw [hzero]
    rfl
  | _ => rfl

namespace Course

variable {k : Course L} {history : List (Incident L)} {d d' d₀ d₁ : Desk L}

/-- The same chain, followed from a later moment on. -/
def since (k : Course L) (base : Int) : Course L :=
  { k with base }

/-- When the clock is moved on after everything that was due has had its turn, the next run is still
to come. -/
theorem Followed.ready (h : k.Followed history d) {target : Instant}
    (hdone : d.agenda.take? (some target) = none) (hlimit : target.nanos ≤ k.limit)
    (hreached : (d.agenda.readied target).clock.shown = target.nanos) :
    (k.since target.nanos).Followed history (withAgenda d (d.agenda.readied target)) := by
  refine ⟨⟨⟨h.orderly.awaits, h.orderly.cancelled, h.orderly.directory⟩, h.orderly.unseen,
    h.orderly.ordered⟩, h.given, h.own, h.single, h.cancels, h.silent, ?_⟩
  rcases h.placed with hmoved | hcancelled | hstopped | ⟨n, asked, hplaced⟩
  · exact .inl hmoved
  · exact .inr (.inl hcancelled)
  · exact .inr (.inr (.inl hstopped))
  · cases hstopped : d.agenda.stopped with
    | true => exact .inr (.inr (.inl hstopped))
    | false =>
      have honward := (Agenda.Onward.readied d.agenda target).shown
      refine .inr (.inr (.inr ⟨n, asked, hplaced.runs, hplaced.continued,
        Int.le_trans hplaced.passed honward, Int.le_of_eq hreached.symm, hreached ▸ hlimit, ?_⟩))
      refine hplaced.waits.imp_left ?_
      rintro ⟨heq, e, hlink, hjob, hplace, -, -⟩
      have hmem : e ∈ d.agenda.queue :=
        (Agenda.mem_links.mp (hlink ▸ List.mem_singleton_self e)).1
      obtain ⟨instant, hinstant, hlater⟩ :=
        Agenda.within_of_take?_eq_none hstopped h.orderly.ordered hdone hmem
      obtain rfl := Option.some.inj hinstant
      have hle := Int.le_trans (Int.le_of_eq hreached) (Int.le_of_lt hlater)
      exact ⟨heq, e, hlink, hjob, hplace, hle, hlater⟩

variable [DecidableEq L] {fuel : Nat}

/-- A chain is started on a desk that is running. Its first run waits. -/
theorem Followed.begin (h : d₀.Orderly) (hlive : d₀.agenda.stopped = false) {t : Instant}
    (hnow : d₀.agenda.clock.now = .ok t) {label : L} {period : Duration} {body : Nat → Errand L}
    (hperiod : 0 < period.nanos) {limit : Int} (hstart : t.nanos ≤ limit)
    (hlimit : limit + period.nanos < instantBound) {response : Response}
    (hstep : d₀.step fuel (.scheduleRepeating label period body) = some (response, d₁)) :
    response = .cancelled false ∧ d₁.agenda.clock.shown = t.nanos ∧
      (⟨⟨d₀.agenda.nextHandle⟩, period, ⟨label, body⟩, t.nanos, t.nanos, limit⟩ :
        Course L).Followed [] d₁ := by
  have hlivechain : d₀.agenda.freshHandle.2.isCancelled ⟨d₀.agenda.nextHandle⟩ = false := by
    rw [Agenda.isCancelled, List.contains_eq_mem, decide_eq_false_iff_not]
    exact fun hmem ↦ Nat.lt_irrefl _ (h.cancelled _ hmem)
  obtain ⟨due, hadd⟩ := Instant.exists_add? (a := t) (d := period) (by omega)
  have hdue := Instant.add?_eq_some_iff.mp hadd
  let job : Job (Commission L) := .link ⟨d₀.agenda.nextHandle⟩ period 1 ⟨label, body⟩
  let a : Agenda (Commission L) := d₀.agenda.freshHandle.2.booked (some due) job
  have harm : d₀.agenda.freshHandle.2.arm ⟨d₀.agenda.nextHandle⟩ period 1 ⟨label, body⟩ =
      .ok a := by
    have hsubmit := Agenda.submit_eq (a := d₀.agenda.freshHandle.2) hnow hlive period job
    rw [hadd] at hsubmit
    have hrunning : d₀.agenda.freshHandle.2.stopped = false := hlive
    rw [Agenda.arm, hlivechain, hrunning, Bool.or_false, if_neg Bool.false_ne_true, hsubmit]
    rfl
  have hbegun := Agenda.scheduleRepeating_eq_ok_iff.mpr ⟨rfl, harm⟩
  have hnone : d₀.agenda.freshHandle.2.links ⟨d₀.agenda.nextHandle⟩ = [] := by
    refine List.eq_nil_iff_forall_not_mem.mpr fun e he ↦ ?_
    obtain ⟨hmem, hchain⟩ := Agenda.mem_links.mp he
    exact Nat.lt_irrefl _ (h.awaits _ ⟨e, hmem, .inr hchain⟩)
  have hlink : a.links ⟨d₀.agenda.nextHandle⟩ = [⟨due, _, _, job⟩] :=
    Agenda.links_booked hnone due rfl
  have hshown := Clock.now_eq_ok_iff_shown.mp hnow
  simp only [Desk.step, Desk.act, hbegun, Desk.register, Option.some.injEq, Prod.mk.injEq] at hstep
  obtain ⟨rfl, rfl⟩ := hstep
  refine ⟨congrArg Response.cancelled hlivechain, hshown,
    (h.name label).arm harm (Nat.lt_succ_self _), Nat.lt_succ_of_lt (Nat.lt_succ_self _), ?_,
    Nat.le_of_eq (congrArg List.length hlink), by simp, List.Pairwise.nil, ?_⟩
  · intro e he heq
    rcases List.mem_cons.mp ((Agenda.insertEntry_perm _ _).mem_iff.mp he) with rfl | hold
    · exact Nat.succ_ne_self d₀.agenda.nextHandle (congrArg Handle.id heq)
    · exact h.handle_ne hold heq
  · refine .inr (.inr (.inr ⟨0, 1, rfl, ?_, ?_, Int.le_of_eq hshown.symm, hshown ▸ hstart,
      .inl ⟨rfl, _, hlink, rfl, ?_⟩⟩))
    · simp
      omega
    · rw [due_zero]
      exact Int.le_of_eq hshown.symm
    · rw [due_succ, due_zero]
      have hlater : t.nanos < due.nanos := by omega
      exact ⟨hdue, Int.le_trans (Int.le_of_eq hshown) (Int.le_of_lt hlater), hlater⟩

section

variable (hperiod : 0 < k.period.nanos) (hlimit : k.limit + k.period.nanos < instantBound)

include hperiod hlimit

/-- An action from outside leaves a chain on its grid, and takes just the time that it lets pass. -/
theorem Followed.step (h : k.Followed history d) (hbase : k.base = d.agenda.clock.shown)
    {action : Action L} (hhand : ∀ t, action ≠ .moveClock t)
    (hspan : d.agenda.clock.shown + action.span ≤ k.limit) {response : Response}
    (hstep : d.step fuel action = some (response, d'))
    (hstill : .moved ∉ Desk.actIncidents (Desk.attend fuel) (Desk.attendIncidents fuel) fuel
      action d) :
    d'.agenda.clock.shown = d.agenda.clock.shown + action.span ∧
      (k.since d'.agenda.clock.shown).Followed (history ++
        Desk.actIncidents (Desk.attend fuel) (Desk.attendIncidents fuel) fuel action d) d' := by
  have hk := keeps_followed hperiod hlimit
  obtain ⟨now, hnow⟩ := Clock.exists_now (c := d.agenda.clock) (by omega)
  have hshown := Clock.now_eq_ok_iff_shown.mp hnow
  by_cases hmoves : action.moves = true
  · cases action with
    | advance t =>
      obtain ⟨target, htarget⟩ := Instant.exists_add? (a := now) (d := t) (by
        simp only [Action.span] at hspan
        omega)
      have hnanos := Instant.add?_eq_some_iff.mp htarget
      have hpass (now' : Instant) (hnow' : d.agenda.clock.now = .ok now') (due : Instant)
          (hdue : Agenda.within (now'.add? t) due = true) :
          due.nanos ≤ k.limit ∨ due.nanos ≤ d.agenda.clock.shown := by
        obtain rfl := Except.ok.inj (hnow.symm.trans hnow')
        rw [htarget] at hdue
        have hle : due.nanos ≤ target.nanos := of_decide_eq_true hdue
        simp only [Action.span] at hspan
        exact .inl (by omega)
      obtain ⟨⟨count, hexecuted⟩, hread⟩ := Desk.advance_within hnow hstep hstill htarget
      have hreached := Clock.now_eq_ok_iff_shown.mp hread
      obtain ⟨d₁, htold, -, ⟨_, haborted, _⟩ | ⟨now', _, hnow', -, hdone, hend⟩⟩ :=
        hk.step_advance _ h hpass hstep
      · rw [hexecuted] at haborted
        cases haborted
      · obtain rfl := Except.ok.inj (hnow.symm.trans hnow')
        rw [htarget] at hdone hend
        rcases hend with ⟨hnone, -⟩ | ⟨_, hsome, rfl⟩
        · cases hnone
        · obtain rfl := Option.some.inj hsome
          refine ⟨?_, ?_⟩
          · rw [hreached, hnanos, hshown]
            rfl
          · rw [hreached]
            refine htold.ready hdone ?_ hreached
            simp only [Action.span] at hspan
            omega
    | moveClock t => exact absurd rfl (hhand t)
    | _ => cases hmoves
  · have hstays : action.moves = false := Bool.not_eq_true _ ▸ hmoves
    have hclock := (Desk.clock_step ⟨now, hnow⟩ hstays hstep).resolve_left hstill
    rw [Action.span_eq_zero hstays, hclock, ← hbase]
    exact ⟨(Int.add_zero _).symm, (hk.step hstays h hstep).1⟩

/-- So does a run of actions. -/
theorem Followed.play (h : k.Followed history d) (hbase : k.base = d.agenda.clock.shown)
    {actions : List (Action L)} (hhand : ∀ t, .moveClock t ∉ actions)
    (hspan : d.agenda.clock.shown + (actions.map Action.span).sum ≤ k.limit)
    {responses : List Response} (hplay : Desk.play fuel actions d = some (responses, d'))
    (hstill : .moved ∉ Desk.incidents fuel actions d) :
    d'.agenda.clock.shown = d.agenda.clock.shown + (actions.map Action.span).sum ∧
      (k.since d'.agenda.clock.shown).Followed (history ++ Desk.incidents fuel actions d) d' := by
  induction actions generalizing k history d responses with
  | nil =>
    cases hplay
    rw [Desk.incidents, List.append_nil, ← hbase]
    exact ⟨(Int.add_zero _).symm, h⟩
  | cons action rest ih =>
    obtain ⟨response, d₁, later, hstep, hrest, rfl⟩ := Desk.play_cons_eq_some_iff.mp hplay
    rw [Desk.incidents_cons hstep] at hstill ⊢
    simp only [List.mem_append, List.mem_cons, not_or, List.map_cons, List.sum_cons]
      at hstill hhand hspan ⊢
    obtain ⟨hshown, hstepped⟩ := h.step hperiod hlimit hbase (fun t heq ↦ (hhand t).1 heq.symm)
      (by omega) hstep hstill.1
    have hrestspan : d₁.agenda.clock.shown + (rest.map Action.span).sum ≤ k.limit := by omega
    obtain ⟨hend, hplayed⟩ := ih (k := k.since d₁.agenda.clock.shown) hperiod hlimit hstepped rfl
      (fun t ↦ (hhand t).2) hrestspan hrest hstill.2
    rw [List.append_assoc] at hplayed
    exact ⟨by omega, hplayed⟩

end

omit [DecidableEq L] in
private theorem Placed.ran {n asked run : Nat} (h : k.Placed n asked history d) (hpos : 0 < run)
    (hle : run ≤ n) : .ran k.chain run (k.due run) ∈ history := by
  have hrun : run - 1 + 1 = run := Nat.sub_add_cancel hpos
  have hmem : (run, k.due run) ∈ k.grid n :=
    List.mem_map.mpr ⟨run - 1, List.mem_range.mpr (by omega), by rw [hrun]⟩
  rw [← h.runs] at hmem
  exact Incident.mem_filterMap_runOf?.mp hmem

omit [DecidableEq L] in
/-- No other run was noted. -/
theorem Placed.run_le {n asked run : Nat} {shown : Int} (h : k.Placed n asked history d)
    (hran : .ran k.chain run shown ∈ history) : 0 < run ∧ run ≤ n := by
  have hmem := Incident.mem_filterMap_runOf?.mpr hran
  rw [h.runs, grid, List.mem_map] at hmem
  obtain ⟨i, hi, heq⟩ := hmem
  have hlt := List.mem_range.mp hi
  simp only [Prod.mk.injEq] at heq
  omega

omit [DecidableEq L] in
/-- How many runs are in their places is told by the time that has passed, and by how often the body
asks for another run. -/
theorem Placed.count {n asked passed : Nat} (h : k.Placed n asked history d)
    (hperiod : 0 < k.period.nanos) (hshown : d.agenda.clock.shown = k.start + passed)
    (hbase : k.base = d.agenda.clock.shown) {m : ℕ∞} (hm : 1 ≤ m)
    (hasks : ∀ (run : ℕ) (shown : ℤ), .ran k.chain run shown ∈ history →
      (.continued k.chain (run + 1) ∈ history ↔ (run : ℕ∞) < m)) :
    (n : ℕ∞) = min m ((passed / k.period.nanos : ℕ) : ℕ∞) := by
  have hfit : n ≤ passed / k.period.nanos := by
    have hpassed := h.passed
    rw [hshown, due] at hpassed
    rw [Nat.le_div_iff_mul_le hperiod]
    have hcast : ((n * k.period.nanos : ℕ) : ℤ) ≤ passed := by
      rw [Int.natCast_mul]
      omega
    exact Int.ofNat_le.mp hcast
  rcases h.waits with ⟨rfl, e, -, -, hdue, -, hlater⟩ | ⟨heq, hpos, -⟩
  · -- The next run waits: it does not fit any more.
    have hnofit : passed / k.period.nanos < n + 1 := by
      rw [hbase, hshown, hdue, due] at hlater
      rw [Nat.div_lt_iff_lt_mul hperiod]
      have hcast : (passed : ℤ) < ((n + 1) * k.period.nanos : ℕ) := by
        rw [Int.natCast_mul]
        omega
      exact Int.ofNat_lt.mp hcast
    have hwanted : (n : ℕ∞) ≤ m := by
      cases n with
      | zero => exact zero_le
      | succ i =>
        have hasked := (h.continued (i + 1 + 1)).mpr ⟨by omega, Nat.le_refl _⟩
        exact le_of_lt ((hasks _ _ (h.ran (Nat.succ_pos i) le_rfl)).mp hasked)
    have heq : passed / k.period.nanos = n := by omega
    rw [heq, min_eq_right hwanted]
  · -- The body has asked for no more: the last run was the last one wanted.
    have hlast : m ≤ n := by
      refine not_lt.mp fun hmore ↦ ?_
      have hasked := (hasks n _ (h.ran hpos le_rfl)).mpr hmore
      have hbound := ((h.continued (n + 1)).mp hasked).2
      omega
    have hwanted : (n : ℕ∞) ≤ m := by
      cases n with
      | zero => exact zero_le
      | succ i =>
        cases i with
        | zero => exact hm
        | succ i =>
          have hasked := (h.continued (i + 1 + 1)).mpr ⟨by omega, Nat.le_of_eq heq.symm⟩
          have hmore := (hasks _ _ (h.ran (Nat.succ_pos i) (Nat.le_succ _))).mp hasked
          exact Order.add_one_le_of_lt hmore
    rw [le_antisymm hlast hwanted, min_eq_left (Nat.cast_le.mpr hfit)]

end Course

namespace Desk

variable [DecidableEq L] {d₀ d₁ d : Desk L}

/-- A chain is started at the instant `t` on a desk that is running, in whatever state, and then
actions from outside let time pass in whatever parts, with all that comes due meanwhile. Nobody
moves the clock otherwise. Then one run of the chain waits at any time at most. Unless the chain is
cancelled or the desk shut down, its runs start one period apart, as many as fit into the time that
has passed, but for those that the body does not ask for any more, and then none waits. Once the
chain is cancelled, by whomever, none starts. -/
theorem runs_on_grid {fuel₀ fuel₁ fuel : Nat} {clock : Clock} {before actions : List (Action L)}
    {answers responses : List Response} {response : Response} {t : Instant} {label : L}
    {period : Duration} {body : Nat → Errand L}
    (hbefore : play fuel₀ before (ofClock clock) = some (answers, d₀))
    (hlive : d₀.agenda.stopped = false) (hnow : d₀.agenda.clock.now = .ok t)
    (hperiod : 0 < period.nanos)
    (hstart : d₀.step fuel₁ (.scheduleRepeating label period body) = some (response, d₁))
    (hhand : ∀ s, .moveClock s ∉ actions)
    (hrange : t.nanos + (actions.map Action.span).sum + period.nanos < instantBound)
    (hplay : play fuel actions d₁ = some (responses, d))
    (hstill : .moved ∉ incidents fuel actions d₁) :
    let chain : Handle := ⟨d₀.agenda.nextHandle⟩
    let history := incidents fuel actions d₁
    let passed := (actions.map Action.span).sum
    response = .cancelled false ∧ (d.agenda.links chain).length ≤ 1 ∧
      (d.agenda.isCancelled chain = false → d.agenda.stopped = false →
        (∀ m : ℕ∞, 1 ≤ m →
          (∀ (run : ℕ) (shown : ℤ), .ran chain run shown ∈ history →
            (.continued chain (run + 1) ∈ history ↔ (run : ℕ∞) < m)) →
          ∃ n : ℕ, (n : ℕ∞) = min m ((passed / period.nanos : ℕ) : ℕ∞) ∧
            history.filterMap (Incident.runOf? chain) =
              (List.range n).map fun i ↦ (i + 1, t.nanos + (i + 1 : ℕ) * period.nanos)) ∧
        ∀ (run : ℕ) (shown : ℤ), .ran chain run shown ∈ history →
          .continued chain (run + 1) ∉ history → d.agenda.links chain = []) ∧
      history.Pairwise fun x later ↦
        x = .occurred (.cancelled chain) → ∀ run shown, later ≠ .ran chain run shown := by
  intro chain history passed
  have horderly : d₀.Orderly := (Orderly.ofClock clock).play hbefore
  obtain ⟨hanswer, hshown, hbegun⟩ := Course.Followed.begin horderly hlive hnow hperiod
    (Int.le_add_of_nonneg_right (Int.natCast_nonneg passed)) hrange hstart
  obtain ⟨hend, hfollowed⟩ := hbegun.play hperiod hrange hshown.symm hhand
    (Int.le_of_eq (congrArg (· + (passed : ℤ)) hshown)) hplay hstill
  rw [List.nil_append] at hfollowed
  refine ⟨hanswer, hfollowed.single, fun hlasts hruns ↦ ?_, hfollowed.silent⟩
  rcases hfollowed.placed with hmoved | hcancelled | hstopped | ⟨n, asked, hplaced⟩
  · exact absurd hmoved hstill
  · exact absurd (hlasts.symm.trans hcancelled) Bool.false_ne_true
  · exact absurd (hruns.symm.trans hstopped) Bool.false_ne_true
  · constructor
    · intro m hm hasks
      have hclock := hend.trans (congrArg (· + (passed : ℤ)) hshown)
      exact ⟨n, hplaced.count hperiod hclock rfl hm hasks, hplaced.runs⟩
    · intro run shown hran hended
      rcases hplaced.waits with ⟨rfl, -⟩ | ⟨-, -, hnone⟩
      · obtain ⟨hpos, hle⟩ := hplaced.run_le hran
        exact absurd ((hplaced.continued (run + 1)).mpr ⟨by omega, by omega⟩) hended
      · exact hnone

/-- A chain is started beside another one that is due at the same instants, and asks for three runs
in a time that has room for four. -/
theorem runs_on_grid_of_three :
    let start : Desk Nat := ofClock (.ofStart ⟨0, by decide, by decide⟩)
    let before : List (Action Nat) :=
      [.scheduleRepeating 1 ⟨5, by decide⟩ fun _ ↦ .ofList true [.runPending],
        .advance ⟨5, by decide⟩]
    let actions : List (Action Nat) := [.advance ⟨12, by decide⟩, .advance ⟨33, by decide⟩]
    let body : Nat → Errand Nat := fun run ↦ .ofList (decide (run < 3)) [.isCancelled 2]
    ∃ d₀ d₁ d, (∃ answers, play 20 before start = some (answers, d₀)) ∧
      d₀.step 20 (.scheduleRepeating 2 ⟨10, by decide⟩ body) = some (.cancelled false, d₁) ∧
      (∃ responses, play 20 actions d₁ = some (responses, d)) ∧
      (incidents 20 actions d₁).filterMap (Incident.runOf? ⟨d₀.agenda.nextHandle⟩) =
        [(1, 15), (2, 25), (3, 35)] ∧
      d.agenda.links ⟨d₀.agenda.nextHandle⟩ = [] := by
  intro start before actions body
  let asked (chain : Handle) : Incident Nat → Option Nat
    | .continued other run => if other = chain then some run else none
    | _ => none
  have hends : (play 20 before start).bind (fun r₀ ↦
      (r₀.2.step 20 (.scheduleRepeating 2 ⟨10, by decide⟩ body)).bind fun r₁ ↦
        (play 20 actions r₁.2).map fun r ↦
          (r₀.2.agenda.clock.now, r₁.1,
            [r₀.2.agenda.stopped, r.2.agenda.stopped,
              r.2.agenda.isCancelled ⟨r₀.2.agenda.nextHandle⟩,
              (incidents 20 actions r₁.2).any Incident.isMoved],
            ((incidents 20 actions r₁.2).filterMap
              (Incident.runOf? ⟨r₀.2.agenda.nextHandle⟩)).map Prod.fst,
            (incidents 20 actions r₁.2).filterMap (asked ⟨r₀.2.agenda.nextHandle⟩))) =
      some (.ok ⟨5, by decide, by decide⟩, .cancelled false, [false, false, false, false],
        [1, 2, 3], [2, 3]) := by
    decide +kernel
  obtain ⟨⟨answers, d₀⟩, hbefore, hends⟩ := Option.bind_eq_some_iff.mp hends
  obtain ⟨⟨response, d₁⟩, hstart, hends⟩ := Option.bind_eq_some_iff.mp hends
  obtain ⟨⟨responses, d⟩, hplay, hends⟩ := Option.map_eq_some_iff.mp hends
  simp only [Prod.mk.injEq, List.cons.injEq, and_true] at hends
  obtain ⟨hnow, rfl, ⟨hlive, hruns, hlasts, hmoved⟩, hran, hasked⟩ := hends
  have hstill : .moved ∉ incidents 20 actions d₁ :=
    fun hmem ↦ Bool.false_ne_true (hmoved.symm.trans (List.any_eq_true.mpr ⟨_, hmem, rfl⟩))
  obtain ⟨-, -, hgrid, -⟩ := runs_on_grid hbefore hlive hnow (by decide) hstart (by simp [actions])
    (by decide) hplay hstill
  obtain ⟨hcount, hnone⟩ := hgrid hlasts hruns
  have hcontinued (run : ℕ) :
      .continued ⟨d₀.agenda.nextHandle⟩ run ∈ incidents 20 actions d₁ ↔ run ∈ [2, 3] := by
    rw [← hasked, List.mem_filterMap]
    constructor
    · exact fun hmem ↦ ⟨_, hmem, if_pos rfl⟩
    · rintro ⟨x, hx, hnoted⟩
      cases x with
      | continued other run' =>
        obtain ⟨heq, hrun⟩ := Option.ite_none_right_eq_some.mp hnoted
        rwa [← heq, ← Option.some.inj hrun]
      | _ => cases hnoted
  have hasks (run : ℕ) (shown : ℤ)
      (hmem : .ran ⟨d₀.agenda.nextHandle⟩ run shown ∈ incidents 20 actions d₁) :
      .continued ⟨d₀.agenda.nextHandle⟩ (run + 1) ∈ incidents 20 actions d₁ ↔ (run : ℕ∞) < 3 := by
    have hrun : run ∈ [1, 2, 3] := by
      rw [← hran]
      exact List.mem_map.mpr ⟨_, Incident.mem_filterMap_runOf?.mpr hmem, rfl⟩
    have hlt : (run : ℕ∞) < 3 ↔ run < 3 := Nat.cast_lt_ofNat
    rw [hcontinued, hlt]
    simp only [List.mem_cons, List.not_mem_nil, or_false] at hrun ⊢
    omega
  obtain ⟨n, hn, hgrid⟩ := hcount 3 (by decide) hasks
  have hthree : n = 3 := by
    have hroom : ((actions.map Action.span).sum / 10 : ℕ) = 4 := by decide
    have hmin : min (3 : ℕ∞) ((4 : ℕ) : ℕ∞) = (3 : ℕ) := by decide
    rw [hroom, hmin] at hn
    exact Nat.cast_injective hn
  subst hthree
  have hlast : .ran ⟨d₀.agenda.nextHandle⟩ 3 35 ∈ incidents 20 actions d₁ := by
    rw [← Incident.mem_filterMap_runOf?, hgrid]
    decide
  have hended : .continued ⟨d₀.agenda.nextHandle⟩ (3 + 1) ∉ incidents 20 actions d₁ := by
    rw [hcontinued]
    decide
  exact ⟨d₀, d₁, d, ⟨_, hbefore⟩, hstart, ⟨_, hplay⟩, hgrid, hnone 3 35 hlast hended⟩

end Desk

end Caching
