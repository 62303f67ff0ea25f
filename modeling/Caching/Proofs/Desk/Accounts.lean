import Caching.Proofs.Desk.Chronicle

/-!
# The accounts of a desk

Whatever errands do while they are run, also when they let time pass themselves: entries have their
turns in one order, every one of them was submitted and not yet turned away, and the calls that let
time pass have told of each start exactly once when all of them have ended.
-/

namespace Caching

namespace Desk

variable {L : Type}

/-- The history tells of the desk as it is, and the calls that have ended inside errands tell of all
entries that were started, but for those that the calls have started which are still going on. -/
structure Tracks (start : Instant) (history : List (Occurrence (Commission L)))
    (ongoing : Nat) (d : Desk L) : Prop where
  records : d.agenda.Records start history
  counted : .broken ∈ history ∨
    d.reported + ongoing = (history.flatMap Occurrence.starts).length

namespace Tracks

variable {start : Instant} {history more : List (Occurrence (Commission L))} {ongoing : Nat}
  {d d' : Desk L}

private theorem append (h : Tracks start history ongoing d) (hlog : d'.log = d.log)
    (hrecords : d'.agenda.Records start (history ++ more))
    (hstarts : more.flatMap Occurrence.starts = []) :
    Tracks start (history ++ more) ongoing d' := by
  refine ⟨hrecords, h.counted.imp (fun hbroken ↦ List.mem_append_left _ hbroken) fun hcount ↦ ?_⟩
  rw [List.flatMap_append, hstarts, List.append_nil, ← hcount, reported, reported, hlog]

private theorem of_broken (h : Tracks start history ongoing d) (hbroken : .broken ∈ history)
    (other : Nat) : Tracks start history other d :=
  ⟨h.records, .inl hbroken⟩

private theorem fired (h : Tracks start history ongoing d) (label : L) (elapsed : Duration) :
    Tracks start history ongoing (d.note (.fired label elapsed)) := by
  refine ⟨h.records, h.counted.imp_right fun hcount ↦ ?_⟩
  rw [← hcount]
  simp [reported, Desk.note, Notice.starts]

private theorem answered {response : Response}
    (h : Tracks start history (ongoing + response.starts) d)
    (label : L) : Tracks start history ongoing (d.note (.answered label response)) := by
  refine ⟨h.records, h.counted.imp_right fun hcount ↦ ?_⟩
  rw [← hcount]
  simp only [reported, Desk.note, Notice.starts, List.map_append, List.map_cons, List.map_nil,
    List.sum_append, List.sum_cons, List.sum_nil]
  omega

private theorem take (h : Tracks start history ongoing d) {target : Option Instant} {live : Bool}
    {e : Entry (Commission L)} {a : Agenda (Commission L)}
    (htake : d.agenda.take? target = some (live, e, a)) :
    Tracks start (history ++
        [if live then .started e a.clock.elapsed else .skipped e a.clock.elapsed])
      (ongoing + live.toNat) (withAgenda d a) := by
  refine ⟨h.records.take htake,
    h.counted.imp (fun hbroken ↦ List.mem_append_left _ hbroken) fun hcount ↦ ?_⟩
  have hreported : (withAgenda d a).reported = d.reported := rfl
  rw [hreported, List.flatMap_append, List.length_append, ← hcount]
  cases live <;> simp [Nat.add_assoc]

private theorem register (h : Tracks start history ongoing d) {label : L}
    {r : Except Abort (Handle × Agenda (Commission L))} {response : Response}
    (hregister : d.register label r = (response, d'))
    (hok : ∀ handle a, r = .ok (handle, a) → a.Records start (history ++ more))
    (herror : ∀ abort, r = .error abort → more = [])
    (hstarts : more.flatMap Occurrence.starts = []) :
    Tracks start (history ++ more) (ongoing + response.starts) d' := by
  cases r with
  | ok submitted =>
    cases hregister
    exact h.append rfl (hok submitted.1 submitted.2 rfl) hstarts
  | error abort =>
    cases hregister
    rw [herror abort rfl, List.append_nil]
    exact h

section

variable {attend : Attend (Desk L) (Commission L)} {fuel : Nat}
  (inside : Commission L → Nat → Desk L → List (Occurrence (Commission L)))

private theorem resume (h : Tracks start history ongoing d) (chain : Handle) (period : Duration)
    (run : Nat) (c : Commission L) :
    match d.agenda.arm chain period run c with
    | .ok a =>
      Tracks start (history ++ (teller inside).resume d.agenda chain period run c) ongoing
        (withAgenda d a)
    | .error _ =>
      Tracks start (history ++ (teller inside).resume d.agenda chain period run c) ongoing d ∧
        .broken ∈ (teller inside).resume d.agenda chain period run c := by
  simp only [teller]
  cases harm : d.agenda.arm chain period run c with
  | ok a =>
    exact h.append rfl (h.records.arm harm)
      (d.agenda.flatMap_starts_resumption chain period run c)
  | error abort => exact ⟨h.append rfl h.records.broken rfl, List.mem_singleton_self _⟩

/-- A job is done. It is aborted only if its chain breaks. -/
theorem perform
    (hinside : ∀ history c run d again d', Tracks start history ongoing d →
      attend c run d = some (again, d') → Tracks start (history ++ inside c run d) ongoing d')
    (h : Tracks start history ongoing d) {job : Job (Commission L)} {r : Except Abort Unit}
    (hperform : job.perform attend d = some (r, d')) :
    Tracks start (history ++ job.chronicle (teller inside) attend d) ongoing d' ∧
      ∀ abort, r = .error abort → .broken ∈ history ++ job.chronicle (teller inside) attend d := by
  refine Job.perform_told (teller inside) (fun history d ↦ Tracks start history ongoing d)
    (fun r history d ↦
      Tracks start history ongoing d ∧ ∀ abort, r = .error abort → .broken ∈ history)
    (fun run again d' hattend ↦ hinside history job.body run d again d' h hattend) ?_
    (fun history d h ↦ ⟨h, nofun⟩) h hperform
  intro history chain period run d' _ _ h'
  have hresume := h'.resume inside chain period (run + 1) job.body
  rw [agenda_eq]
  cases harm : d'.agenda.arm chain period (run + 1) job.body with
  | ok a =>
    simp only [harm] at hresume ⊢
    exact ⟨hresume, nofun⟩
  | error abort =>
    simp only [harm] at hresume ⊢
    exact ⟨hresume.1, fun _ _ ↦ List.mem_append_right _ hresume.2⟩

/-- Time passes. What the call has started is ongoing until its answer is told. -/
theorem advance
    (hinside : ∀ history ongoing c run d again d', Tracks start history ongoing d →
      attend c run d = some (again, d') → Tracks start (history ++ inside c run d) ongoing d')
    (h : Tracks start history ongoing d) {duration : Duration} {r : Except Abort Nat}
    (hadvance : Caching.advance attend fuel duration d = some (r, d')) :
    Tracks start (history ++ advanceChronicle (teller inside) attend fuel duration d)
      (ongoing + r.toOption.getD 0) d' := by
  refine advance_told (teller inside)
    (fun r history d ↦ Tracks start history (ongoing + r.toOption.getD 0) d) ?_ ?_ ?_ hadvance
  · intro abort _
    exact h
  · intro now d₁ r _ hdrain
    have hdrained := drain_told (teller inside)
      (fun r history d ↦ Tracks start history (ongoing + r.toOption.getD 0) d) ?_ ?_
      (show Tracks start history (ongoing + 0) d from h) hdrain
    · cases r <;> simpa [Except.map] using hdrained
    · intro n history d e a h htake
      exact h.take htake
    · intro n history d e a r d' h htake hperform
      obtain ⟨hperformed, hbroken⟩ := (h.take htake).perform inside
        (fun history c run d again d' ↦ hinside history _ c run d again d') hperform
      cases r with
      | ok => exact hperformed
      | error abort => exact hperformed.of_broken (hbroken abort rfl) _
  · intro r history d₁ instant h
    exact ⟨h.records.readied instant, h.counted⟩

variable [DecidableEq L]

private theorem act
    (hinside : ∀ history ongoing c run d again d', Tracks start history ongoing d →
      attend c run d = some (again, d') → Tracks start (history ++ inside c run d) ongoing d')
    (h : Tracks start history ongoing d) {action : Action L} {response : Response}
    (hact : Desk.act attend fuel action d = some (response, d')) :
    Tracks start (history ++ actChronicle attend inside fuel action d)
      (ongoing + response.starts) d' := by
  have hadvance (duration : Duration)
      (hact : Desk.act attend fuel (.advance duration) d = some (response, d')) :
      Tracks start (history ++ advanceChronicle (teller inside) attend fuel duration d)
        (ongoing + response.starts) d' := by
    rcases act_advance_eq_some_iff.mp hact with ⟨count, rfl, hadvance⟩ | ⟨abort, rfl, hadvance⟩
    · exact h.advance inside hinside hadvance
    · exact h.advance inside hinside hadvance
  cases action with
  | schedule label delay body =>
    simp only [Desk.act, Option.some.injEq] at hact
    exact h.register hact (fun _ _ hsubmit ↦ h.records.submit hsubmit)
      (fun _ herror ↦ Agenda.submission_eq_nil herror) (d.agenda.flatMap_starts_submission _ _)
  | scheduleRepeating label period body =>
    simp only [Desk.act, Option.some.injEq] at hact
    refine h.register hact (fun handle a hsubmit ↦ ?_) (fun abort herror ↦ ?_)
      (d.agenda.freshHandle.2.flatMap_starts_resumption _ _ _ _)
    · obtain ⟨rfl, harm⟩ := Agenda.scheduleRepeating_eq_ok_iff.mp hsubmit
      exact h.records.freshHandle.arm harm
    · exact Agenda.resumption_eq_nil (Agenda.scheduleRepeating_eq_error_iff.mp herror)
  | cancel label =>
    simp only [Desk.act, actChronicle] at hact ⊢
    cases hhandle : d.handle? label with
    | none =>
      simp only [hhandle, Option.some.injEq, Prod.mk.injEq] at hact
      obtain ⟨rfl, rfl⟩ := hact
      rw [List.append_nil]
      exact h
    | some handle =>
      simp only [hhandle, Option.some.injEq, Prod.mk.injEq] at hact
      obtain ⟨rfl, rfl⟩ := hact
      exact h.append rfl (h.records.cancel handle) rfl
  | advance duration => exact hadvance duration hact
  | runPending => exact hadvance .zero hact
  | moveClock duration =>
    simp only [Desk.act, actChronicle, List.append_nil] at hact ⊢
    cases hmove : d.agenda.moveClock duration with
    | ok a =>
      simp only [hmove, Option.some.injEq, Prod.mk.injEq] at hact
      obtain ⟨rfl, rfl⟩ := hact
      exact ⟨h.records.moveClock hmove, h.counted⟩
    | error abort =>
      simp only [hmove, Option.some.injEq, Prod.mk.injEq] at hact
      obtain ⟨rfl, rfl⟩ := hact
      exact h
  | shutdown =>
    cases hact
    exact h.append rfl h.records.shutdown rfl
  | isCancelled label =>
    simp only [Desk.act, actChronicle, List.append_nil] at hact ⊢
    split at hact <;> cases hact <;> exact h
  | elapsed | pending | isShutdown | describe =>
    cases hact
    simp only [actChronicle, List.append_nil]
    exact h

end

variable [DecidableEq L] {fuel : Nat}

/-- An errand is followed. -/
theorem follow (h : Tracks start history ongoing d) {label : L} {errand : Errand L} {again : Bool}
    (hfollow : Desk.follow fuel label errand d = some (again, d')) :
    Tracks start (history ++ followChronicle fuel label errand d) ongoing d' := by
  induction fuel generalizing history ongoing label errand d again d' with
  | zero =>
    cases errand with
    | done again =>
      cases hfollow
      simpa [followChronicle] using h
    | act action next => cases hfollow
  | succ fuel ih =>
    cases errand with
    | done again =>
      cases hfollow
      simpa [followChronicle] using h
    | act action next =>
      obtain ⟨response, d₁, hact, hrest⟩ := follow_act_eq_some_iff.mp hfollow
      have hinside (history : List (Occurrence (Commission L))) (ongoing : Nat) (c : Commission L)
          (run : Nat) (d : Desk L) (again : Bool) (d' : Desk L) (h : Tracks start history ongoing d)
          (hattend : Desk.attend fuel c run d = some (again, d')) :
          Tracks start (history ++ attendChronicle fuel c run d) ongoing d' :=
        ih (h.fired _ _) hattend
      have hacted := h.act _ hinside hact
      rw [followChronicle_act hact, ← List.append_assoc]
      exact ih (hacted.answered label) hrest

private theorem attend (h : Tracks start history ongoing d) {c : Commission L} {run : Nat}
    {again : Bool} (hattend : Desk.attend fuel c run d = some (again, d')) :
    Tracks start (history ++ attendChronicle fuel c run d) ongoing d' :=
  (h.fired _ _).follow hattend

/-- Actions are done from outside. Their answers are not in the log. -/
theorem play (h : Tracks start history ongoing d) {actions : List (Action L)}
    {responses : List Response} (hplay : Desk.play fuel actions d = some (responses, d')) :
    Tracks start (history ++ chronicle fuel actions d)
      (ongoing + (responses.map Response.starts).sum) d' := by
  induction actions generalizing history ongoing d responses with
  | nil =>
    cases hplay
    simpa [chronicle] using h
  | cons action rest ih =>
    obtain ⟨response, d₁, later, hstep, hrest, rfl⟩ := play_cons_eq_some_iff.mp hplay
    rw [chronicle, hstep]
    have hacted := h.act (attendChronicle fuel)
      (fun _ _ _ _ _ _ _ h hattend ↦ h.attend hattend) hstep
    have hplayed := ih hacted hrest
    rw [List.append_assoc] at hplayed
    simpa [Nat.add_assoc] using hplayed

end Tracks

variable [DecidableEq L]

/-- In every run of actions, with whatever the errands do while they are run: entries have their
turns strictly in the order of their due instants and their submissions, and everything happens in
time. Each submission is accounted for exactly once. Unless a chain broke, the answers tell of every
start exactly once, those inside errands included. The journal of the agenda agrees. -/
theorem play_accounts {fuel : Nat} {clock : Clock} {actions : List (Action L)}
    {responses : List Response} {d : Desk L}
    (hplay : play fuel actions (ofClock clock) = some (responses, d)) :
    let history := chronicle fuel actions (ofClock clock)
    let starts := history.flatMap Occurrence.starts
    let submissions := history.flatMap Occurrence.submissions
    (history.flatMap Occurrence.turns).Pairwise Entry.Before ∧
      Occurrence.Timely clock.start history ∧
      ((starts ++ history.flatMap Occurrence.skips ++ history.flatMap Occurrence.discards ++
        d.agenda.queue).Perm submissions ∧ (submissions.map Entry.seq).Nodup) ∧
      submissions.map Entry.seq = List.range d.agenda.nextSeq ∧
      d.agenda.journal = (history.flatMap Occurrence.departures).reverse ∧
      (.broken ∉ history →
        (responses.map Response.starts).sum + (d.log.map Notice.starts).sum = starts.length) := by
  intro history starts submissions
  have hempty : Tracks clock.start [] 0 (ofClock clock : Desk L) := ⟨.ofClock clock, .inr rfl⟩
  have hplayed := hempty.play hplay
  rw [List.nil_append] at hplayed
  have hrecords : d.agenda.Records clock.start history := hplayed.records
  refine ⟨(List.pairwise_append.mp hrecords.ordered).1, hrecords.timely, hrecords.accounts_exactly,
    hrecords.numbered, hrecords.journal, ?_⟩
  intro hbroken
  have hcount := hplayed.counted.resolve_left hbroken
  rw [Nat.zero_add, Nat.add_comm] at hcount
  exact hcount

/-- Two errands are due at the same instant. The first one cancels the second one and lets time pass
until a third one is due, which is therefore the only one that its own call starts. -/
theorem play_accounts_of_nested :
    let clock : Clock := .ofStart ⟨0, by decide, by decide⟩
    let idle : Errand Nat := .ofList false []
    let actions : List (Action Nat) :=
      [.schedule 1 ⟨1, by decide⟩ (.ofList false [.cancel 2, .advance ⟨1, by decide⟩]),
        .schedule 2 ⟨1, by decide⟩ idle, .schedule 3 ⟨2, by decide⟩ idle,
        .advance ⟨2, by decide⟩]
    let history := chronicle 9 actions (ofClock clock)
    ∃ d, play 9 actions (ofClock clock) =
        some ([.cancelled false, .cancelled false, .cancelled false, .executed 1], d) ∧
      d.log = [.fired 1 ⟨1, by decide⟩, .answered 1 (.cancelled true), .fired 3 ⟨2, by decide⟩,
        .answered 1 (.executed 1)] ∧
      (history.flatMap Occurrence.starts).length = 2 ∧
      (history.flatMap Occurrence.turns).Pairwise Entry.Before := by
  intro clock idle actions history
  have hends : (play 9 actions (ofClock clock)).map (fun r ↦ (r.1, r.2.log)) =
      some ([.cancelled false, .cancelled false, .cancelled false, .executed 1],
        [.fired 1 ⟨1, by decide⟩, .answered 1 (.cancelled true), .fired 3 ⟨2, by decide⟩,
          .answered 1 (.executed 1)]) := by
    decide +kernel
  obtain ⟨⟨responses, d⟩, hplay, hlog⟩ := Option.map_eq_some_iff.mp hends
  simp only [Prod.mk.injEq] at hlog
  obtain ⟨rfl, hlog⟩ := hlog
  obtain ⟨hordered, _, _, _, _, hcount⟩ := play_accounts hplay
  have hbroken : Occurrence.broken ∉ history := by
    have hnone : history.any Occurrence.isBroken = false := by decide +kernel
    exact fun hmem ↦ List.any_eq_false.mp hnone .broken hmem rfl
  refine ⟨d, hplay, hlog, ?_, hordered⟩
  rw [← hcount hbroken, hlog]
  rfl

end Desk

end Caching
