import Caching.Proofs.Agenda.Chronicle

/-!
# The records of an agenda

Everything that can happen to an agenda, and what a history of it says about the agenda: which
entries were submitted and what became of each of them, in which order they had their turns, and
which handles were cancelled by then. Each thing that is done to an agenda keeps its records right.
-/

namespace Caching

variable {B : Type}

/-- Something that happens to an agenda. -/
inductive Occurrence (B : Type) where
  | submitted (entry : Entry B)
  | cancelled (handle : Handle)
  /-- The entry has its turn, and the clock has counted that much. -/
  | started (entry : Entry B) (elapsed : Duration)
  /-- The entry has its turn after it was cancelled. -/
  | skipped (entry : Entry B) (elapsed : Duration)
  | stopped (discarded : List (Entry B)) (elapsed : Duration)
  /-- A chain could not go on, which ends whatever was letting time pass. -/
  | broken

namespace Occurrence

/-- The entry that is submitted. -/
@[simp]
def submissions : Occurrence B → List (Entry B)
  | submitted e => [e]
  | _ => []

/-- The entry that is started. -/
@[simp]
def starts : Occurrence B → List (Entry B)
  | started e _ => [e]
  | _ => []

/-- The entry that is skipped. -/
@[simp]
def skips : Occurrence B → List (Entry B)
  | skipped e _ => [e]
  | _ => []

/-- The entry that has its turn, whether it is started or skipped. -/
@[simp]
def turns : Occurrence B → List (Entry B)
  | started e _ | skipped e _ => [e]
  | _ => []

/-- The entries that a shutdown drops. -/
@[simp]
def discards : Occurrence B → List (Entry B)
  | stopped entries _ => entries
  | _ => []

/-- A chain could not go on. -/
def isBroken : Occurrence B → Bool
  | broken => true
  | _ => false

/-- What the journal of the agenda tells of it. -/
@[simp]
def departures : Occurrence B → List Departure
  | started e elapsed => [⟨e.due, e.seq, .started, elapsed⟩]
  | skipped e elapsed => [⟨e.due, e.seq, .skipped, elapsed⟩]
  | stopped entries elapsed => entries.map fun e ↦ ⟨e.due, e.seq, .discarded, elapsed⟩
  | _ => []

/-- The agenda has been shut down by then. -/
def Stopped (before : List (Occurrence B)) : Prop :=
  ∃ discarded elapsed, stopped discarded elapsed ∈ before

/-- It was time for it, after what had happened before: nothing is submitted and nothing has its
turn after a shutdown, an entry that has its turn was submitted, the clock has reached its due
instant, and it is started exactly if it had not been cancelled. -/
def IsTimely (start : Instant) (before : List (Occurrence B)) : Occurrence B → Prop
  | submitted _ => ¬ Stopped before
  | started e elapsed =>
    submitted e ∈ before ∧ ¬ Stopped before ∧ e.due.nanos ≤ start.nanos + elapsed.nanos ∧
      cancelled e.handle ∉ before
  | skipped e elapsed =>
    submitted e ∈ before ∧ ¬ Stopped before ∧ e.due.nanos ≤ start.nanos + elapsed.nanos ∧
      cancelled e.handle ∈ before
  | cancelled _ | stopped _ _ | broken => True

private theorem starts_append_skips_perm (history : List (Occurrence B)) :
    (history.flatMap starts ++ history.flatMap skips).Perm (history.flatMap turns) := by
  induction history with
  | nil => exact List.Perm.refl _
  | cons x rest ih =>
    cases x with
    | started e elapsed => simpa using ih
    | skipped e elapsed => simpa using List.perm_middle.trans (ih.cons e)
    | submitted | cancelled | stopped | broken => simpa using ih

/-- Everything in a history happened in time, with a clock that was started at the given instant. -/
def Timely (start : Instant) (history : List (Occurrence B)) : Prop :=
  ∀ before x after, history = before ++ x :: after → x.IsTimely start before

private theorem Timely.concat {start : Instant} {history : List (Occurrence B)}
    (h : Timely start history)
    {x : Occurrence B} (hx : x.IsTimely start history) : Timely start (history ++ [x]) := by
  intro before y after heq
  rcases List.eq_nil_or_concat after with rfl | ⟨after, z, rfl⟩
  · obtain ⟨rfl, hlast⟩ := List.append_inj' heq rfl
    cases hlast
    exact hx
  · rw [List.concat_eq_append, ← List.cons_append, ← List.append_assoc] at heq
    exact h before y after (List.append_inj' heq rfl).1

end Occurrence

/-- The order in which entries have their turns: that of their due instants, and that of submission
where those agree. -/
def Entry.Before (e later : Entry B) : Prop :=
  e.due < later.due ∨ e.due = later.due ∧ e.seq < later.seq

namespace Agenda

private theorem pairwise_before_insertEntry {queue : List (Entry B)}
    (h : queue.Pairwise Entry.Before) {e : Entry B} (hseq : ∀ x ∈ queue, x.seq < e.seq) :
    (insertEntry e queue).Pairwise Entry.Before := by
  induction queue with
  | nil => exact List.pairwise_singleton _ e
  | cons x rest ih =>
    obtain ⟨hx, hrest⟩ := List.pairwise_cons.mp h
    rw [insertEntry]
    split
    · next hlt =>
      refine List.pairwise_cons.mpr ⟨?_, h⟩
      intro y hy
      apply Or.inl
      rcases List.mem_cons.mp hy with rfl | hy
      · exact hlt
      · rcases hx y hy with hbefore | ⟨hsame, _⟩
        · exact Int.lt_trans hlt hbefore
        · exact hsame ▸ hlt
    · next hnot =>
      have hlater : x.Before e := by
        have hnumber := hseq x List.mem_cons_self
        unfold Entry.Before
        simp only [Instant.lt_iff, Instant.ext_iff] at hnot ⊢
        omega
      refine List.pairwise_cons.mpr ⟨?_, ih hrest fun y hy ↦ hseq y (List.mem_cons_of_mem x hy)⟩
      intro y hy
      rcases List.mem_cons.mp ((insertEntry_perm e rest).mem_iff.mp hy) with rfl | hy
      · exact hlater
      · exact hx y hy

/-- What submitting a job adds to the history of an agenda. -/
def submission (a : Agenda B) (delay : Duration) (job : Job B) : List (Occurrence B) :=
  if a.stopped then [.cancelled ⟨a.nextHandle⟩]
  else
    match a.clock.now with
    | .error _ => []
    | .ok now =>
      match now.add? delay with
      | none => []
      | some due => [.submitted ⟨due, a.nextSeq, ⟨a.nextHandle⟩, job⟩]

/-- What going on with a chain adds to the history of an agenda. -/
def resumption (a : Agenda B) (chain : Handle) (period : Duration) (run : Nat) (body : B) :
    List (Occurrence B) :=
  if a.isCancelled chain || a.stopped then [] else a.submission period (.link chain period run body)

/-- Submitting starts nothing. -/
@[simp]
theorem flatMap_starts_submission (a : Agenda B) (delay : Duration) (job : Job B) :
    (a.submission delay job).flatMap Occurrence.starts = [] := by
  unfold submission
  split
  · rfl
  · split
    · rfl
    · split <;> rfl

/-- Going on with a chain starts nothing. -/
@[simp]
theorem flatMap_starts_resumption (a : Agenda B) (chain : Handle) (period : Duration) (run : Nat)
    (body : B) : (a.resumption chain period run body).flatMap Occurrence.starts = [] := by
  unfold resumption
  split
  · rfl
  · exact a.flatMap_starts_submission period _

/-- A submission that is aborted adds nothing. -/
theorem submission_eq_nil {a : Agenda B} {delay : Duration} {job : Job B} {abort : Abort}
    (h : a.submit delay job = .error abort) : a.submission delay job = [] := by
  rw [submission]
  cases hstopped : a.stopped with
  | true => simp [submit, hstopped] at h
  | false =>
    cases hnow : a.clock.now with
    | error => simp
    | ok now => simp [submit_eq hnow hstopped] at h

/-- A chain that cannot be armed adds nothing. -/
theorem resumption_eq_nil {a : Agenda B} {chain : Handle} {period : Duration} {run : Nat} {body : B}
    {abort : Abort} (h : a.arm chain period run body = .error abort) :
    a.resumption chain period run body = [] := by
  rw [arm] at h
  rw [resumption]
  split at h
  · cases h
  · next hrunning =>
    rw [if_neg hrunning]
    cases hsubmit : a.submit period (.link chain period run body) with
    | ok submitted => simp [hsubmit, Except.map] at h
    | error => exact submission_eq_nil hsubmit

/-- The history tells of the agenda as it is, with a clock that was started at the given instant. -/
structure Records (start : Instant) (history : List (Occurrence B)) (a : Agenda B) : Prop where
  origin : a.clock.start = start
  /-- What was submitted has had its turn, was dropped, or still waits. -/
  accounts : (history.flatMap Occurrence.turns ++ history.flatMap Occurrence.discards ++
    a.queue).Perm (history.flatMap Occurrence.submissions)
  numbered : (history.flatMap Occurrence.submissions).map Entry.seq = List.range a.nextSeq
  /-- Entries have had their turns in their order, and those that wait come after them. -/
  ordered : (history.flatMap Occurrence.turns ++ a.queue).Pairwise Entry.Before
  reached : ∀ e ∈ history.flatMap Occurrence.turns,
    e.due.nanos ≤ start.nanos + a.clock.elapsed.nanos
  cancelled : ∀ handle, .cancelled handle ∈ history ↔ handle ∈ a.cancelled
  stopped : a.stopped = true ↔ Occurrence.Stopped history
  emptied : a.stopped = true → a.queue = []
  timely : Occurrence.Timely start history
  journal : a.journal = (history.flatMap Occurrence.departures).reverse

namespace Records

variable {start : Instant} {history : List (Occurrence B)} {a : Agenda B}

/-- An agenda without entries has no history. -/
theorem ofClock (clock : Clock) : Records clock.start [] (Agenda.ofClock clock : Agenda B) := by
  constructor
  case timely =>
    intro before x after h
    simp at h
  all_goals simp [Agenda.ofClock, Occurrence.Stopped]

private theorem submitted_of_mem (h : Records start history a) {e : Entry B} (he : e ∈ a.queue) :
    .submitted e ∈ history := by
  have hmem := h.accounts.mem_iff.mp (List.mem_append_right _ he)
  obtain ⟨x, hx, hsubmission⟩ := List.mem_flatMap.mp hmem
  cases x <;> simp at hsubmission
  exact hsubmission ▸ hx

private theorem seq_lt (h : Records start history a) {e : Entry B}
    (he : e ∈ history.flatMap Occurrence.turns ∨ e ∈ a.queue) : e.seq < a.nextSeq := by
  have hmem : e ∈ history.flatMap Occurrence.submissions := by
    apply h.accounts.mem_iff.mp
    simp only [List.mem_append]
    exact he.imp .inl id
  have hseq := List.mem_map_of_mem (f := Entry.seq) hmem
  rw [h.numbered] at hseq
  exact List.mem_range.mp hseq

private theorem due_le (h : Records start history a) {now : Instant} (hnow : a.clock.now = .ok now)
    {e : Entry B} (he : e ∈ history.flatMap Occurrence.turns) : e.due ≤ now := by
  have hreached := h.reached e he
  rw [Instant.le_iff, Clock.now_eq_ok_iff.mp hnow, h.origin]
  exact hreached

/-- Handles are given out without a word. -/
theorem freshHandle (h : Records start history a) : Records start history a.freshHandle.2 :=
  ⟨h.origin, h.accounts, h.numbered, h.ordered, h.reached, h.cancelled, h.stopped, h.emptied,
    h.timely, h.journal⟩

/-- So is the clock moved on. -/
theorem setClock (h : Records start history a) {clock : Clock}
    (hstart : clock.start = a.clock.start) (hle : a.clock.elapsed.nanos ≤ clock.elapsed.nanos) :
    Records start history { a with clock } := by
  refine ⟨hstart.trans h.origin, h.accounts, h.numbered, h.ordered, ?_, h.cancelled, h.stopped,
    h.emptied, h.timely, h.journal⟩
  intro e he
  have hreached := h.reached e he
  dsimp only
  omega

/-- Moving the clock by hand moves it on. -/
theorem moveClock (h : Records start history a) {d : Duration} {b : Agenda B}
    (hmove : a.moveClock d = .ok b) : Records start history b := by
  rw [Agenda.moveClock, Clock.advance] at hmove
  cases hsum : a.clock.elapsed.add? d with
  | none => simp [hsum, Except.map] at hmove
  | some elapsed =>
    have helapsed := Duration.add?_eq_some_iff.mp hsum
    simp only [hsum, Except.map, Except.ok.injEq] at hmove
    rw [← hmove]
    exact h.setClock rfl (by dsimp only; omega)

/-- Being readied moves the clock on. -/
theorem readied (h : Records start history a) (instant : Instant) :
    Records start history (a.readied instant) :=
  h.setClock (a.clock.start_advanceTo instant) (a.clock.le_elapsed_advanceTo instant)

/-- A chain that cannot go on leaves the agenda as it is. -/
theorem broken (h : Records start history a) : Records start (history ++ [.broken]) a where
  origin := h.origin
  accounts := by simpa using h.accounts
  numbered := by simpa using h.numbered
  ordered := by simpa using h.ordered
  reached := by simpa using h.reached
  cancelled := by simpa using h.cancelled
  stopped := by simpa [Occurrence.Stopped] using h.stopped
  emptied := h.emptied
  timely := h.timely.concat trivial
  journal := by simpa using h.journal

/-- A handle is cancelled. -/
theorem cancel (h : Records start history a) (handle : Handle) :
    Records start (history ++ [.cancelled handle]) (a.cancel handle) := by
  obtain ⟨cancelled, heq, hmem⟩ := a.cancel_eq handle
  rw [heq]
  constructor
  case origin => exact h.origin
  case accounts => simpa using h.accounts
  case numbered => simpa using h.numbered
  case ordered => simpa using h.ordered
  case reached => simpa using h.reached
  case cancelled =>
    intro other
    rw [hmem other, ← h.cancelled other]
    simp [or_comm]
  case stopped => simpa [Occurrence.Stopped] using h.stopped
  case emptied => exact h.emptied
  case timely => exact h.timely.concat trivial
  case journal => simpa using h.journal

/-- The agenda is shut down. -/
theorem shutdown (h : Records start history a) :
    Records start (history ++ [.stopped a.queue a.clock.elapsed]) a.shutdown where
  origin := h.origin
  accounts := by simpa [Agenda.shutdown] using h.accounts
  numbered := by simpa [Agenda.shutdown] using h.numbered
  ordered := by simpa [Agenda.shutdown] using (List.pairwise_append.mp h.ordered).1
  reached := by simpa [Agenda.shutdown] using h.reached
  cancelled := by simpa [Agenda.shutdown] using h.cancelled
  stopped := by
    refine iff_of_true rfl ⟨a.queue, a.clock.elapsed, ?_⟩
    simp
  emptied _ := rfl
  timely := h.timely.concat trivial
  journal := by simp [Agenda.shutdown, h.journal]

private theorem insert (h : Records start history a) {now : Instant} (hnow : a.clock.now = .ok now)
    (hrunning : a.stopped = false) {e : Entry B} (hseq : e.seq = a.nextSeq) (hdue : now ≤ e.due) :
    Records start (history ++ [.submitted e])
      { a with queue := insertEntry e a.queue, nextSeq := a.nextSeq + 1 } where
  origin := h.origin
  accounts := by
    have hplace : (history.flatMap Occurrence.turns ++ history.flatMap Occurrence.discards ++
        insertEntry e a.queue).Perm (history.flatMap Occurrence.turns ++
          history.flatMap Occurrence.discards ++ a.queue ++ [e]) := by
      rw [List.append_assoc _ a.queue]
      exact ((insertEntry_perm e a.queue).trans
        (List.perm_append_singleton e a.queue).symm).append_left _
    simpa using hplace.trans (h.accounts.append_right [e])
  numbered := by simpa [hseq, List.range_succ] using h.numbered
  ordered := by
    obtain ⟨hturns, hqueue, hcross⟩ := List.pairwise_append.mp h.ordered
    have hfirst (x : Entry B) (hx : x ∈ history.flatMap Occurrence.turns) : x.Before e := by
      have hdue' := h.due_le hnow hx
      have hlt := h.seq_lt (.inl hx)
      simp only [Entry.Before, Instant.lt_iff, Instant.le_iff, Instant.ext_iff] at *
      omega
    have hplaced : (insertEntry e a.queue).Pairwise Entry.Before :=
      pairwise_before_insertEntry hqueue fun x hx ↦ hseq ▸ h.seq_lt (.inr hx)
    have hafter (x : Entry B) (hx : x ∈ history.flatMap Occurrence.turns) (y : Entry B)
        (hy : y ∈ insertEntry e a.queue) : x.Before y := by
      rcases List.mem_cons.mp ((insertEntry_perm e a.queue).mem_iff.mp hy) with rfl | hy
      · exact hfirst x hx
      · exact hcross x hx y hy
    simpa using List.pairwise_append.mpr ⟨hturns, hplaced, hafter⟩
  reached := by simpa using h.reached
  cancelled := by simpa using h.cancelled
  stopped := by simpa [Occurrence.Stopped] using h.stopped
  emptied hstopped := by
    rw [hrunning] at hstopped
    cases hstopped
  timely := by
    apply h.timely.concat
    show ¬ Occurrence.Stopped history
    rw [← h.stopped, hrunning]
    exact Bool.false_ne_true
  journal := by simpa using h.journal

/-- A job is submitted. -/
theorem submit (h : Records start history a) {delay : Duration} {job : Job B} {handle : Handle}
    {b : Agenda B} (hsubmit : a.submit delay job = .ok (handle, b)) :
    Records start (history ++ a.submission delay job) b := by
  rw [submission]
  cases hstopped : a.stopped with
  | true =>
    simp only [Agenda.submit, hstopped, if_true, Except.ok.injEq, Prod.mk.injEq] at hsubmit ⊢
    rw [← hsubmit.2]
    exact h.freshHandle.cancel _
  | false =>
    cases hnow : a.clock.now with
    | error abort => simp [Agenda.submit, hstopped, hnow] at hsubmit
    | ok now =>
      rw [submit_eq hnow hstopped, Except.ok.injEq, Prod.mk.injEq] at hsubmit
      rw [← hsubmit.2]
      simp only [Bool.false_eq_true, if_false, Agenda.booked]
      cases hdue : now.add? delay with
      | none =>
        rw [List.append_nil]
        exact h.freshHandle
      | some due =>
        have hlater : now ≤ due := by
          have hsum := Instant.add?_eq_some_iff.mp hdue
          rw [Instant.le_iff]
          omega
        exact h.freshHandle.insert hnow hstopped rfl hlater

/-- A chain goes on, or has ended. -/
theorem arm (h : Records start history a) {chain : Handle} {period : Duration} {run : Nat}
    {body : B} {b : Agenda B} (harm : a.arm chain period run body = .ok b) :
    Records start (history ++ a.resumption chain period run body) b := by
  rw [Agenda.arm] at harm
  rw [resumption]
  split at harm
  · next hended =>
    rw [if_pos hended, List.append_nil]
    cases harm
    exact h
  · next hended =>
    rw [if_neg hended]
    cases hsubmit : a.submit period (.link chain period run body) with
    | error abort =>
      rw [hsubmit] at harm
      cases harm
    | ok submitted =>
      rw [hsubmit] at harm
      cases harm
      exact h.submit hsubmit

private theorem isTimely_left (h : Records start history a) (hrunning : a.stopped = false)
    {e : Entry B} (he : e ∈ a.queue) {elapsed : Duration}
    (hdue : e.due.nanos ≤ start.nanos + elapsed.nanos) :
    (if a.isCancelled e.handle then Occurrence.skipped e elapsed else .started e elapsed).IsTimely
      start history := by
  have hsubmitted := h.submitted_of_mem he
  have hstopped : ¬ Occurrence.Stopped history := by
    rw [← h.stopped, hrunning]
    exact Bool.false_ne_true
  have hcancelled := h.cancelled e.handle
  split
  · next hskipped =>
    exact ⟨hsubmitted, hstopped, hdue, hcancelled.mpr (List.contains_iff_mem.mp hskipped)⟩
  · next hlive =>
    exact ⟨hsubmitted, hstopped, hdue,
      fun hmem ↦ hlive (List.contains_iff_mem.mpr (hcancelled.mp hmem))⟩

/-- An entry has its turn. -/
theorem take (h : Records start history a) {target : Option Instant} {live : Bool} {e : Entry B}
    {b : Agenda B} (htake : a.take? target = some (live, e, b)) :
    Records start (history ++
      [if live then .started e b.clock.elapsed else .skipped e b.clock.elapsed]) b := by
  obtain ⟨hrunning, _, rfl, rest, hqueue, rfl⟩ := take?_eq_some_iff.mp htake
  have hmoved := a.clock.le_elapsed_advanceTo e.due
  have hdue := a.clock.le_advanceTo e.due
  rw [h.origin] at hdue
  have htimely := h.isTimely_left hrunning (hqueue ▸ List.mem_cons_self) hdue
  have haccounts := h.accounts
  have hordered := h.ordered
  rw [hqueue] at haccounts hordered
  have hmoves : (history.flatMap Occurrence.turns ++ [e] ++
      history.flatMap Occurrence.discards ++ rest).Perm
      (history.flatMap Occurrence.turns ++ history.flatMap Occurrence.discards ++ e :: rest) := by
    simpa using (List.perm_middle.symm).append_left (history.flatMap Occurrence.turns)
  have hreached (e' : Entry B) (he' : e' ∈ history.flatMap Occurrence.turns ++ [e]) :
      e'.due.nanos ≤ start.nanos + (a.clock.advanceTo e.due).elapsed.nanos := by
    rcases List.mem_append.mp he' with he' | he'
    · have hbefore := h.reached e' he'
      omega
    · rw [List.mem_singleton.mp he']
      exact hdue
  cases hlive : a.isCancelled e.handle <;>
    simp only [hlive, Bool.not_true, Bool.not_false, Bool.false_eq_true, if_true, if_false,
      Agenda.left] at htimely ⊢
  all_goals
    constructor
    case origin => exact h.origin
    case accounts => simpa using hmoves.trans haccounts
    case numbered => simpa using h.numbered
    case ordered => simpa using hordered
    case reached => simpa using hreached
    case cancelled => simpa using h.cancelled
    case stopped => simpa [Occurrence.Stopped] using h.stopped
    case emptied =>
      intro hstopped
      rw [hrunning] at hstopped
      cases hstopped
    case timely => exact h.timely.concat htimely
    case journal => simpa using h.journal

/-- Every submission is accounted for exactly once: it was started, skipped or dropped, or still
waits. -/
theorem accounts_exactly (h : Records start history a) :
    (history.flatMap Occurrence.starts ++ history.flatMap Occurrence.skips ++
        history.flatMap Occurrence.discards ++ a.queue).Perm
      (history.flatMap Occurrence.submissions) ∧
      ((history.flatMap Occurrence.submissions).map Entry.seq).Nodup := by
  constructor
  · apply List.Perm.trans _ h.accounts
    exact ((Occurrence.starts_append_skips_perm history).append_right _).append_right _
  · rw [h.numbered]
    exact List.nodup_range

end Records

end Agenda

end Caching
