import Caching.Proofs.Desk.Handles
import Caching.Proofs.Desk.Timing

/-!
# Chains

The runs of a chain wait one at a time: the next one is submitted only when the body has asked for
it, at the instant at which the last one was due. So as long as nothing moves the clock, the runs
start one period apart, and once the chain is cancelled none starts any more.
-/

namespace Caching

variable {L B : Type}

namespace Agenda

variable {a b : Agenda B} {chain other : Handle} {delay period : Duration} {run : Nat} {body : B}
  {job : Job B} {handle : Handle} {e : Entry B}

/-- The entries that are runs of the chain. -/
def links (a : Agenda B) (chain : Handle) : List (Entry B) :=
  a.queue.filter fun e ↦ decide (e.job.chain? = some chain)

/-- The links are entries that wait. -/
theorem mem_links : e ∈ a.links chain ↔ e ∈ a.queue ∧ e.job.chain? = some chain := by
  rw [links, List.mem_filter, decide_eq_true_iff]

private theorem filter_insertEntry_of_neg {p : Entry B → Bool} (h : p e = false)
    (queue : List (Entry B)) : (insertEntry e queue).filter p = queue.filter p := by
  induction queue with
  | nil => simp [insertEntry, h]
  | cons x rest ih =>
    rw [insertEntry]
    split
    · simp [h]
    · rw [List.filter_cons, List.filter_cons, ih]

private theorem links_submit (hsubmit : a.submit delay job = .ok (handle, b))
    (hjob : job.chain? ≠ some chain) : b.links chain = a.links chain := by
  obtain ⟨-, rfl | ⟨due, rfl⟩⟩ := submit_eq_ok hsubmit
  · rw [links, queue_cancel]
    rfl
  · cases due with
    | none => rfl
    | some due => exact filter_insertEntry_of_neg (decide_eq_false hjob) a.queue

/-- The next run becomes the only link. -/
theorem links_booked (hlinks : a.links chain = []) (due : Instant)
    (hjob : job.chain? = some chain) :
    (a.booked (some due) job).links chain = [⟨due, a.nextSeq, ⟨a.nextHandle⟩, job⟩] := by
  have hperm := (insertEntry_perm ⟨due, a.nextSeq, ⟨a.nextHandle⟩, job⟩ a.queue).filter
    fun e ↦ decide (e.job.chain? = some chain)
  rw [List.filter_cons, if_pos (decide_eq_true hjob)] at hperm
  rw [links] at hlinks
  rw [hlinks] at hperm
  exact List.perm_singleton.mp hperm

private theorem arm_eq_ok (harm : a.arm chain period run body = .ok b) :
    ((a.isCancelled chain || a.stopped) = true ∧ b = a ∧
        a.resumption chain period run body = []) ∨
      (a.isCancelled chain = false ∧ a.stopped = false) ∧
        (∃ handle, a.submit period (.link chain period run body) = .ok (handle, b)) ∧
        a.resumption chain period run body = a.submission period (.link chain period run body) := by
  rw [arm] at harm
  rw [resumption]
  cases hended : a.isCancelled chain || a.stopped with
  | true =>
    rw [hended, if_pos rfl, Except.ok.injEq] at harm
    exact .inl ⟨rfl, harm.symm, if_pos rfl⟩
  | false =>
    rw [hended, if_neg Bool.false_ne_true] at harm
    refine .inr ⟨Bool.or_eq_false_iff.mp hended, ?_, if_neg Bool.false_ne_true⟩
    cases hsubmit : a.submit period (.link chain period run body) with
    | error abort => simp [hsubmit, Except.map] at harm
    | ok submitted =>
      simp only [hsubmit, Except.map, Except.ok.injEq] at harm
      exact ⟨submitted.1, congrArg (fun c ↦ Except.ok (submitted.1, c)) harm⟩

private theorem length_links_arm_le (hlinks : a.links chain = [])
    (harm : a.arm chain period run body = .ok b) : (b.links chain).length ≤ 1 := by
  have hnone (queue : List (Entry B)) (h : queue = []) : queue.length ≤ 1 := by
    rw [h]
    exact Nat.zero_le 1
  rcases arm_cases harm with rfl | ⟨handle, hsubmit⟩
  · exact hnone _ hlinks
  · obtain ⟨-, rfl | ⟨due, rfl⟩⟩ := submit_eq_ok hsubmit
    · rw [links, queue_cancel]
      exact hnone _ hlinks
    · cases due with
      | none => exact hnone _ hlinks
      | some due =>
        rw [links_booked hlinks due rfl]
        exact Nat.le_refl 1

private theorem links_of_take {target : Option Instant} {live : Bool}
    (htake : a.take? target = some (live, e, b)) : a.links chain =
      if e.job.chain? = some chain then e :: b.links chain else b.links chain := by
  obtain ⟨-, hqueue, -⟩ := take?_eq_some htake
  rw [links, hqueue, List.filter_cons, links]
  simp only [decide_eq_true_eq]

private theorem eq_of_cancelled_mem_submission (h : .cancelled other ∈ a.submission delay job) :
    other = ⟨a.nextHandle⟩ := by
  rw [submission] at h
  split at h
  · exact Occurrence.cancelled.inj (List.mem_singleton.mp h)
  · split at h
    · cases h
    · split at h
      · cases h
      · cases List.mem_singleton.mp h

private theorem eq_of_cancelled_mem_resumption
    (h : .cancelled other ∈ a.resumption chain period run body) : other = ⟨a.nextHandle⟩ := by
  rw [resumption] at h
  split at h
  · cases h
  · exact eq_of_cancelled_mem_submission h

private theorem mem_queue_of_submit (hsubmit : a.submit delay job = .ok (handle, b))
    (he : e ∈ b.queue) : e ∈ a.queue ∨ a.nextHandle ≤ e.handle.id := by
  obtain ⟨-, rfl | ⟨due, rfl⟩⟩ := submit_eq_ok hsubmit
  · rw [queue_cancel] at he
    exact .inl he
  · cases due with
    | none => exact .inl he
    | some due =>
      rcases List.mem_cons.mp ((insertEntry_perm _ _).mem_iff.mp he) with rfl | hold
      · exact .inr (Nat.le_refl _)
      · exact .inl hold

end Agenda

/-- The run of the chain that starts, with what the clock shows then. -/
def Incident.runOf? (chain : Handle) : Incident L → Option (Nat × Int)
  | ran other run shown => if other = chain then some (run, shown) else none
  | occurred _ | continued _ _ | moved | aborted _ => none

private theorem Incident.filterMap_runOf?_eq_nil {chain : Handle} {more : List (Incident L)}
    (h : ∀ x ∈ more, ¬ x.Concerns chain) : more.filterMap (Incident.runOf? chain) = [] := by
  refine List.filterMap_eq_nil_iff.mpr fun x hx ↦ ?_
  cases x with
  | ran other run shown => exact if_neg (h _ hx)
  | _ => rfl

/-- Every run that was noted is found, with what the clock showed. -/
theorem Incident.mem_filterMap_runOf? {chain : Handle} {history : List (Incident L)} {run : Nat}
    {shown : Int} : (run, shown) ∈ history.filterMap (Incident.runOf? chain) ↔
      .ran chain run shown ∈ history := by
  rw [List.mem_filterMap]
  constructor
  · rintro ⟨x, hx, hnoted⟩
    cases x with
    | ran other run' shown' =>
      obtain ⟨rfl, heq⟩ := Option.ite_none_right_eq_some.mp hnoted
      simp only [Option.some.injEq, Prod.mk.injEq] at heq
      obtain ⟨rfl, rfl⟩ := heq
      exact hx
    | _ => cases hnoted
  · exact fun hran ↦ ⟨_, hran, if_pos rfl⟩

/-- A chain that was started while the clock showed `start`, followed from a moment on at which the
clock shows `base` up to one at which it shows `limit`. -/
structure Course (L : Type) where
  chain : Handle
  period : Duration
  body : Commission L
  start : Int
  base : Int
  limit : Int

namespace Course

variable (k : Course L)

/-- When a run of the chain is due. -/
def due (run : Nat) : Int :=
  k.start + run * k.period.nanos

/-- The periods are counted from the start. -/
theorem due_zero : k.due 0 = k.start := by
  rw [due, Int.natCast_zero, Int.zero_mul, Int.add_zero]

/-- A run is due one period after the one before. -/
theorem due_succ (run : Nat) : k.due (run + 1) = k.due run + k.period.nanos := by
  rw [due, due, Int.natCast_succ, Int.add_mul, Int.one_mul, Int.add_assoc]

/-- The first runs of the chain, each with what the clock shows when it starts. -/
def grid (n : Nat) : List (Nat × Int) :=
  (List.range n).map fun i ↦ (i + 1, k.due (i + 1))

private theorem grid_succ (n : Nat) : k.grid (n + 1) = k.grid n ++ [(n + 1, k.due (n + 1))] := by
  simp only [grid, List.range_succ, List.map_append, List.map_cons, List.map_nil]

/-- The next run waits for its turn, which comes after the moment from which on the chain is
followed. -/
def Waiting (n : Nat) (d : Desk L) : Prop :=
  ∃ e, d.agenda.links k.chain = [e] ∧ e.job = .link k.chain k.period (n + 1) k.body ∧
    e.due.nanos = k.due (n + 1) ∧ d.agenda.clock.shown ≤ e.due.nanos ∧ k.base < e.due.nanos

/-- So many runs have started in their places, and the body has asked for all up to the given one:
either for the next one as well, which waits, or for no more. -/
structure Placed (n asked : Nat) (history : List (Incident L)) (d : Desk L) : Prop where
  runs : history.filterMap (Incident.runOf? k.chain) = k.grid n
  continued : ∀ run, .continued k.chain run ∈ history ↔ 2 ≤ run ∧ run ≤ asked
  passed : k.due n ≤ d.agenda.clock.shown
  based : k.base ≤ d.agenda.clock.shown
  inRange : d.agenda.clock.shown ≤ k.limit
  waits : asked = n + 1 ∧ k.Waiting n d ∨
    asked = n ∧ 0 < n ∧ d.agenda.links k.chain = []

/-- What can be said of a chain in every state: it has one link at most, it does not run once it is
cancelled, and unless it was cancelled, the desk shut down or the clock moved, its runs are in their
places. -/
structure Followed (history : List (Incident L)) (d : Desk L) : Prop where
  orderly : d.Orderly
  given : k.chain.id < d.agenda.nextHandle
  own : ∀ e ∈ d.agenda.queue, e.handle ≠ k.chain
  single : (d.agenda.links k.chain).length ≤ 1
  cancels : .occurred (.cancelled k.chain) ∈ history → d.agenda.isCancelled k.chain = true
  silent : history.Pairwise fun x later ↦
    x = .occurred (.cancelled k.chain) → ∀ run shown, later ≠ .ran k.chain run shown
  placed : .moved ∈ history ∨ d.agenda.isCancelled k.chain = true ∨ d.agenda.stopped = true ∨
    ∃ n asked, k.Placed n asked history d

/-- The body of a run of the chain is attended to: nothing waits that belongs to the chain, and the
run is in its place. -/
structure Busy (period : Duration) (run : Nat) (c : Commission L) (history : List (Incident L))
    (d : Desk L) : Prop where
  followed : k.Followed history d
  links : d.agenda.links k.chain = []
  placed : .moved ∈ history ∨ d.agenda.isCancelled k.chain = true ∨ d.agenda.stopped = true ∨
    (period = k.period ∧ c = k.body) ∧ k.Placed run run history d ∧
      d.agenda.clock.shown = k.due run

variable {k}

namespace Followed

variable {history more : List (Incident L)} {d d' : Desk L} {a : Agenda (Commission L)}

private theorem chain_ne (h : k.Followed history d) : k.chain ≠ ⟨d.agenda.nextHandle⟩ := by
  intro heq
  have hgiven := h.given
  rw [heq] at hgiven
  exact Nat.lt_irrefl _ hgiven

private theorem silent_append (h : k.Followed history d)
    (hmore : ∀ run shown, .ran k.chain run shown ∉ more) :
    (history ++ more).Pairwise fun x later ↦
      x = .occurred (.cancelled k.chain) → ∀ run shown, later ≠ .ran k.chain run shown := by
  have hno (x : Incident L) (hx : x ∈ more) (run : Nat) (shown : Int) :
      x ≠ .ran k.chain run shown := by
    rintro rfl
    exact hmore run shown hx
  refine List.pairwise_append.mpr ⟨h.silent, ?_, fun _ _ x hx _ ↦ hno x hx⟩
  refine List.pairwise_iff_forall_sublist.mpr fun hsub _ ↦ hno _ (hsub.subset ?_)
  exact List.mem_cons_of_mem _ (List.mem_singleton_self _)

/-- What does not concern the chain leaves it in its place, if it lets the clock pass neither the
limit nor the instant at which the next run is due. -/
theorem append (h : k.Followed history d) (honward : d.agenda.Onward d'.agenda)
    (horderly : d'.Orderly) (hlinks : d'.agenda.links k.chain = d.agenda.links k.chain)
    (hqueue : ∀ e ∈ d'.agenda.queue, e ∈ d.agenda.queue ∨ d.agenda.nextHandle ≤ e.handle.id)
    (hmore : ∀ x ∈ more, ¬ x.Concerns k.chain)
    (hcancels : .occurred (.cancelled k.chain) ∈ more → d'.agenda.isCancelled k.chain = true)
    (hclock : .moved ∈ history ∨ (d.agenda.clock.shown ≤ k.limit →
        d'.agenda.clock.shown ≤ k.limit) ∧
      ∀ e ∈ d.agenda.links k.chain, d.agenda.clock.shown ≤ e.due.nanos →
        d'.agenda.clock.shown ≤ e.due.nanos) :
    k.Followed (history ++ more) d' := by
  constructor
  case orderly => exact horderly
  case given => exact Nat.lt_of_lt_of_le h.given honward.nextHandle
  case own =>
    intro e he heq
    rcases hqueue e he with hold | hfresh
    · exact h.own e hold heq
    · exact absurd h.given (Nat.not_lt.mpr (heq ▸ hfresh))
  case single => exact hlinks ▸ h.single
  case cancels =>
    intro hmem
    rcases List.mem_append.mp hmem with hold | hnew
    · exact honward.cancelled _ (h.cancels hold)
    · exact hcancels hnew
  case silent =>
    refine h.silent_append fun run shown hmem ↦ ?_
    exact hmore _ hmem rfl
  case placed =>
    rcases h.placed with hmoved | hcancelled | hstopped | ⟨n, asked, hplaced⟩
    · exact .inl (List.mem_append_left _ hmoved)
    · exact .inr (.inl (honward.cancelled _ hcancelled))
    · exact .inr (.inr (.inl (honward.stopped hstopped)))
    · rcases hclock with hmoved | ⟨hlimit, hdue⟩
      · exact .inl (List.mem_append_left _ hmoved)
      · refine .inr (.inr (.inr ⟨n, asked, ?_, ?_, Int.le_trans hplaced.passed honward.shown,
          Int.le_trans hplaced.based honward.shown, hlimit hplaced.inRange, ?_⟩))
        · rw [List.filterMap_append, hplaced.runs, Incident.filterMap_runOf?_eq_nil hmore,
            List.append_nil]
        · intro run
          have hno : .continued k.chain run ∉ more := fun hmem ↦ hmore _ hmem rfl
          rw [List.mem_append, or_iff_left hno]
          exact hplaced.continued run
        · refine hplaced.waits.imp ?_ fun ⟨heq, hpos, hnone⟩ ↦ ⟨heq, hpos, hlinks.trans hnone⟩
          rintro ⟨heq, e, hlink, hjob, hplace, hreached, hlater⟩
          refine ⟨heq, e, hlinks.trans hlink, hjob, hplace, ?_, hlater⟩
          exact hdue e (hlink ▸ List.mem_singleton_self e) hreached

private theorem of_agenda_eq (h : k.Followed history d) (horderly : d'.Orderly)
    (heq : d'.agenda = d.agenda) : k.Followed history d' := by
  rw [← List.append_nil history]
  exact h.append (heq ▸ .refl _) horderly (heq ▸ rfl) (fun _ he ↦ .inl (heq ▸ he)) (by simp)
    (by simp) (.inr (heq ▸ ⟨id, fun _ _ ↦ id⟩))

private theorem note (h : k.Followed history d) (hmore : ∀ x ∈ more, ¬ x.Concerns k.chain)
    (hcancels : .occurred (.cancelled k.chain) ∉ more) : k.Followed (history ++ more) d :=
  h.append (.refl _) h.orderly rfl (fun _ he ↦ .inl he) hmore (fun hmem ↦ absurd hmem hcancels)
    (.inr ⟨id, fun _ _ ↦ id⟩)

private theorem submit (h : k.Followed history d) {delay : Duration} {job : Job (Commission L)}
    {handle : Handle} (hsubmit : d.agenda.submit delay job = .ok (handle, a))
    (hjob : job.chain? ≠ some k.chain) {directory : List (L × Handle)}
    (horderly : Desk.Orderly { d with agenda := a, directory }) :
    k.Followed (history ++ (d.agenda.submission delay job).map .occurred)
      { d with agenda := a, directory } := by
  refine h.append (.submit hsubmit) horderly (Agenda.links_submit hsubmit hjob)
    (fun e he ↦ Agenda.mem_queue_of_submit hsubmit he)
    (fun x hx ↦ (Agenda.isFiling_of_mem_submission hx).not_concerns) ?_ ?_
  · intro hmem
    obtain ⟨occurrence, hmem, heq⟩ := List.mem_map.mp hmem
    obtain rfl := Incident.occurred.inj heq
    exact absurd (Agenda.eq_of_cancelled_mem_submission hmem) h.chain_ne
  · rw [(Agenda.submit_cases hsubmit).1]
    exact .inr ⟨id, fun _ _ ↦ id⟩

private theorem arm (h : k.Followed history d) {chain : Handle} {period : Duration} {run : Nat}
    {c : Commission L} (harm : d.agenda.arm chain period run c = .ok a) (hchain : chain ≠ k.chain)
    (hgiven : chain.id < d.agenda.nextHandle) :
    k.Followed (history ++ (d.agenda.resumption chain period run c).map .occurred)
      { d with agenda := a } := by
  have horderly := h.orderly.arm harm hgiven
  rcases Agenda.arm_eq_ok harm with ⟨-, rfl, hnone⟩ | ⟨-, ⟨handle, hsubmit⟩, hsubmission⟩
  · rw [hnone, List.map_nil, List.append_nil]
    exact h
  · rw [hsubmission]
    exact h.submit hsubmit (fun heq ↦ hchain (Option.some.inj heq)) horderly

private theorem name (h : k.Followed history d) (label : L) :
    k.Followed history { d with
      agenda := d.agenda.freshHandle.2
      directory := (label, ⟨d.agenda.nextHandle⟩) :: d.directory } := by
  rw [← List.append_nil history]
  exact h.append (.freshHandle d.agenda) (h.orderly.name label) rfl (fun _ he ↦ .inl he) (by simp)
    (by simp) (.inr ⟨id, fun _ _ ↦ id⟩)

private theorem pass (h : k.Followed history d) {target : Option Instant} {live : Bool}
    {e : Entry (Commission L)} (htake : d.agenda.take? target = some (live, e, a))
    (hother : e.job.chain? ≠ some k.chain)
    (hdue : .moved ∈ history ∨ e.due.nanos ≤ k.limit ∨ e.due.nanos ≤ d.agenda.clock.shown)
    (hmore : ∀ x ∈ more, x.Concerns k.chain → e.Concerns k.chain)
    (hcancels : .occurred (.cancelled k.chain) ∉ more) :
    k.Followed (history ++ more) (withAgenda d a) := by
  have hlinks : a.links k.chain = d.agenda.links k.chain := by
    rw [Agenda.links_of_take htake, if_neg hother]
  have horderly := h.orderly.take htake
  have honward := Agenda.Onward.take htake
  obtain ⟨-, -, -, rest, hqueue, rfl⟩ := Agenda.take?_eq_some_iff.mp htake
  have hordered := h.orderly.ordered
  have hown := h.own e (hqueue ▸ List.mem_cons_self)
  rw [hqueue] at hordered
  refine h.append honward horderly hlinks
    (fun e' he' ↦ .inl (hqueue ▸ List.mem_cons_of_mem e he'))
    (fun x hx hconcerns ↦ (hmore x hx hconcerns).elim hown hother)
    (fun hmem ↦ absurd hmem hcancels) ?_
  have hshown : (withAgenda d (d.agenda.left e rest)).agenda.clock.shown =
      max d.agenda.clock.shown e.due.nanos :=
    Clock.shown_advanceTo d.agenda.clock e.due
  rw [hshown]
  refine hdue.imp_right fun hdue ↦ ⟨fun hlimit ↦ ?_, fun e' he' hreached ↦ ?_⟩
  · exact Int.max_le.mpr ⟨hlimit, hdue.elim id fun hle ↦ Int.le_trans hle hlimit⟩
  · have hrest : e' ∈ rest := by
      have hmem := (Agenda.mem_links.mp he').1
      rw [hqueue] at hmem
      rcases List.mem_cons.mp hmem with rfl | hrest
      · exact absurd (Agenda.mem_links.mp he').2 hother
      · exact hrest
    exact Int.max_le.mpr ⟨hreached, (List.pairwise_cons.mp hordered).1 e' hrest⟩

section

variable {target : Option Instant} {live : Bool} {e : Entry (Commission L)} {period : Duration}
  {run : Nat} {c : Commission L}

private theorem links_of_run (h : k.Followed history d)
    (htake : d.agenda.take? target = some (live, e, a))
    (hchain : e.job.chain? = some k.chain) :
    d.agenda.links k.chain = [e] ∧ a.links k.chain = [] := by
  have hlink : d.agenda.links k.chain = e :: a.links k.chain := by
    rw [Agenda.links_of_take htake, if_pos hchain]
  have hsingle := h.single
  rw [hlink] at hsingle
  have hnone : a.links k.chain = [] :=
    List.eq_nil_of_length_eq_zero (Nat.le_zero.mp (Nat.le_of_succ_le_succ hsingle))
  exact ⟨hnone ▸ hlink, hnone⟩

/-- A run that has its turn is the next one on the grid, unless the clock was moved or the chain
cancelled. -/
theorem placed_of_run (h : k.Followed history d)
    (htake : d.agenda.take? target = some (live, e, a))
    (hjob : e.job = .link k.chain period run c)
    (hdue : .moved ∈ history ∨ e.due.nanos ≤ k.limit ∨ e.due.nanos ≤ d.agenda.clock.shown) :
    .moved ∈ history ∨ a.isCancelled k.chain = true ∨ (period = k.period ∧ c = k.body) ∧
      k.Placed run run (history ++ .occurred (.started e a.clock.elapsed) :: e.job.notice a)
        (withAgenda d a) ∧ a.clock.shown = k.due run := by
  obtain ⟨hlink, hnone⟩ := h.links_of_run htake (congrArg Job.chain? hjob)
  obtain ⟨hrunning, -, -, rest, -, heq⟩ := Agenda.take?_eq_some_iff.mp htake
  have hshown : a.clock.shown = max d.agenda.clock.shown e.due.nanos := by
    rw [heq]
    exact Clock.shown_advanceTo d.agenda.clock e.due
  rcases h.placed with hmoved | hcancelled | hstopped | ⟨n, asked, hplaced⟩
  · exact .inl hmoved
  · exact .inr (.inl ((Agenda.Onward.take htake).cancelled _ hcancelled))
  · rw [hrunning] at hstopped
    cases hstopped
  · rcases hplaced.waits with ⟨rfl, e', hlink', hjob', hplace, hreached, -⟩ | ⟨-, -, hempty⟩
    · obtain ⟨rfl, -⟩ := List.cons.inj (hlink.symm.trans hlink')
      obtain ⟨-, rfl, rfl, rfl⟩ := Job.link.inj (hjob.symm.trans hjob')
      cases hlive : a.isCancelled k.chain with
      | true => exact .inr (.inl rfl)
      | false =>
        rcases hdue with hmoved | hdue
        · exact .inl hmoved
        · have hnotice : e.job.notice a = [.ran k.chain (n + 1) a.clock.shown] := by
            rw [hjob, Job.notice, if_neg (hlive ▸ Bool.false_ne_true)]
          have hnow : a.clock.shown = k.due (n + 1) := by
            rw [hshown, Int.max_eq_right hreached, hplace]
          have hlimit : a.clock.shown ≤ k.limit := by
            have hinRange := hplaced.inRange
            omega
          have hbased : k.base ≤ a.clock.shown :=
            Int.le_trans hplaced.based (Agenda.Onward.take htake).shown
          refine .inr (.inr ⟨⟨rfl, rfl⟩, ⟨?_, ?_, Int.le_of_eq hnow.symm, hbased, hlimit,
            .inr ⟨rfl, Nat.succ_pos n, hnone⟩⟩, hnow⟩)
          · rw [List.filterMap_append, hplaced.runs, hnotice, grid_succ, hnow]
            simp [List.filterMap_cons, Incident.runOf?]
          · intro run
            rw [hnotice, List.mem_append, hplaced.continued run]
            simp
    · rw [hlink] at hempty
      cases hempty

private theorem started (h : k.Followed history d)
    (htake : d.agenda.take? target = some (live, e, a))
    (hjob : e.job = .link k.chain period run c)
    (hdue : .moved ∈ history ∨ e.due.nanos ≤ k.limit ∨ e.due.nanos ≤ d.agenda.clock.shown) :
    k.Followed (history ++ .occurred (.started e a.clock.elapsed) :: e.job.notice a)
      (withAgenda d a) := by
  have hplace := h.placed_of_run htake hjob hdue
  obtain ⟨-, hnone⟩ := h.links_of_run htake (congrArg Job.chain? hjob)
  have honward := Agenda.Onward.take htake
  have horderly := h.orderly.take htake
  have hqueue (e' : Entry (Commission L)) (he' : e' ∈ a.queue) : e' ∈ d.agenda.queue := by
    obtain ⟨-, -, -, rest, hqueue, rfl⟩ := Agenda.take?_eq_some_iff.mp htake
    exact hqueue ▸ List.mem_cons_of_mem e he'
  have hran (x : Incident L) (hx : x ∈ e.job.notice a) : a.isCancelled k.chain = false ∧
      x = .ran k.chain run a.clock.shown := by
    obtain ⟨_, _, _, _, hjob', hlive, rfl⟩ := Job.eq_ran_of_mem_notice hx
    obtain ⟨rfl, rfl, rfl, rfl⟩ := Job.link.inj (hjob'.symm.trans hjob)
    exact ⟨hlive, rfl⟩
  constructor
  case orderly => exact horderly
  case given => exact Nat.lt_of_lt_of_le h.given honward.nextHandle
  case own => exact fun e' he' ↦ h.own e' (hqueue e' he')
  case single => exact Nat.le_trans (Nat.le_of_eq (congrArg List.length hnone)) (Nat.zero_le 1)
  case cancels =>
    intro hmem
    rcases List.mem_append.mp hmem with hold | hnew
    · exact honward.cancelled _ (h.cancels hold)
    · rcases List.mem_cons.mp hnew with hstarted | hnew
      · cases hstarted
      · cases (hran _ hnew).2
  case silent =>
    refine List.pairwise_append.mpr ⟨h.silent, ?_, ?_⟩
    · refine List.pairwise_cons.mpr ⟨fun _ _ ↦ nofun, ?_⟩
      refine List.pairwise_iff_forall_sublist.mpr fun hsub hcancelled ↦ ?_
      have hmem := hsub.subset List.mem_cons_self
      rw [hcancelled] at hmem
      cases (hran _ hmem).2
    · rintro x hx y hy rfl run shown rfl
      rcases List.mem_cons.mp hy with hstarted | hnew
      · cases hstarted
      · have hcancelled := honward.cancelled _ (h.cancels hx)
        rw [(hran _ hnew).1] at hcancelled
        cases hcancelled
  case placed =>
    rcases hplace with hmoved | hcancelled | ⟨-, hplaced, -⟩
    · exact .inl (List.mem_append_left _ hmoved)
    · exact .inr (.inl hcancelled)
    · exact .inr (.inr (.inr ⟨run, run, hplaced⟩))

variable [DecidableEq L] {fuel : Nat} {r : Except Abort Unit}

/-- An entry that is no run of the chain is started. -/
theorem perform_other
    (hinside : ∀ history c run d again d', k.Followed history d →
      Desk.attend fuel c run d = some (again, d') →
      k.Followed (history ++ Desk.attendIncidents fuel c run d) d')
    (h : k.Followed history d) (htake : d.agenda.take? target = some (true, e, a))
    (hother : e.job.chain? ≠ some k.chain)
    (hdue : .moved ∈ history ∨ e.due.nanos ≤ k.limit ∨ e.due.nanos ≤ d.agenda.clock.shown)
    (hperform : e.job.perform (Desk.attend fuel) (withAgenda d a) = some (r, d')) :
    k.Followed (history ++ .occurred (.started e a.clock.elapsed) :: e.job.notice a ++
      e.job.chronicle (Desk.observer (Desk.attendIncidents fuel)) (Desk.attend fuel)
        (withAgenda d a)) d' := by
  refine Desk.perform_told _ hinside ?_ (h.pass htake hother hdue ?_ ?_) hperform
  · intro history chain period run c d₁ hjob honward h₁
    have hne : chain ≠ k.chain := by
      rintro rfl
      exact hother (congrArg Job.chain? hjob)
    have hgiven : chain.id < d₁.agenda.nextHandle := by
      have hawaits := Agenda.awaits_of_take htake (.inr (congrArg Job.chain? hjob))
      have hlater := ((Agenda.Onward.take htake).trans honward).nextHandle
      exact Nat.lt_of_lt_of_le (h.orderly.awaits chain hawaits) hlater
    cases harm : d₁.agenda.arm chain period (run + 1) c with
    | error abort => exact h₁.note (by simp [Incident.Concerns, hne]) (by simp)
    | ok b =>
      have hasked : k.Followed (history ++ [.continued chain (run + 1)]) d₁ :=
        h₁.note (by simp [Incident.Concerns, hne]) (by simp)
      have harmed := hasked.arm harm hne hgiven
      rwa [List.append_assoc] at harmed
  · intro x hx hconcerns
    rcases List.mem_cons.mp hx with rfl | hx
    · exact hconcerns
    · exact .inr (Incident.chain?_of_mem_notice hx hconcerns)
  · intro hmem
    rcases List.mem_cons.mp hmem with heq | hmem
    · cases heq
    · obtain ⟨_, _, _, _, -, -, heq⟩ := Job.eq_ran_of_mem_notice hmem
      cases heq

end

end Followed

section

variable {history : List (Incident L)} {d d' : Desk L} {a : Agenda (Commission L)}
  {target : Option Instant} {e : Entry (Commission L)} {period : Duration} {run : Nat}
  {c : Commission L}

private theorem Placed.pos (hplaced : k.Placed run run history d) : 0 < run := by
  rcases hplaced.waits with ⟨hnext, -⟩ | ⟨-, hpos, -⟩
  · omega
  · exact hpos

private theorem Placed.silent (hplaced : k.Placed run run history d)
    (hclock : d'.agenda.clock = d.agenda.clock) (hnone : d'.agenda.links k.chain = [])
    {more : List (Incident L)} (hmore : ∀ x ∈ more, ¬ x.Concerns k.chain) :
    k.Placed run run (history ++ more) d' := by
  have hpos := hplaced.pos
  refine ⟨?_, fun other ↦ ?_, hclock ▸ hplaced.passed, hclock ▸ hplaced.based,
    hclock ▸ hplaced.inRange, .inr ⟨rfl, hpos, hnone⟩⟩
  · rw [List.filterMap_append, hplaced.runs, Incident.filterMap_runOf?_eq_nil hmore,
      List.append_nil]
  · have hno : .continued k.chain other ∉ more := fun hmem ↦ hmore _ hmem rfl
    rw [List.mem_append, or_iff_left hno]
    exact hplaced.continued other

private theorem mem_resumption {x : Incident L} (hx : x ∈ .continued k.chain (run + 1) ::
    (d.agenda.resumption k.chain period (run + 1) c).map .occurred) :
    x = .continued k.chain (run + 1) ∨ x.IsFiling :=
  (List.mem_cons.mp hx).imp_right Agenda.isFiling_of_mem_resumption

private theorem Placed.resume (hplaced : k.Placed run run history d) (hperiod : 0 < k.period.nanos)
    (hlimit : k.limit + k.period.nanos < instantBound) (hnone : d.agenda.links k.chain = [])
    (hnow : d.agenda.clock.shown = k.due run)
    (hcancelled : d.agenda.isCancelled k.chain = false) (hstopped : d.agenda.stopped = false)
    {b : Agenda (Commission L)}
    (harm : d.agenda.arm k.chain k.period (run + 1) k.body = .ok b) :
    k.Placed run (run + 1) (history ++ .continued k.chain (run + 1) ::
      (d.agenda.resumption k.chain k.period (run + 1) k.body).map .occurred) (withAgenda d b) := by
  have hpos := hplaced.pos
  have hnext : k.due (run + 1) = d.agenda.clock.shown + k.period.nanos := by
    rw [hnow, due_succ]
  have hbound : d.agenda.clock.shown + k.period.nanos < instantBound := by
    have hinRange := hplaced.inRange
    omega
  obtain ⟨now, hread⟩ := Clock.exists_now (c := d.agenda.clock) (by omega)
  have hshown := Clock.now_eq_ok_iff_shown.mp hread
  obtain ⟨instant, hadd⟩ := Instant.exists_add? (a := now) (d := k.period) (hshown ▸ hbound)
  have hinstant := Instant.add?_eq_some_iff.mp hadd
  have hsubmit := Agenda.submit_eq hread hstopped k.period (.link k.chain k.period (run + 1) k.body)
  rw [hadd] at hsubmit
  obtain rfl : b = d.agenda.booked (some instant) (.link k.chain k.period (run + 1) k.body) := by
    rw [Agenda.arm, hcancelled, hstopped, hsubmit] at harm
    exact (Except.ok.inj harm).symm
  have hown : (Job.link k.chain k.period (run + 1) k.body).chain? = some k.chain := rfl
  have hlink := Agenda.links_booked hnone instant hown
  refine ⟨?_, ?_, hplaced.passed, hplaced.based, hplaced.inRange, .inl ⟨rfl, _, hlink, rfl, ?_⟩⟩
  · rw [List.filterMap_append, hplaced.runs, List.filterMap_eq_nil_iff.mpr, List.append_nil]
    intro x hx
    rcases mem_resumption hx with rfl | ⟨e, rfl⟩ | ⟨handle, rfl⟩
    · rfl
    · rfl
    · rfl
  · intro other
    have hother (hmem : .continued k.chain other ∈
        (d.agenda.resumption k.chain k.period (run + 1) k.body).map Incident.occurred) : False := by
      obtain ⟨_, -, heq⟩ := List.mem_map.mp hmem
      cases heq
    rw [List.mem_append, hplaced.continued other, List.mem_cons, Incident.continued.injEq]
    constructor
    · rintro (⟨hlow, hhigh⟩ | ⟨-, rfl⟩ | hmem)
      · exact ⟨hlow, by omega⟩
      · exact ⟨by omega, Nat.le_refl _⟩
      · exact (hother hmem).elim
    · rintro ⟨hlow, hhigh⟩
      by_cases hlast : other = run + 1
      · exact .inr (.inl ⟨rfl, hlast⟩)
      · exact .inl ⟨hlow, by omega⟩
  · have hbased := hplaced.based
    have hlater : d.agenda.clock.shown < instant.nanos := by omega
    have hdue : instant.nanos = k.due (run + 1) := by omega
    exact ⟨hdue, Int.le_of_lt hlater, Int.lt_of_le_of_lt hbased hlater⟩

/-- The body has asked for the next run, which is submitted in its place unless the clock was moved,
the chain cancelled or the desk shut down. -/
theorem Busy.resume (hbusy : k.Busy period run c history d) (hperiod : 0 < k.period.nanos)
    (hlimit : k.limit + k.period.nanos < instantBound) :
    match d.agenda.arm k.chain period (run + 1) c with
    | .ok b => k.Followed (history ++ .continued k.chain (run + 1) ::
        (d.agenda.resumption k.chain period (run + 1) c).map .occurred) (withAgenda d b)
    | .error _ => k.Followed (history ++ [.continued k.chain (run + 1), .occurred .broken]) d := by
  obtain ⟨h, hnone, hplaced⟩ := hbusy
  cases harm : d.agenda.arm k.chain period (run + 1) c with
  | error abort =>
    have hmoved : .moved ∈ history := by
      refine hplaced.resolve_right ?_
      have hended (hended : (d.agenda.isCancelled k.chain || d.agenda.stopped) = true) : False := by
        rw [Agenda.arm, if_pos hended] at harm
        cases harm
      rintro (hcancelled | hstopped | ⟨-, hplaced, -⟩)
      · exact hended (by rw [hcancelled, Bool.true_or])
      · exact hended (by rw [hstopped, Bool.or_true])
      · have hbound : d.agenda.clock.shown < instantBound := by
          have hinRange := hplaced.inRange
          omega
        obtain ⟨now, hnow⟩ := Clock.exists_now hbound
        rw [Agenda.now_of_arm_eq_error harm] at hnow
        cases hnow
    refine ⟨h.orderly, h.given, h.own, h.single, fun hmem ↦ h.cancels ?_,
      h.silent_append (by simp), .inl (List.mem_append_left _ hmoved)⟩
    simpa using hmem
  | ok b =>
    have honward := Agenda.Onward.arm harm
    refine ⟨h.orderly.arm harm h.given, Nat.lt_of_lt_of_le h.given honward.nextHandle, ?_,
      Agenda.length_links_arm_le hnone harm, ?_, h.silent_append ?_, ?_⟩
    · intro e he heq
      rcases Agenda.arm_cases harm with rfl | ⟨handle, hsubmit⟩
      · exact h.own e he heq
      · rcases Agenda.mem_queue_of_submit hsubmit he with hold | hfresh
        · exact h.own e hold heq
        · exact absurd h.given (Nat.not_lt.mpr (heq ▸ hfresh))
    · intro hmem
      rcases List.mem_append.mp hmem with hold | hnew
      · exact honward.cancelled _ (h.cancels hold)
      · rcases List.mem_cons.mp hnew with heq | hnew
        · cases heq
        · obtain ⟨occurrence, hmem, heq⟩ := List.mem_map.mp hnew
          obtain rfl := Incident.occurred.inj heq
          exact absurd (Agenda.eq_of_cancelled_mem_resumption hmem) h.chain_ne
    · intro other shown hmem
      rcases mem_resumption hmem with heq | ⟨e, heq⟩ | ⟨handle, heq⟩
      · cases heq
      · cases heq
      · cases heq
    · rcases hplaced with hmoved | hcancelled | hstopped | ⟨⟨rfl, rfl⟩, hplaced, hnow⟩
      · exact .inl (List.mem_append_left _ hmoved)
      · exact .inr (.inl (honward.cancelled _ hcancelled))
      · exact .inr (.inr (.inl (honward.stopped hstopped)))
      · cases hcancelled : d.agenda.isCancelled k.chain with
        | true => exact .inr (.inl (honward.cancelled _ hcancelled))
        | false =>
          cases hstopped : d.agenda.stopped with
          | true => exact .inr (.inr (.inl (honward.stopped hstopped)))
          | false =>
            exact .inr (.inr (.inr ⟨run, run + 1,
              hplaced.resume hperiod hlimit hnone hnow hcancelled hstopped harm⟩))

private theorem Followed.busy (h : k.Followed history d)
    (htake : d.agenda.take? target = some (true, e, a))
    (hjob : e.job = .link k.chain period run c)
    (hdue : .moved ∈ history ∨ e.due.nanos ≤ k.limit ∨ e.due.nanos ≤ d.agenda.clock.shown) :
    k.Busy period run c (history ++ .occurred (.started e a.clock.elapsed) :: e.job.notice a)
      (withAgenda d a) := by
  refine ⟨h.started htake hjob hdue, (h.links_of_run htake (congrArg Job.chain? hjob)).2, ?_⟩
  rcases h.placed_of_run htake hjob hdue with hmoved | hcancelled | hplaced
  · exact .inl (List.mem_append_left _ hmoved)
  · exact .inr (.inl hcancelled)
  · exact .inr (.inr (.inr hplaced))

variable [DecidableEq L] {fuel : Nat} {r : Except Abort Unit}

/-- While the body is attended to, nothing of the chain comes to wait, and the clock stays where it
is. -/
theorem Busy.attend (h : k.Busy period run c history d)
    (hbound : k.limit < instantBound) {other : Commission L} {count : Nat} {again : Bool}
    (hattend : Desk.attend fuel other count d = some (again, d'))
    (hfollowed : k.Followed (history ++ Desk.attendIncidents fuel other count d) d') :
    k.Busy period run c (history ++ Desk.attendIncidents fuel other count d) d' := by
  have hawaits : ¬ d.agenda.Awaits k.chain := by
    rintro ⟨e, he, hown | hchain⟩
    · exact h.followed.own e he hown
    · have hmem := Agenda.mem_links.mpr ⟨he, hchain⟩
      rw [h.links] at hmem
      cases hmem
  have hlacks : Desk.Lacks k.chain (Desk.attendIncidents fuel other count d) d' :=
    (Desk.keeps_lacks k.chain : Desk.Keeps (fun _ ↦ True) _).attend
      ⟨h.followed.given, hawaits, fun x hx ↦ absurd hx List.not_mem_nil⟩ hattend
  have hnone : d'.agenda.links k.chain = [] := by
    refine List.eq_nil_iff_forall_not_mem.mpr fun e he ↦ ?_
    obtain ⟨hmem, hchain⟩ := Agenda.mem_links.mp he
    exact hlacks.awaits ⟨e, hmem, .inr hchain⟩
  have honward := Desk.attend_onward hattend
  refine ⟨hfollowed, hnone, ?_⟩
  rcases h.placed with hmoved | hcancelled | hstopped | ⟨hsame, hplaced, hnow⟩
  · exact .inl (List.mem_append_left _ hmoved)
  · exact .inr (.inl (honward.cancelled _ hcancelled))
  · exact .inr (.inr (.inl (honward.stopped hstopped)))
  · have hread := Clock.exists_now (Int.lt_of_le_of_lt hplaced.inRange hbound)
    rcases Desk.clock_attend hread hattend with hmoved | hclock
    · exact .inl (List.mem_append_right _ hmoved)
    · exact .inr (.inr (.inr ⟨hsame, hplaced.silent hclock hnone hlacks.history, hclock ▸ hnow⟩))

/-- A run of the chain is started. -/
theorem Followed.perform_run (hperiod : 0 < k.period.nanos)
    (hlimit : k.limit + k.period.nanos < instantBound)
    (hinside : ∀ history c run d again d', k.Followed history d →
      Desk.attend fuel c run d = some (again, d') →
      k.Followed (history ++ Desk.attendIncidents fuel c run d) d')
    (h : k.Followed history d) (htake : d.agenda.take? target = some (true, e, a))
    (hjob : e.job = .link k.chain period run c)
    (hdue : .moved ∈ history ∨ e.due.nanos ≤ k.limit ∨ e.due.nanos ≤ d.agenda.clock.shown)
    (hperform : e.job.perform (Desk.attend fuel) (withAgenda d a) = some (r, d')) :
    k.Followed (history ++ .occurred (.started e a.clock.elapsed) :: e.job.notice a ++
      e.job.chronicle (Desk.observer (Desk.attendIncidents fuel)) (Desk.attend fuel)
        (withAgenda d a)) d' := by
  have hbusy := h.busy htake hjob hdue
  refine Desk.perform_ends (k.Busy period run c) k.Followed _ ?_ ?_ (fun _ _ h ↦ h.followed) hbusy
    hperform
  · intro count again d₁ hattend
    exact hbusy.attend (by omega) hattend (hinside _ _ _ _ _ _ hbusy.followed hattend)
  · intro history chain period' run' c' d₁ hjob' _ hbusy₁
    obtain ⟨rfl, rfl, rfl, rfl⟩ := Job.link.inj (hjob'.symm.trans hjob)
    exact hbusy₁.resume hperiod hlimit

end

variable [DecidableEq L]

/-- A chain that is followed stays so with every step within the limit. -/
theorem keeps_followed (hperiod : 0 < k.period.nanos)
    (hlimit : k.limit + k.period.nanos < instantBound) :
    Desk.Keeps (fun due ↦ due.nanos ≤ k.limit) k.Followed where
  note notice h := h.of_agenda_eq ⟨⟨h.orderly.awaits, h.orderly.cancelled, h.orderly.directory⟩,
    h.orderly.unseen, h.orderly.ordered⟩ rfl
  submit {_ _ label _ _ _ _} h hsubmit := h.submit hsubmit nofun (h.orderly.register hsubmit label)
  begin {_ _ label _ _ _} h harm :=
    (h.name label).arm harm h.chain_ne.symm (Nat.lt_succ_self _)
  cancel {_ d _ handle} h hhandle := by
    refine h.append (.cancel d.agenda handle) (h.orderly.cancel hhandle) ?_ ?_ ?_ ?_ ?_
    · rw [Agenda.links, Agenda.queue_cancel]
      rfl
    · intro e he
      rw [Agenda.queue_cancel] at he
      exact .inl he
    · simp [Incident.Concerns]
    · intro hmem
      simp only [List.mem_singleton, Incident.occurred.injEq, Occurrence.cancelled.injEq] at hmem
      simp [Agenda.isCancelled_cancel, hmem]
    · rw [Agenda.clock_cancel]
      exact .inr ⟨id, fun _ _ ↦ id⟩
  stop h := by
    refine ⟨h.orderly.shutdown, h.given, fun _ he ↦ absurd he List.not_mem_nil, Nat.zero_le 1,
      fun hmem ↦ h.cancels ?_, h.silent_append (by simp), .inr (.inr (.inl rfl))⟩
    simpa using hmem
  skip {_ d _ e _} h htake hdue := by
    have hother : e.job.chain? ≠ some k.chain := by
      intro hchain
      obtain ⟨-, -, hlive, rest, hqueue, -⟩ := Agenda.take?_eq_some_iff.mp htake
      have hunseen := (h.orderly.unseen e (hqueue ▸ List.mem_cons_self) (by simp [hchain])).1
      rw [eq_comm, Bool.not_eq_false', Agenda.isCancelled, List.contains_iff_mem] at hlive
      exact hunseen hlive
    exact h.pass htake hother hdue (by simp [Incident.Concerns]) (by simp)
  start {fuel history d target e a r d'} hinside h htake hdue hperform := by
    by_cases hchain : e.job.chain? = some k.chain
    · cases hjob : e.job with
      | once body =>
        rw [hjob] at hchain
        cases hchain
      | link chain period run c =>
        obtain rfl : chain = k.chain := by
          rw [hjob] at hchain
          exact Option.some.inj hchain
        rw [← hjob]
        exact h.perform_run hperiod hlimit hinside htake hjob hdue hperform
    · exact h.perform_other hinside htake hchain hdue hperform
  moving h := h.note (by simp [Incident.Concerns]) (by simp)
  shift hmoved h _ _ := ⟨⟨⟨h.orderly.awaits, h.orderly.cancelled, h.orderly.directory⟩,
    h.orderly.unseen, h.orderly.ordered⟩, h.given, h.own, h.single, h.cancels, h.silent,
    .inl hmoved⟩
  fail h _ := h.note (by simp [Incident.Concerns]) (by simp)

end Course

end Caching
