import Caching.Proofs.Desk.Incidents

/-!
# Handles

A handle is given out once, and a run of a chain waits under a handle that nobody else has. So what
is not on an agenda and cannot come onto it any more stays away: once nothing that waits is
concerned with a handle that was given out, nothing that has its turn later is.
-/

namespace Caching

variable {L B : Type}

/-- The chain that a job is a run of. -/
def Job.chain? : Job B → Option Handle
  | once _ => none
  | link chain _ _ _ => some chain

/-- The entry is cancelled by the handle, or is a run of its chain. -/
def Entry.Concerns (e : Entry B) (handle : Handle) : Prop :=
  e.handle = handle ∨ e.job.chain? = some handle

/-- An entry that is concerned with the handle has its turn, or its chain runs or goes on. -/
def Incident.Concerns (handle : Handle) : Incident L → Prop
  | occurred (.started e _) | occurred (.skipped e _) => e.Concerns handle
  | ran chain _ _ | continued chain _ => chain = handle
  | occurred (.submitted _) | occurred (.cancelled _) | occurred (.stopped _ _) | occurred .broken
  | moved | aborted _ => False

namespace Agenda

variable {a b : Agenda B} {handle : Handle}

/-- An entry that is concerned with the handle waits for its turn. -/
def Awaits (a : Agenda B) (handle : Handle) : Prop :=
  ∃ e ∈ a.queue, e.Concerns handle

/-- The second agenda comes from the first by submitting something: only fresh handles are new, and
that of the chain that goes on. -/
structure Gains (chain : Option Handle) (a b : Agenda B) : Prop where
  nextHandle : a.nextHandle ≤ b.nextHandle
  awaits : ∀ handle, b.Awaits handle →
    a.Awaits handle ∨ chain = some handle ∨ a.nextHandle ≤ handle.id ∧ handle.id < b.nextHandle
  cancelled : ∀ handle ∈ b.cancelled,
    handle ∈ a.cancelled ∨ a.nextHandle ≤ handle.id ∧ handle.id < b.nextHandle

private theorem Gains.submit {delay : Duration} {job : Job B}
    (h : a.submit delay job = .ok (handle, b)) : Gains job.chain? a b := by
  obtain ⟨rfl, rfl | ⟨due, rfl⟩⟩ := submit_eq_ok h
  · obtain ⟨cancelled, heq, hmem⟩ := a.freshHandle.2.cancel_eq ⟨a.nextHandle⟩
    rw [heq]
    refine ⟨Nat.le_succ _, fun other hother ↦ .inl hother, fun other hother ↦ ?_⟩
    rcases (hmem other).mp hother with rfl | hold
    · exact .inr ⟨Nat.le_refl _, Nat.lt_succ_self _⟩
    · exact .inl hold
  · cases due with
    | none => exact ⟨Nat.le_succ _, fun _ hother ↦ .inl hother, fun _ hother ↦ .inl hother⟩
    | some due =>
      refine ⟨Nat.le_succ _, ?_, fun _ hother ↦ .inl hother⟩
      rintro other ⟨e, he, hconcerns⟩
      rcases List.mem_cons.mp ((insertEntry_perm _ _).mem_iff.mp he) with rfl | hold
      · rcases hconcerns with rfl | hchain
        · exact .inr (.inr ⟨Nat.le_refl _, Nat.lt_succ_self _⟩)
        · exact .inr (.inl hchain)
      · exact .inl ⟨e, hold, hconcerns⟩

private theorem lt_nextHandle_of_submit {delay : Duration} {job : Job B}
    (h : a.submit delay job = .ok (handle, b)) : handle.id < b.nextHandle := by
  obtain ⟨rfl, rfl | ⟨due, rfl⟩⟩ := submit_eq_ok h
  · obtain ⟨cancelled, heq, -⟩ := a.freshHandle.2.cancel_eq ⟨a.nextHandle⟩
    rw [heq]
    exact Nat.lt_succ_self _
  · obtain ⟨queue, nextSeq, heq⟩ := a.booked_eq due job
    rw [heq]
    exact Nat.lt_succ_self _

private theorem Gains.arm {chain : Handle} {period : Duration} {run : Nat} {body : B}
    (h : a.arm chain period run body = .ok b) : Gains (some chain) a b := by
  rcases arm_cases h with rfl | ⟨handle, hsubmit⟩
  · exact ⟨Nat.le_refl _, fun _ hother ↦ .inl hother, fun _ hother ↦ .inl hother⟩
  · exact .submit hsubmit

private theorem Gains.begin {period : Duration} {body : B}
    (h : a.freshHandle.2.arm ⟨a.nextHandle⟩ period 1 body = .ok b) : Gains none a b := by
  have harm := Gains.arm h
  have hnext : a.nextHandle + 1 ≤ b.nextHandle := harm.nextHandle
  refine ⟨by omega, fun other hother ↦ ?_, fun other hother ↦ ?_⟩
  · rcases harm.awaits other hother with hold | hchain | ⟨hlow, hhigh⟩
    · exact .inl hold
    · obtain rfl := Option.some.inj hchain
      exact .inr (.inr ⟨Nat.le_refl _, hnext⟩)
    · exact .inr (.inr ⟨Nat.le_of_succ_le hlow, hhigh⟩)
  · exact (harm.cancelled other hother).imp_right fun ⟨hlow, hhigh⟩ ↦
      ⟨Nat.le_of_succ_le hlow, hhigh⟩

private theorem Awaits.of_take {target : Option Instant} {live : Bool} {e : Entry B}
    (htake : a.take? target = some (live, e, b)) (h : b.Awaits handle) : a.Awaits handle := by
  obtain ⟨_, _, _, rest, hqueue, rfl⟩ := take?_eq_some_iff.mp htake
  obtain ⟨e', he', hconcerns⟩ := h
  exact ⟨e', hqueue ▸ List.mem_cons_of_mem e he', hconcerns⟩

/-- The entry that has its turn has been waiting for it. -/
theorem awaits_of_take {target : Option Instant} {live : Bool} {e : Entry B}
    (htake : a.take? target = some (live, e, b)) (h : e.Concerns handle) : a.Awaits handle := by
  obtain ⟨_, _, _, rest, hqueue, _⟩ := take?_eq_some_iff.mp htake
  exact ⟨e, hqueue ▸ List.mem_cons_self, h⟩

end Agenda

namespace Incident

variable {handle : Handle} {x : Incident L} {a : Agenda (Commission L)}

/-- A submission is no turn. -/
theorem IsFiling.not_concerns (h : x.IsFiling) : ¬ x.Concerns handle := by
  rcases h with ⟨e, rfl⟩ | ⟨other, rfl⟩
  · exact id
  · exact id

/-- A job that is started runs no chain but its own. -/
theorem chain?_of_mem_notice {job : Job (Commission L)} (hx : x ∈ job.notice a)
    (hconcerns : x.Concerns handle) : job.chain? = some handle := by
  obtain ⟨chain, period, run, c, rfl, -, rfl⟩ := Job.eq_ran_of_mem_notice hx
  exact congrArg some hconcerns

end Incident

namespace Desk

/-- Every handle that is in use has been given out. -/
structure Known (d : Desk L) : Prop where
  awaits : ∀ handle, d.agenda.Awaits handle → handle.id < d.agenda.nextHandle
  cancelled : ∀ handle ∈ d.agenda.cancelled, handle.id < d.agenda.nextHandle
  directory : ∀ entry ∈ d.directory, entry.2.id < d.agenda.nextHandle

namespace Known

variable {d : Desk L} {a : Agenda (Commission L)}

private theorem ofClock (clock : Clock) : (Desk.ofClock clock : Desk L).Known := by
  constructor <;> simp [Desk.ofClock, Agenda.ofClock, Agenda.Awaits]

private theorem extend (h : d.Known) {chain : Option Handle}
    (hgains : Agenda.Gains chain d.agenda a)
    (hchain : ∀ handle, chain = some handle → handle.id < d.agenda.nextHandle)
    {directory : List (L × Handle)}
    (hdirectory : ∀ entry ∈ directory, entry ∈ d.directory ∨ entry.2.id < a.nextHandle) :
    Known { d with agenda := a, directory } := by
  have hnext := hgains.nextHandle
  constructor
  · intro handle hhandle
    rcases hgains.awaits handle hhandle with hold | hown | ⟨-, hlt⟩
    · exact Nat.lt_of_lt_of_le (h.awaits handle hold) hnext
    · exact Nat.lt_of_lt_of_le (hchain handle hown) hnext
    · exact hlt
  · intro handle hhandle
    rcases hgains.cancelled handle hhandle with hold | ⟨-, hlt⟩
    · exact Nat.lt_of_lt_of_le (h.cancelled handle hold) hnext
    · exact hlt
  · intro entry hentry
    rcases hdirectory entry hentry with hold | hlt
    · exact Nat.lt_of_lt_of_le (h.directory entry hold) hnext
    · exact hlt

private theorem take (h : d.Known) {target : Option Instant} {live : Bool}
    {e : Entry (Commission L)}
    (htake : d.agenda.take? target = some (live, e, a)) : Known (withAgenda d a) := by
  have hawaits (handle : Handle) (hhandle : a.Awaits handle) : handle.id < d.agenda.nextHandle :=
    h.awaits handle (hhandle.of_take htake)
  obtain ⟨_, _, _, rest, _, rfl⟩ := Agenda.take?_eq_some_iff.mp htake
  exact ⟨hawaits, h.cancelled, h.directory⟩

variable [DecidableEq L]

private theorem of_handle? (h : d.Known) {label : L} {handle : Handle}
    (hhandle : d.handle? label = some handle) : handle.id < d.agenda.nextHandle := by
  obtain ⟨front, back, hdirectory, -⟩ := List.lookup_eq_some_iff.mp hhandle
  exact h.directory (label, handle) (hdirectory ▸ List.mem_append_right _ List.mem_cons_self)

omit [DecidableEq L] in
private theorem cancel (h : d.Known) {handle : Handle} (hhandle : handle.id < d.agenda.nextHandle) :
    Known { d with agenda := d.agenda.cancel handle } := by
  obtain ⟨cancelled, heq, hmem⟩ := d.agenda.cancel_eq handle
  rw [heq]
  refine ⟨h.awaits, fun other hother ↦ ?_, h.directory⟩
  rcases (hmem other).mp hother with rfl | hold
  · exact hhandle
  · exact h.cancelled other hold

end Known

/-- Besides, the entries wait in their order, and the handle under which a run of a chain waits is
known to nobody: no label stands for it, and it is never cancelled. -/
structure Orderly (d : Desk L) : Prop extends Known d where
  unseen : ∀ e ∈ d.agenda.queue, e.job.chain? ≠ none →
    e.handle ∉ d.agenda.cancelled ∧ ∀ entry ∈ d.directory, entry.2 ≠ e.handle
  ordered : Agenda.InOrder d.agenda.queue

namespace Orderly

variable {d d' : Desk L} {a : Agenda (Commission L)} {label : L} {handle : Handle}
  {delay period : Duration} {job : Job (Commission L)}

/-- An empty desk is orderly. -/
theorem ofClock (clock : Clock) : (Desk.ofClock clock : Desk L).Orderly :=
  ⟨.ofClock clock, fun _ he ↦ absurd he List.not_mem_nil, List.Pairwise.nil⟩

/-- The handle of an entry is another one than any that is given out later. -/
theorem handle_ne (h : d.Orderly) {e : Entry (Commission L)} (he : e ∈ d.agenda.queue) :
    e.handle ≠ ⟨d.agenda.nextHandle⟩ := by
  intro heq
  have hgiven := h.awaits e.handle ⟨e, he, .inl rfl⟩
  rw [heq] at hgiven
  exact Nat.lt_irrefl _ hgiven

/-- A label comes to stand for a fresh handle. -/
theorem name (h : d.Orderly) (label : L) : Orderly { d with
    agenda := d.agenda.freshHandle.2
    directory := (label, ⟨d.agenda.nextHandle⟩) :: d.directory } := by
  refine ⟨⟨fun handle hhandle ↦ Nat.lt_succ_of_lt (h.awaits handle hhandle),
    fun handle hhandle ↦ Nat.lt_succ_of_lt (h.cancelled handle hhandle), ?_⟩, ?_, h.ordered⟩
  · intro entry hentry
    rcases List.mem_cons.mp hentry with rfl | hold
    · exact Nat.lt_succ_self _
    · exact Nat.lt_succ_of_lt (h.directory entry hold)
  · intro e he hlink
    refine ⟨(h.unseen e he hlink).1, fun entry hentry ↦ ?_⟩
    rcases List.mem_cons.mp hentry with rfl | hold
    · exact (h.handle_ne he).symm
    · exact (h.unseen e he hlink).2 entry hold

/-- A job is submitted. A label may come to stand for its handle, unless it is the run of a chain.
-/
theorem submit (h : d.Orderly) (hsubmit : d.agenda.submit delay job = .ok (handle, a))
    (hchain : ∀ chain, job.chain? = some chain → chain.id < d.agenda.nextHandle)
    {directory : List (L × Handle)}
    (hdirectory : ∀ entry ∈ directory,
      entry ∈ d.directory ∨ entry.2 = handle ∧ job.chain? = none) :
    Orderly { d with agenda := a, directory } := by
  have hknown : Known { d with agenda := a, directory } := by
    refine h.extend (.submit hsubmit) hchain fun entry hentry ↦
      (hdirectory entry hentry).imp_right ?_
    rintro ⟨heq, -⟩
    rw [heq]
    exact Agenda.lt_nextHandle_of_submit hsubmit
  have hold {e : Entry (Commission L)} (he : e ∈ d.agenda.queue) (hlink : e.job.chain? ≠ none)
      (hhandle : handle = ⟨d.agenda.nextHandle⟩) (entry : L × Handle) (hentry : entry ∈ directory) :
      entry.2 ≠ e.handle := by
    rcases hdirectory entry hentry with hbefore | ⟨heq, -⟩
    · exact (h.unseen e he hlink).2 entry hbefore
    · rw [heq, hhandle]
      exact (h.handle_ne he).symm
  obtain ⟨hhandle, rfl | ⟨due, rfl⟩⟩ := Agenda.submit_eq_ok hsubmit
  · obtain ⟨cancelled, heq, hmem⟩ := d.agenda.freshHandle.2.cancel_eq handle
    rw [heq] at hknown ⊢
    refine ⟨hknown, fun e he hlink ↦ ⟨fun hcancelled ↦ ?_, hold he hlink hhandle⟩, h.ordered⟩
    rcases (hmem e.handle).mp hcancelled with hown | hbefore
    · exact h.handle_ne he (hown.trans hhandle)
    · exact (h.unseen e he hlink).1 hbefore
  · cases due with
    | none =>
      exact ⟨hknown, fun e he hlink ↦ ⟨(h.unseen e he hlink).1, hold he hlink hhandle⟩, h.ordered⟩
    | some due =>
      refine ⟨hknown, fun e he hlink ↦ ?_, h.ordered.insertEntry _⟩
      rcases List.mem_cons.mp ((Agenda.insertEntry_perm _ _).mem_iff.mp he) with rfl | hbefore
      · refine ⟨fun hcancelled ↦ Nat.lt_irrefl _ (h.cancelled _ hcancelled), ?_⟩
        intro entry hentry heq
        rcases hdirectory entry hentry with hnamed | ⟨-, honce⟩
        · have hgiven := h.directory entry hnamed
          rw [heq] at hgiven
          exact Nat.lt_irrefl _ hgiven
        · exact hlink honce
      · exact ⟨(h.unseen e hbefore hlink).1, hold hbefore hlink hhandle⟩

/-- An errand is submitted, and a label comes to stand for its handle. -/
theorem register (h : d.Orderly) {c : Commission L}
    (hsubmit : d.agenda.submit delay (.once c) = .ok (handle, a)) (label : L) :
    Orderly { d with agenda := a, directory := (label, handle) :: d.directory } := by
  refine h.submit hsubmit nofun fun entry hentry ↦ ?_
  rcases List.mem_cons.mp hentry with rfl | hold
  · exact .inr ⟨rfl, rfl⟩
  · exact .inl hold

/-- A chain goes on. -/
theorem arm (h : d.Orderly) {chain : Handle} {run : Nat} {c : Commission L}
    (harm : d.agenda.arm chain period run c = .ok a) (hchain : chain.id < d.agenda.nextHandle) :
    Orderly { d with agenda := a } := by
  rcases Agenda.arm_cases harm with rfl | ⟨handle, hsubmit⟩
  · exact h
  · exact h.submit hsubmit (fun _ heq ↦ Option.some.inj heq ▸ hchain) fun _ hentry ↦ .inl hentry

/-- An entry has its turn. -/
theorem take (h : d.Orderly) {target : Option Instant} {live : Bool} {e : Entry (Commission L)}
    (htake : d.agenda.take? target = some (live, e, a)) : Orderly (withAgenda d a) := by
  have hknown : Known (withAgenda d a) := h.toKnown.take htake
  obtain ⟨_, _, _, rest, hqueue, rfl⟩ := Agenda.take?_eq_some_iff.mp htake
  have hordered := h.ordered
  rw [hqueue] at hordered
  exact ⟨hknown, fun e' he' ↦ h.unseen e' (hqueue ▸ List.mem_cons_of_mem e he'),
    (List.pairwise_cons.mp hordered).2⟩

/-- A label's handle is cancelled, which is not the one under which a run of a chain waits. -/
theorem cancel [DecidableEq L] (h : d.Orderly) (hhandle : d.handle? label = some handle) :
    Orderly { d with agenda := d.agenda.cancel handle } := by
  have hknown := h.toKnown.cancel (h.of_handle? hhandle)
  obtain ⟨front, back, hdirectory, -⟩ := List.lookup_eq_some_iff.mp hhandle
  have hentry : (label, handle) ∈ d.directory :=
    hdirectory ▸ List.mem_append_right _ List.mem_cons_self
  obtain ⟨cancelled, heq, hmem⟩ := d.agenda.cancel_eq handle
  rw [heq] at hknown ⊢
  refine ⟨hknown, fun e he hlink ↦ ⟨fun hcancelled ↦ ?_, (h.unseen e he hlink).2⟩, h.ordered⟩
  rcases (hmem e.handle).mp hcancelled with hown | hbefore
  · exact (h.unseen e he hlink).2 _ hentry hown.symm
  · exact (h.unseen e he hlink).1 hbefore

/-- The desk is shut down. -/
theorem shutdown (h : d.Orderly) : Orderly { d with agenda := d.agenda.shutdown } :=
  ⟨⟨fun _ ⟨_, he, _⟩ ↦ absurd he List.not_mem_nil, h.cancelled, h.directory⟩,
    fun _ he ↦ absurd he List.not_mem_nil, List.Pairwise.nil⟩

end Orderly

variable [DecidableEq L] {reach : Instant → Prop}

private theorem keeps_orderly : Keeps reach fun _ (d : Desk L) ↦ d.Orderly where
  note _ h := ⟨⟨h.awaits, h.cancelled, h.directory⟩, h.unseen, h.ordered⟩
  submit {_ _ label _ _ _ _} h hsubmit := h.register hsubmit label
  begin {_ _ label _ _ _} h harm := (h.name label).arm harm (Nat.lt_succ_self _)
  cancel h hhandle := h.cancel hhandle
  stop h := h.shutdown
  skip h htake _ := h.take htake
  start {fuel history d target e a r d'} hinside h htake _ hperform := by
    refine perform_told [] hinside ?_ (h.take htake) hperform
    intro history chain period run c d₁ hjob honward h₁
    have hchain : chain.id < d₁.agenda.nextHandle := by
      have hconcerns : e.Concerns chain := .inr (congrArg Job.chain? hjob)
      have hgiven := h.awaits chain (Agenda.awaits_of_take htake hconcerns)
      have hlater := ((Agenda.Onward.take htake).trans honward).nextHandle
      omega
    cases harm : d₁.agenda.arm chain period (run + 1) c with
    | error abort => exact h₁
    | ok a => exact h₁.arm harm hchain
  moving h := h
  shift _ h _ _ := ⟨⟨h.awaits, h.cancelled, h.directory⟩, h.unseen, h.ordered⟩
  fail h _ := h

/-- A desk stays orderly in every run. -/
theorem Orderly.play {d d' : Desk L} (h : d.Orderly) {fuel : Nat} {actions : List (Action L)}
    {responses : List Response} (hplay : Desk.play fuel actions d = some (responses, d')) :
    d'.Orderly :=
  (keeps_orderly : Keeps (fun _ ↦ True) _).play [] (fun _ ↦ trivial)
    (fun _ _ _ h _ _ ↦ ⟨⟨h.awaits, h.cancelled, h.directory⟩, h.unseen, h.ordered⟩) h hplay

/-- Nothing on the desk is concerned with a handle that was given out, and nothing that is noted. -/
structure Lacks (handle : Handle) (history : List (Incident L)) (d : Desk L) : Prop where
  given : handle.id < d.agenda.nextHandle
  awaits : ¬ d.agenda.Awaits handle
  history : ∀ x ∈ history, ¬ x.Concerns handle

namespace Lacks

variable {handle : Handle} {history more : List (Incident L)} {d d' : Desk L}
  {a : Agenda (Commission L)}

omit [DecidableEq L] in
private theorem append (h : Lacks handle history d)
    (hgiven : d.agenda.nextHandle ≤ d'.agenda.nextHandle)
    (hawaits : d'.agenda.Awaits handle → d.agenda.Awaits handle)
    (hmore : ∀ x ∈ more, ¬ x.Concerns handle) : Lacks handle (history ++ more) d' := by
  refine ⟨Nat.lt_of_lt_of_le h.given hgiven, fun hd' ↦ h.awaits (hawaits hd'), fun x hx ↦ ?_⟩
  rcases List.mem_append.mp hx with hold | hnew
  · exact h.history x hold
  · exact hmore x hnew

omit [DecidableEq L] in
private theorem extend (h : Lacks handle history d) {chain : Option Handle}
    (hgains : Agenda.Gains chain d.agenda a) (hchain : chain ≠ some handle)
    (hmore : ∀ x ∈ more, ¬ x.Concerns handle) {directory : List (L × Handle)} :
    Lacks handle (history ++ more) { d with agenda := a, directory } := by
  refine h.append hgains.nextHandle (fun hawaits ↦ ?_) hmore
  rcases hgains.awaits handle hawaits with hold | hown | ⟨hlow, -⟩
  · exact hold
  · exact absurd hown hchain
  · exact absurd h.given (Nat.not_lt.mpr hlow)

omit [DecidableEq L] in
private theorem not_concerns (h : Lacks handle history d) {target : Option Instant} {live : Bool}
    {e : Entry (Commission L)} (htake : d.agenda.take? target = some (live, e, a)) :
    ¬ e.Concerns handle :=
  fun he ↦ h.awaits (Agenda.awaits_of_take htake he)

omit [DecidableEq L] in
private theorem take (h : Lacks handle history d) {target : Option Instant} {live : Bool}
    {e : Entry (Commission L)} (htake : d.agenda.take? target = some (live, e, a))
    (hmore : ∀ x ∈ more, x.Concerns handle → e.Concerns handle) :
    Lacks handle (history ++ more) (withAgenda d a) :=
  h.append (Agenda.Onward.take htake).nextHandle (fun hawaits ↦ hawaits.of_take htake)
    fun x hx hconcerns ↦ h.not_concerns htake (hmore x hx hconcerns)

end Lacks

/-- A handle that is done with never comes back. -/
theorem keeps_lacks (handle : Handle) : Keeps reach (Lacks (L := L) handle) where
  note _ h := ⟨h.given, h.awaits, h.history⟩
  submit h hsubmit :=
    h.extend (.submit hsubmit) nofun fun _ hx ↦
      (Agenda.isFiling_of_mem_submission hx).not_concerns
  begin h harm :=
    h.extend (.begin harm) nofun fun _ hx ↦ (Agenda.isFiling_of_mem_resumption hx).not_concerns
  cancel {history d label other} h hhandle := by
    obtain ⟨cancelled, heq, -⟩ := d.agenda.cancel_eq other
    rw [heq]
    exact h.append (Nat.le_refl _) id (by simp [Incident.Concerns])
  stop h := h.append (Nat.le_refl _) (fun ⟨_, he, _⟩ ↦ absurd he List.not_mem_nil)
    (by simp [Incident.Concerns])
  skip h htake _ := h.take htake (by simp [Incident.Concerns])
  start {fuel history d target e a r d'} hinside h htake _ hperform := by
    have hturn (x : Incident L)
        (hx : x ∈ Incident.occurred (.started e a.clock.elapsed) :: e.job.notice a)
        (hconcerns : x.Concerns handle) : e.Concerns handle := by
      rcases List.mem_cons.mp hx with rfl | hx
      · exact hconcerns
      · exact .inr (Incident.chain?_of_mem_notice hx hconcerns)
    refine perform_told _ hinside ?_ (h.take htake hturn) hperform
    intro history chain period run c d₁ hjob _ h₁
    have hchain : chain ≠ handle := by
      rintro rfl
      exact h.not_concerns htake (.inr (congrArg Job.chain? hjob))
    cases harm : d₁.agenda.arm chain period (run + 1) c with
    | error abort => exact h₁.append (Nat.le_refl _) id (by simp [Incident.Concerns, hchain])
    | ok a =>
      refine h₁.extend (.arm harm) (fun heq ↦ hchain (Option.some.inj heq)) fun x hx ↦ ?_
      rcases List.mem_cons.mp hx with rfl | hx
      · exact hchain
      · exact (Agenda.isFiling_of_mem_resumption hx).not_concerns
  moving h := h.append (Nat.le_refl _) id (by simp [Incident.Concerns])
  shift _ h _ _ := ⟨h.given, h.awaits, h.history⟩
  fail h _ := h.append (Nat.le_refl _) id (by simp [Incident.Concerns])

end Desk

end Caching
