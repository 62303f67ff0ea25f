import Caching.Proofs.Worker.Stopping

/-!
# What befalls workers

Whatever may befall the workers of a process, in whatever order: workers are hired, shared, copied,
let go of and shut down, assignments are given to them and cancelled, and the machine starts and
ends runs. Each event first changes a little of the pool, and then some workers are stopped by it.
What can come of one event is said once, and all else follows from that.
-/

namespace Caching

/-- A runtime is started for the worker. -/
def Origin.needsStart : Origin → Bool
  | .dedicated => true
  | .borrowed _ => false

namespace Pool

/-- Something that befalls the workers of a process. -/
inductive Event where
  /-- Somebody hires a worker. That fails if the machine has to start a runtime and cannot. -/
  | hire (holder name : String) (origin : Origin) (place : Place) (canStart : Bool)
  /-- Somebody asks for the shared worker. That fails if the machine has to start a runtime and
  cannot. -/
  | share (holder : String) (place : Place) (canStart : Bool)
  | copy (holder other : String) (place : Place)
  | letGo (holder : String) (place : Place)
  | shutdown (holder : String) (place : Place)
  | schedule (holder label : String) (delay : Duration)
  | scheduleRepeating (holder label : String) (repetition : Repetition)
  | cancel (label : String)
  /-- The machine starts an assignment. -/
  | start (k : Nat)
  /-- A run of an assignment ends. -/
  | finish (k : Nat)
  /-- Time passes. -/
  | pass (nanos : Nat)

/-- What an event makes of the pool. -/
def step (p : Pool) : Event → Pool
  | .hire holder name origin place canStart =>
    if origin.needsStart && !canStart then p else p.hire holder name origin place
  | .share holder place canStart =>
    if p.shared?.isNone && !canStart then p else p.share holder place
  | .copy holder other place => p.copy holder other place
  | .letGo holder place => (p.letGo holder place).2
  | .shutdown holder place => p.shutdown holder place
  | .schedule holder label delay => p.schedule holder label delay
  | .scheduleRepeating holder label repetition => p.scheduleRepeating holder label repetition
  | .cancel label => p.cancel label
  | .start k => p.start k
  | .finish k => p.finish k
  | .pass nanos => { p with now := p.now + nanos }

/-- What a course of events makes of the pool. -/
def run (p : Pool) (events : List Event) : Pool :=
  events.foldl step p

variable {p q r : Pool} {e : Event} {i k : Nat}

/-- By the event, the worker with the number is made, and a runtime is started for it. -/
def Founds (p : Pool) (e : Event) (i : Nat) : Prop :=
  p.workers.length = i ∧
    ((∃ holder name place, e = .hire holder name .dedicated place true) ∨
      p.shared? = none ∧ ∃ holder place, e = .share holder place true)

/-- By the event, somebody who holds the worker shuts it down. -/
def Shuts (p : Pool) (e : Event) (i : Nat) : Prop :=
  ∃ holder place, e = .shutdown holder place ∧ p.holders.lookup holder = some i

/-- By the event, the assignment is cancelled. -/
def Cancels (p : Pool) (e : Event) (k : Nat) : Prop :=
  ∃ label, e = .cancel label ∧ p.labels.lookup label = some k

/-- By the event, a run of the assignment is started, at a moment at which it may be. -/
def Starts (p : Pool) (e : Event) (k : Nat) (a : Assignment) : Prop :=
  e = .start k ∧ p.mayRun a = true ∧ ∃ due, a.due = some due ∧ due ≤ p.now

/-- What an event may make of an assignment. -/
structure Passes (p : Pool) (e : Event) (k : Nat) (a b : Assignment) : Prop where
  worker : b.worker = a.worker
  cancelled : b.cancelled = true ↔ a.cancelled = true ∨ p.Cancels e k
  runs : b.runs = a.runs ∨ p.Starts e k a ∧ b.runs = a.runs + 1

/-- What an event leaves as it is in any case. -/
structure Keeps (p : Pool) (e : Event) (q : Pool) : Prop where
  shared : ∀ i, p.shared? = some i → q.shared? = some i
  /-- Who has nobody left does not find anybody again. -/
  held : ∀ i, i < p.workers.length → q.isHeld i = true → p.isHeld i = true
  assignments : ∀ (k : Nat) (a : Assignment), p.assignments[k]? = some a →
    ∃ b, q.assignments[k]? = some b ∧ p.Passes e k a b
  added : ∀ (k : Nat) (b : Assignment), q.assignments[k]? = some b → p.assignments.length ≤ k →
    b.runs = 0

/-- The second pool is what an event makes of the first one before workers are stopped by it. -/
structure Prepares (p : Pool) (e : Event) (q : Pool) : Prop extends Keeps p e q where
  sound : q.Sound
  workers : ∀ (i : Nat) (w : Worker), p.workers[i]? = some w → q.workers[i]? = some w
  hired : ∀ (i : Nat) (w : Worker), q.workers[i]? = some w → p.workers.length ≤ i →
    i = p.workers.length ∧ w.stopped = false ∧ (w.handle = .started i ↔ p.Founds e i)

/-- The second pool is what an event makes of the first one. -/
structure Unfolds (p : Pool) (e : Event) (q : Pool) : Prop extends Keeps p e q where
  tidy : q.Tidy
  /-- A worker is stopped only by whoever shuts it down, or because nobody holds it any more. -/
  workers : ∀ (i : Nat) (w : Worker), p.workers[i]? = some w → q.workers[i]? = some w ∨
    q.workers[i]? = some w.retired ∧ (p.Shuts e i ∧ w.isProcessWide = false ∨ q.isHeld i = false)
  hired : ∀ (i : Nat) (w : Worker), q.workers[i]? = some w → p.workers.length ≤ i →
    i = p.workers.length ∧ (w.stopped = true → q.isHeld i = false) ∧
      (w.handle = .started i ↔ p.Founds e i)

private theorem Passes.of_eq {a b : Assignment} (hcancel : ¬p.Cancels e k)
    (hworker : b.worker = a.worker)
    (hcancelled : b.cancelled = a.cancelled) (hruns : b.runs = a.runs) : p.Passes e k a b :=
  ⟨hworker, by simp [hcancelled, hcancel], .inl hruns⟩

private theorem Passes.dropped {a b : Assignment} (h : p.Passes e k a b) :
    p.Passes e k a b.dropped :=
  ⟨h.worker, h.cancelled, h.runs⟩

/-- Whoever is held exists. -/
theorem Sound.lt_of_lookup {holder : String} (hp : p.Sound)
    (h : p.holders.lookup holder = some i) : i < p.workers.length := by
  obtain ⟨front, back, hholders, -⟩ := List.lookup_eq_some_iff.mp h
  exact hp.holders (holder, i) (by simp [hholders])

/-- Whatever somebody calls by a label exists. -/
theorem Sound.lt_of_label {label : String} (hp : p.Sound) (h : p.labels.lookup label = some k) :
    k < p.assignments.length := by
  obtain ⟨front, back, hlabels, -⟩ := List.lookup_eq_some_iff.mp h
  exact hp.labels (label, k) (by simp [hlabels])

private theorem Keeps.ends (h : Keeps p e q) (h' : Ends gone q r) : Keeps p e r where
  shared i hi := h'.shared.trans (h.shared i hi)
  held i hi hheld := h.held i hi (h'.isHeld_of hheld)
  assignments k a ha := by
    obtain ⟨b, hb, hpasses⟩ := h.assignments k a ha
    rcases h'.assignments k b hb with hk | ⟨-, hk⟩
    · exact ⟨b, hk, hpasses⟩
    · exact ⟨b.dropped, hk, hpasses.dropped⟩
  added k c hc hlt := by
    obtain ⟨b, hb, rfl | ⟨-, rfl⟩⟩ := h'.of_assignment hc
    · exact h.added k c hb hlt
    · exact h.added k b hb hlt

/-- At the end of an event only such workers are stopped as nobody holds, or as were shut down, the
shared one excepted. -/
theorem Prepares.unfolds (h : Prepares p e q) (hp : p.Sound) (h' : Ends gone q r)
    (hgone : ∀ i ∈ gone, q.isHeld i = false ∨ p.Shuts e i ∧ q.shared? ≠ some i)
    (hr : r.Tidy) : Unfolds p e r where
  toKeeps := h.toKeeps.ends h'
  tidy := hr
  workers i w hw := by
    by_cases hi : i ∈ gone
    · have hq := h.workers i w hw
      refine .inr ⟨by simp [h'.worker, hq, hi], ?_⟩
      rcases hgone i hi with hheld | ⟨hshuts, hne⟩
      · exact .inr (h'.isHeld_eq_false hheld)
      · refine .inl ⟨hshuts, Bool.eq_false_iff.mpr fun hwide ↦ ?_⟩
        exact hne ((h.sound.processWide i w hq).mp hwide)
    · rw [h'.worker_of_notMem hi]
      exact .inl (h.workers i w hw)
  hired i w hw hlt := by
    rw [h'.worker, Option.map_eq_some_iff] at hw
    obtain ⟨w₀, hw₀, rfl⟩ := hw
    obtain ⟨hi, hfresh, hfounds⟩ := h.hired i w₀ hw₀ hlt
    refine ⟨hi, fun hstopped ↦ ?_, by rw [← hfounds]; split <;> rfl⟩
    have hmem : i ∈ gone := by
      by_contra hmem
      simp [hmem, hfresh] at hstopped
    rcases hgone i hmem with hheld | ⟨⟨holder, place, -, hlookup⟩, -⟩
    · exact h'.isHeld_eq_false hheld
    · exact absurd (hp.lt_of_lookup hlookup) (by omega)

/-! ### What an event changes at first -/

private theorem Tidy.prepares_setHolders (hp : p.Tidy) (hcancel : ∀ k, ¬p.Cancels e k) {now : Nat}
    {holders : List (String × Nat)} {log : List LogEntry}
    (hheld : ∀ h ∈ holders, h.2 < p.workers.length ∧ p.isHeld h.2 = true)
    (hnodup : (holders.map Prod.fst).Nodup) :
    Prepares p e { p with now, holders, log } where
  sound := { hp with holders := fun h hh ↦ (hheld h hh).1, nodup := hnodup }
  workers i w hw := hw
  hired i w hw hlt := absurd (List.getElem?_eq_some_iff.mp hw).1 (by simpa using hlt)
  shared i hi := hi
  held i hi hh := by
    rw [isHeld_iff] at hh
    rcases hh with hh | ⟨h, hmem, rfl⟩ | hh
    · exact isHeld_iff.mpr (.inl hh)
    · exact (hheld h hmem).2
    · exact isHeld_iff.mpr (.inr (.inr hh))
  assignments k a ha := ⟨a, ha, .of_eq (hcancel k) rfl rfl rfl⟩
  added k b hb hlt := absurd (List.getElem?_eq_some_iff.mp hb).1 (by simpa using hlt)

private theorem getElem?_concat_eq_some {α : Type} {l : List α} {x y : α}
    (h : (l ++ [x])[i]? = some y) : l[i]? = some y ∨ i = l.length ∧ y = x := by
  rcases Nat.lt_or_ge i l.length with hlt | hge
  · exact .inl (List.getElem?_append_left hlt ▸ h)
  · rw [List.getElem?_append_right hge, List.getElem?_singleton] at h
    split at h
    · exact .inr ⟨by omega, (Option.some.inj h).symm⟩
    · cases h

private theorem getElem?_append_of_eq_some {α : Type} {l l' : List α} {x : α} (h : l[i]? = some x) :
    (l ++ l')[i]? = some x :=
  (List.getElem?_append_left (List.getElem?_eq_some_iff.mp h).1).trans h

/-- The holders once somebody has let go of a worker. -/
theorem Sound.nodup_filter (hp : p.Sound) (holder : String) :
    ((p.holders.filter fun h ↦ h.1 != holder).map Prod.fst).Nodup :=
  hp.nodup.sublist (List.filter_sublist.map _)

private theorem Sound.nodup_cons_filter (hp : p.Sound) (holder : String) (i : Nat) :
    (((holder, i) :: p.holders.filter fun h ↦ h.1 != holder).map Prod.fst).Nodup := by
  rw [List.map_cons, List.nodup_cons]
  exact ⟨by simp, hp.nodup_filter holder⟩

private theorem Sound.concat (hp : p.Sound) {w : Worker} {shared? : Option Nat}
    (hmade : w.IsMade p.workers.length) (hfresh : w.stopped = false)
    (hshared : shared? = p.shared? ∧ w.isProcessWide = false ∨
      p.shared? = none ∧ shared? = some p.workers.length ∧ w.isProcessWide = true) :
    Sound { p with workers := p.workers ++ [w], shared? } where
  made i w' hw := by
    rcases getElem?_concat_eq_some hw with hw | ⟨rfl, rfl⟩
    · exact hp.made i w' hw
    · exact hmade
  processWide i w' hw := by
    rcases getElem?_concat_eq_some hw with hw | ⟨rfl, rfl⟩
    · have hlt := (List.getElem?_eq_some_iff.mp hw).1
      rw [hp.processWide i w' hw]
      rcases hshared with ⟨rfl, -⟩ | ⟨hnone, rfl, -⟩
      · rfl
      · simp [hnone, Nat.ne_of_gt hlt]
    · rcases hshared with ⟨rfl, hwide⟩ | ⟨-, rfl, hwide⟩
      · simp only [hwide, Bool.false_eq_true, false_iff]
        intro hi
        obtain ⟨w, hw, -⟩ := hp.shared _ hi
        simp at hw
      · simp [hwide]
  shared i hi := by
    rcases hshared with ⟨rfl, -⟩ | ⟨-, rfl, -⟩
    · obtain ⟨w', hw, hstopped⟩ := hp.shared i hi
      exact ⟨w', getElem?_append_of_eq_some hw, hstopped⟩
    · cases hi
      exact ⟨w, by simp, hfresh⟩
  holders h hh := by
    have := hp.holders h hh
    simp only [List.length_append, List.length_singleton]
    omega
  nodup := hp.nodup
  labels := hp.labels
  served a ha := by
    obtain ⟨w', hw, hhandle⟩ := hp.served a ha
    exact ⟨w', getElem?_append_of_eq_some hw, hhandle⟩
  halted h hh := by
    obtain ⟨hblocking, i, w', hw, hstopped⟩ := hp.halted h hh
    exact ⟨hblocking, i, w', getElem?_append_of_eq_some hw, hstopped⟩
  halts i w' hw hhandle hstopped := by
    rcases getElem?_concat_eq_some hw with hw | ⟨-, rfl⟩
    · exact hp.halts i w' hw hhandle hstopped
    · simp [hfresh] at hstopped

/-- The same once somebody was given the worker. -/
theorem Sound.enlist (hp : p.Sound) {w : Worker} {shared? : Option Nat} {log : List LogEntry}
    (holder : String) (hmade : w.IsMade p.workers.length) (hfresh : w.stopped = false)
    (hshared : shared? = p.shared? ∧ w.isProcessWide = false ∨
      p.shared? = none ∧ shared? = some p.workers.length ∧ w.isProcessWide = true) :
    Sound { p with
      workers := p.workers ++ [w]
      shared?
      holders := (holder, p.workers.length) :: p.holders.filter fun h ↦ h.1 != holder
      log } :=
  { hp.concat hmade hfresh hshared with
    holders := fun h hh ↦ by
      rw [List.length_append, List.length_singleton]
      rcases List.mem_cons.mp hh with rfl | hh
      · exact Nat.lt_succ_self _
      · exact Nat.lt_succ_of_lt (hp.holders h (List.mem_filter.mp hh).1)
    nodup := hp.nodup_cons_filter holder _ }

private theorem Tidy.prepares_enlist (hp : p.Tidy) (hcancel : ∀ k, ¬p.Cancels e k) {w : Worker}
    {holder : String} {shared? : Option Nat} {log : List LogEntry}
    (hmade : w.IsMade p.workers.length) (hfresh : w.stopped = false)
    (hfounds : w.handle = .started p.workers.length ↔ p.Founds e p.workers.length)
    (hshared : shared? = p.shared? ∧ w.isProcessWide = false ∨
      p.shared? = none ∧ shared? = some p.workers.length ∧ w.isProcessWide = true) :
    Prepares p e { p with
      workers := p.workers ++ [w]
      shared?
      holders := (holder, p.workers.length) :: p.holders.filter fun h ↦ h.1 != holder
      log } where
  sound := hp.toSound.enlist holder hmade hfresh hshared
  workers i w' hw := getElem?_append_of_eq_some hw
  hired i w' hw hlt := by
    rcases getElem?_concat_eq_some hw with hw | ⟨rfl, rfl⟩
    · exact absurd (List.getElem?_eq_some_iff.mp hw).1 (by omega)
    · exact ⟨rfl, hfresh, hfounds⟩
  shared i hi := by
    rcases hshared with ⟨rfl, -⟩ | ⟨hnone, -⟩
    · exact hi
    · simp [hnone] at hi
  held i hi hh := by
    rw [isHeld_iff] at hh ⊢
    rcases hh with hh | ⟨h, hmem, rfl⟩ | hh
    · rcases hshared with ⟨rfl, -⟩ | ⟨-, rfl, -⟩
      · exact .inl hh
      · exact absurd (Option.some.inj hh) (Nat.ne_of_gt hi)
    · rcases List.mem_cons.mp hmem with rfl | hmem
      · exact absurd hi (Nat.lt_irrefl _)
      · exact .inr (.inl ⟨h, (List.mem_filter.mp hmem).1, rfl⟩)
    · exact .inr (.inr hh)
  assignments k a ha := ⟨a, ha, .of_eq (hcancel k) rfl rfl rfl⟩
  added k b hb hlt := absurd (List.getElem?_eq_some_iff.mp hb).1 (by simpa using hlt)

private theorem Tidy.prepares_setAssignments (hp : p.Tidy) {assignments : List Assignment}
    {labels : List (String × Nat)}
    (hserved : ∀ b ∈ assignments, (∃ w : Worker, p.workers[b.worker]? = some w ∧
      w.handle = b.handle) ∧ (b.isAlive = true → p.isHeld b.worker = true))
    (hlabels : ∀ l ∈ labels, l.2 < assignments.length)
    (hpasses : ∀ (k : Nat) (a : Assignment), p.assignments[k]? = some a →
      ∃ b, assignments[k]? = some b ∧ p.Passes e k a b)
    (hadded : ∀ (k : Nat) (b : Assignment), assignments[k]? = some b →
      p.assignments.length ≤ k → b.runs = 0) :
    Prepares p e { p with assignments, labels } where
  sound := { hp with labels := hlabels, served := fun b hb ↦ (hserved b hb).1 }
  workers i w hw := hw
  hired i w hw hlt := absurd (List.getElem?_eq_some_iff.mp hw).1 (by simpa using hlt)
  shared i hi := hi
  held i hi hh := by
    rw [isHeld_iff] at hh
    rcases hh with hh | hh | ⟨k, b, hb, rfl, halive⟩
    · exact isHeld_iff.mpr (.inl hh)
    · exact isHeld_iff.mpr (.inr (.inl hh))
    · exact (hserved b (List.mem_of_getElem? hb)).2 halive
  assignments := hpasses
  added := hadded

private theorem isHeld_of_isAlive {a : Assignment} (ha : p.assignments[k]? = some a)
    (halive : a.isAlive = true) : p.isHeld a.worker = true :=
  isHeld_iff.mpr (.inr (.inr ⟨k, a, ha, rfl, halive⟩))

private theorem Tidy.prepares_add (hp : p.Tidy) (hcancel : ∀ k, ¬p.Cancels e k) (label : String)
    {b : Assignment} (hserved : ∃ w : Worker, p.workers[b.worker]? = some w ∧ w.handle = b.handle)
    (halive : b.isAlive = true → p.isHeld b.worker = true) (hruns : b.runs = 0) :
    Prepares p e (p.add label b) := by
  refine hp.prepares_setAssignments (fun c hc ↦ ?_) (fun l hl ↦ ?_) (fun k a ha ↦ ?_)
    fun k c hc hlt ↦ ?_
  · obtain ⟨k, hk⟩ := List.mem_iff_getElem?.mp hc
    rcases getElem?_concat_eq_some hk with hk | ⟨-, rfl⟩
    · exact ⟨hp.served c (List.mem_of_getElem? hk), isHeld_of_isAlive hk⟩
    · exact ⟨hserved, halive⟩
  · rw [List.length_append, List.length_singleton]
    rcases List.mem_cons.mp hl with rfl | hl
    · exact Nat.lt_succ_self _
    · exact Nat.lt_succ_of_lt (hp.labels l hl)
  · exact ⟨a, getElem?_append_of_eq_some ha, .of_eq (hcancel k) rfl rfl rfl⟩
  · rcases getElem?_concat_eq_some hc with hk | ⟨-, rfl⟩
    · exact absurd (List.getElem?_eq_some_iff.mp hk).1 (by omega)
    · exact hruns

private theorem Tidy.prepares_setAssignment (hp : p.Tidy) {a b : Assignment}
    (ha : p.assignments[k]? = some a) (hcancel : ∀ j, p.Cancels e j → j = k)
    (hpasses : p.Passes e k a b) (hhandle : b.handle = a.handle)
    (halive : b.isAlive = true → a.isAlive = true) : Prepares p e (p.setAssignment k b) := by
  have hlt := (List.getElem?_eq_some_iff.mp ha).1
  change Prepares p e { p with assignments := p.assignments.set k b, labels := p.labels }
  refine hp.prepares_setAssignments (fun c hc ↦ ?_) (fun l hl ↦ ?_)
    (fun j c hc ↦ ?_) fun j c hc hge ↦ ?_
  · rcases List.mem_or_eq_of_mem_set hc with hc | rfl
    · obtain ⟨j, hj⟩ := List.mem_iff_getElem?.mp hc
      exact ⟨hp.served c hc, isHeld_of_isAlive hj⟩
    · rw [hhandle, hpasses.worker]
      exact ⟨hp.served a (List.mem_of_getElem? ha), fun h ↦ isHeld_of_isAlive ha (halive h)⟩
  · rw [List.length_set]
    exact hp.labels l hl
  · by_cases hj : j = k
    · subst hj
      cases ha.symm.trans hc
      exact ⟨b, by simp [hlt], hpasses⟩
    · exact ⟨c, by simp [Ne.symm hj, hc], .of_eq (fun h ↦ hj (hcancel j h)) rfl rfl rfl⟩
  · have := (List.getElem?_eq_some_iff.mp hc).1
    rw [List.length_set] at this
    omega

/-! ### One event -/

private theorem Sound.holders_held (hp : p.Sound) (h : String × Nat) (hh : h ∈ p.holders) :
    h.2 < p.workers.length ∧ p.isHeld h.2 = true :=
  ⟨hp.holders h hh, isHeld_iff.mpr (.inr (.inl ⟨h, hh, rfl⟩))⟩

private theorem Prepares.unfolds_of_forsaken (h : Prepares p e q) (hp : p.Sound)
    (h' : Ends q.forsaken q r) : Unfolds p e r :=
  h.unfolds hp h' (fun _ hi ↦ .inl (mem_forsaken.mp hi).2) (h'.tidy_of_forsaken h.sound)

private theorem Prepares.unfolds_dismiss (h : Prepares p e q) (hp : p.Sound) :
    Unfolds p e (q.dismiss place) :=
  h.unfolds_of_forsaken hp (h.sound.dismiss_ends place)

private theorem Prepares.unfolds_dismissQuietly (h : Prepares p e q) (hp : p.Sound) :
    Unfolds p e q.dismissQuietly :=
  h.unfolds_of_forsaken hp h.sound.dismissQuietly_ends

/-- At the end, there is nothing to be stopped: nobody was hired, and no worker has lost who holds
it. -/
theorem Prepares.unfolds_of_held (h : Prepares p e q) (hp : p.Tidy)
    (hworkers : q.workers = p.workers) (hheld : ∀ i, p.isHeld i = true → q.isHeld i = true) :
    Unfolds p e q := by
  refine h.unfolds hp.toSound (.refl q) (by simp) ⟨h.sound, fun i w hw hstopped ↦ ?_⟩
  rw [hworkers] at hw
  exact hheld i (hp.held i w hw hstopped)

/-- Whom somebody holds. -/
theorem worker?_eq_some {holder : String} {w : Worker} :
    p.worker? holder = some (i, w) ↔ p.holders.lookup holder = some i ∧ p.workers[i]? = some w := by
  simp only [worker?, Option.bind_eq_some_iff, Option.map_eq_some_iff, Prod.mk.injEq]
  exact ⟨fun ⟨_, hj, _, hw, hi, hw'⟩ ↦ by subst hi hw'; exact ⟨hj, hw⟩,
    fun ⟨hi, hw⟩ ↦ ⟨i, hi, w, hw, rfl, rfl⟩⟩

/-- Somebody who has a worker holds it. -/
theorem isHeld_of_lookup {holder : String} (h : p.holders.lookup holder = some i) :
    p.isHeld i = true := by
  obtain ⟨front, back, hholders, -⟩ := List.lookup_eq_some_iff.mp h
  exact isHeld_iff.mpr (.inr (.inl ⟨(holder, i), by simp [hholders], rfl⟩))

private theorem not_cancels (he : ∀ label, e ≠ .cancel label) (k : Nat) : ¬p.Cancels e k := by
  rintro ⟨label, rfl, -⟩
  exact he label rfl

private theorem Tidy.unfolds_setTime (hp : p.Tidy) (hcancel : ∀ k, ¬p.Cancels e k) {now : Nat}
    {log : List LogEntry} : Unfolds p e { p with now, log } :=
  (hp.prepares_setHolders hcancel hp.holders_held hp.nodup).unfolds_of_held hp rfl fun _ hi ↦ hi

private theorem Tidy.unfolds_self (hp : p.Tidy) (hcancel : ∀ k, ¬p.Cancels e k) : Unfolds p e p :=
  hp.unfolds_setTime hcancel

private theorem Tidy.unfolds_hold (hp : p.Tidy) (hcancel : ∀ k, ¬p.Cancels e k) (holder : String)
    (hlt : i < p.workers.length) (hheld : p.isHeld i = true) :
    Unfolds p e (p.hold place holder i) := by
  refine (hp.prepares_setHolders hcancel (fun h hh ↦ ?_)
    (hp.nodup_cons_filter holder i)).unfolds_dismiss hp.toSound
  rcases List.mem_cons.mp hh with rfl | hh
  · exact ⟨hlt, hheld⟩
  · exact hp.holders_held h (List.mem_filter.mp hh).1

private theorem Tidy.unfolds_hire (hp : p.Tidy) (holder name : String) (origin : Origin)
    (canStart : Bool) : Unfolds p (.hire holder name origin place canStart)
      (p.step (.hire holder name origin place canStart)) := by
  have hcancel (k : Nat) : ¬p.Cancels (.hire holder name origin place canStart) k :=
    not_cancels (by simp) k
  rw [step]
  split
  · exact hp.unfolds_self hcancel
  · next hstart =>
    cases origin with
    | dedicated =>
      have hfounds : p.Founds (.hire holder name .dedicated place canStart) p.workers.length :=
        ⟨rfl, .inl ⟨holder, name, place, by simpa [Origin.needsStart] using hstart⟩⟩
      exact (hp.prepares_enlist hcancel (.started rfl rfl) rfl (iff_of_true rfl hfounds)
        (.inl ⟨rfl, rfl⟩)).unfolds_dismiss hp.toSound
    | borrowed host =>
      refine (hp.prepares_enlist hcancel (.borrowing host rfl rfl rfl) rfl (iff_of_false ?_ ?_)
        (.inl ⟨rfl, rfl⟩)).unfolds_dismiss hp.toSound
      · simp [Worker.borrowing]
      · simp [Founds]

private theorem Tidy.unfolds_share (hp : p.Tidy) (holder : String) (canStart : Bool) :
    Unfolds p (.share holder place canStart) (p.step (.share holder place canStart)) := by
  have hcancel (k : Nat) : ¬p.Cancels (.share holder place canStart) k := not_cancels (by simp) k
  rw [step]
  split
  · exact hp.unfolds_self hcancel
  · next hstart =>
    rw [share, Pool.shared]
    cases hshared : p.shared? with
    | some i =>
      obtain ⟨w, hw, -⟩ := hp.shared i hshared
      exact hp.unfolds_hold hcancel holder (List.getElem?_eq_some_iff.mp hw).1
        (isHeld_iff.mpr (.inl hshared))
    | none =>
      have hfounds : p.Founds (.share holder place canStart) p.workers.length :=
        ⟨rfl, .inr ⟨hshared, holder, place, by simpa [hshared] using hstart⟩⟩
      exact (hp.prepares_enlist hcancel (.started rfl rfl) rfl (iff_of_true rfl hfounds)
        (.inr ⟨hshared, rfl, rfl⟩)).unfolds_dismiss hp.toSound

private theorem Tidy.unfolds_copy (hp : p.Tidy) (holder other : String) :
    Unfolds p (.copy holder other place) (p.copy holder other place) := by
  have hcancel (k : Nat) : ¬p.Cancels (.copy holder other place) k := not_cancels (by simp) k
  rw [copy]
  cases hlookup : p.holders.lookup holder with
  | none => exact hp.unfolds_self hcancel
  | some i =>
    exact hp.unfolds_hold hcancel other (hp.lt_of_lookup hlookup) (isHeld_of_lookup hlookup)

private theorem Tidy.unfolds_letGo (hp : p.Tidy) (holder : String) :
    Unfolds p (.letGo holder place) (p.letGo holder place).2 :=
  (hp.prepares_setHolders (not_cancels (by simp))
    (fun h hh ↦ hp.holders_held h (List.mem_filter.mp hh).1)
    (hp.nodup_filter holder)).unfolds_dismiss hp.toSound

private theorem Tidy.unfolds_shutdown (hp : p.Tidy) (holder : String) :
    Unfolds p (.shutdown holder place) (p.shutdown holder place) := by
  have hprepares : Prepares p (.shutdown holder place) p :=
    hp.prepares_setHolders (not_cancels (by simp)) hp.holders_held hp.nodup
  rw [shutdown]
  split
  · exact hp.unfolds_self (not_cancels (by simp))
  · next i w hworker =>
    obtain ⟨hlookup, hw⟩ := worker?_eq_some.mp hworker
    split
    · exact hp.unfolds_setTime (not_cancels (by simp))
    · next hwide =>
      split
      · exact hp.unfolds_self (not_cancels (by simp))
      · have hne : p.shared? ≠ some i := fun hi ↦ hwide ((hp.processWide i w hw).mpr hi)
        have hends := hp.toSound.stop_ends place (hp.lt_of_lookup hlookup)
        refine hprepares.unfolds hp.toSound hends ?_ (hends.tidy hp (by simpa using hne))
        simpa using .inr ⟨⟨holder, place, rfl, hlookup⟩, hne⟩

private theorem Tidy.unfolds_add (hp : p.Tidy) (hcancel : ∀ k, ¬p.Cancels e k) (label : String)
    {b : Assignment} (hserved : ∃ w : Worker, p.workers[b.worker]? = some w ∧ w.handle = b.handle)
    (halive : b.isAlive = true → p.isHeld b.worker = true) (hruns : b.runs = 0) :
    Unfolds p e (p.add label b) := by
  refine (hp.prepares_add hcancel label hserved halive hruns).unfolds_of_held hp rfl fun i hi ↦ ?_
  rw [isHeld_iff] at hi ⊢
  refine hi.imp_right (Or.imp_right ?_)
  rintro ⟨k, a, ha, hworker, halive⟩
  exact ⟨k, a, getElem?_append_of_eq_some ha, hworker, halive⟩

private theorem Tidy.unfolds_schedule (hp : p.Tidy) (holder label : String) (delay : Duration) :
    Unfolds p (.schedule holder label delay) (p.schedule holder label delay) := by
  rw [schedule]
  split
  · exact hp.unfolds_self (not_cancels (by simp))
  · next i w hworker =>
    obtain ⟨-, hw⟩ := worker?_eq_some.mp hworker
    split
    · exact hp.unfolds_add (not_cancels (by simp)) label ⟨w, hw, rfl⟩ nofun rfl
    · exact hp.unfolds_add (not_cancels (by simp)) label ⟨w, hw, rfl⟩ nofun rfl

private theorem Tidy.unfolds_scheduleRepeating (hp : p.Tidy) (holder label : String)
    (repetition : Repetition) : Unfolds p (.scheduleRepeating holder label repetition)
      (p.scheduleRepeating holder label repetition) := by
  rw [scheduleRepeating]
  split
  · exact hp.unfolds_self (not_cancels (by simp))
  · next i w hworker =>
    obtain ⟨hlookup, hw⟩ := worker?_eq_some.mp hworker
    exact hp.unfolds_add (not_cancels (by simp)) label ⟨w, hw, rfl⟩
      (fun _ ↦ isHeld_of_lookup hlookup) rfl

private theorem Tidy.unfolds_setAssignment (hp : p.Tidy) {a b : Assignment}
    (ha : p.assignments[k]? = some a) (hcancel : ∀ j, p.Cancels e j → j = k)
    (hpasses : p.Passes e k a b) (hhandle : b.handle = a.handle)
    (halive : b.isAlive = a.isAlive) : Unfolds p e (p.setAssignment k b) := by
  have hprepares := hp.prepares_setAssignment ha hcancel hpasses hhandle (fun h ↦ halive ▸ h)
  refine hprepares.unfolds_of_held hp rfl fun i hi ↦ ?_
  rw [isHeld_iff] at hi ⊢
  refine hi.imp_right (Or.imp_right ?_)
  rintro ⟨j, c, hc, hworker, hc'⟩
  by_cases hj : j = k
  · subst hj
    cases ha.symm.trans hc
    refine ⟨j, b, ?_, hpasses.worker.trans hworker, halive.trans hc'⟩
    simp [setAssignment, (List.getElem?_eq_some_iff.mp ha).1]
  · exact ⟨j, c, by simp [setAssignment, Ne.symm hj, hc], hworker, hc'⟩

private theorem assignment?_eq_some {label : String} {a : Assignment} :
    p.assignment? label = some (k, a) ↔
      p.labels.lookup label = some k ∧ p.assignments[k]? = some a := by
  simp only [assignment?, Option.bind_eq_some_iff, Option.map_eq_some_iff, Prod.mk.injEq]
  exact ⟨fun ⟨_, hj, _, ha, hk, ha'⟩ ↦ by subst hk ha'; exact ⟨hj, ha⟩,
    fun ⟨hk, ha⟩ ↦ ⟨k, hk, a, ha, rfl, rfl⟩⟩

private theorem Tidy.unfolds_cancel (hp : p.Tidy) (label : String) :
    Unfolds p (.cancel label) (p.cancel label) := by
  rw [cancel]
  split
  · next hnone =>
    refine hp.unfolds_self ?_
    rintro k ⟨label', hlabel, hlookup⟩
    cases hlabel
    have hget := List.getElem?_eq_getElem (hp.lt_of_label hlookup)
    have hsome := assignment?_eq_some.mpr ⟨hlookup, hget⟩
    cases hnone.symm.trans hsome
  · next k a hassignment =>
    obtain ⟨hlookup, ha⟩ := assignment?_eq_some.mp hassignment
    have hpasses : p.Passes (.cancel label) k a { a with cancelled := true } :=
      ⟨rfl, iff_of_true rfl (.inr ⟨label, rfl, hlookup⟩), .inl rfl⟩
    refine hp.unfolds_setAssignment ha ?_ hpasses rfl rfl
    rintro j ⟨label', hlabel, hlookup'⟩
    cases hlabel
    exact Option.some.inj (hlookup'.symm.trans hlookup)

private theorem Tidy.unfolds_start (hp : p.Tidy) (k : Nat) : Unfolds p (.start k) (p.start k) := by
  have hcancel (j : Nat) : ¬p.Cancels (.start k) j := not_cancels (by simp) j
  rw [start]
  split
  · exact hp.unfolds_self hcancel
  next a ha =>
  split
  · exact hp.unfolds_self hcancel
  next due hdue =>
  split
  · exact hp.unfolds_self hcancel
  next hnow =>
  split
  · next hmay =>
    have hpasses : p.Passes (.start k) k a a.begun :=
      ⟨rfl, by simp [Assignment.begun, hcancel], .inr ⟨⟨rfl, hmay, due, hdue, by omega⟩, rfl⟩⟩
    refine hp.unfolds_setAssignment ha (fun j hj ↦ absurd hj (hcancel j)) hpasses rfl ?_
    simp [Assignment.isAlive, Assignment.begun, hdue]
  · have hpasses : p.Passes (.start k) k a a.dropped := .of_eq (hcancel k) rfl rfl rfl
    exact (hp.prepares_setAssignment ha (fun j hj ↦ absurd hj (hcancel j)) hpasses rfl
      Assignment.isAlive_of_dropped).unfolds_dismissQuietly hp.toSound

private theorem Tidy.unfolds_finish (hp : p.Tidy) (k : Nat) :
    Unfolds p (.finish k) (p.finish k) := by
  have hcancel (j : Nat) : ¬p.Cancels (.finish k) j := not_cancels (by simp) j
  rw [finish]
  split
  · exact hp.unfolds_self hcancel
  next a ha =>
  split
  · next hrunning =>
    have hpasses : p.Passes (.finish k) k a { a with due := p.rearmed a, isRunning := false } :=
      .of_eq (hcancel k) rfl rfl rfl
    refine (hp.prepares_setAssignment ha (fun j hj ↦ absurd hj (hcancel j)) hpasses rfl
      ?_).unfolds_dismissQuietly hp.toSound
    simp +contextual [Assignment.isAlive, hrunning]
  · exact hp.unfolds_self hcancel

/-- Whatever befalls the workers of a process. -/
theorem Tidy.unfolds (hp : p.Tidy) (e : Event) : Unfolds p e (p.step e) := by
  cases e with
  | hire holder name origin place canStart => exact hp.unfolds_hire holder name origin canStart
  | share holder place canStart => exact hp.unfolds_share holder canStart
  | copy holder other place => exact hp.unfolds_copy holder other
  | letGo holder place => exact hp.unfolds_letGo holder
  | shutdown holder place => exact hp.unfolds_shutdown holder
  | schedule holder label delay => exact hp.unfolds_schedule holder label delay
  | scheduleRepeating holder label repetition =>
    exact hp.unfolds_scheduleRepeating holder label repetition
  | cancel label => exact hp.unfolds_cancel label
  | start k => exact hp.unfolds_start k
  | finish k => exact hp.unfolds_finish k
  | pass nanos => exact hp.unfolds_setTime (not_cancels (by simp))

end Pool

end Caching
