import Mathlib.Data.List.Nodup
import Caching.Worker.Pool

/-!
# Stopping workers

What is left of a pool once some of its workers have been stopped: those workers without the
runtimes that they owned, the assignments that waited on these runtimes, dropped, and all else as it
was. The workers that nobody holds are stopped all at once, and none of the others loses its last
holder by that.
-/

namespace Caching

/-- The worker once it has been stopped. -/
def Worker.retired (w : Worker) : Worker :=
  { w with stopped := true, runtime := none }

@[simp] theorem Worker.retired_retired (w : Worker) : w.retired.retired = w.retired :=
  rfl

/-- The worker with the number `i`, as it was made or as it was stopped. -/
inductive Worker.IsMade (i : Nat) (w : Worker) : Prop where
  /-- The runtime was started for it, and it owns it until it is stopped. -/
  | started (handle : w.handle = .started i)
      (runtime : w.runtime = if w.stopped then none else some (.started i))
  /-- The runtime is that of a host. -/
  | borrowing (host : Nat) (handle : w.handle = .host host) (runtime : w.runtime = none)
      (isProcessWide : w.isProcessWide = false)

private theorem Worker.IsMade.retired {i : Nat} {w : Worker} (h : w.IsMade i) :
    w.retired.IsMade i := by
  cases h with
  | started handle runtime => exact .started handle rfl
  | borrowing host handle runtime isProcessWide => exact .borrowing host handle rfl isProcessWide

private theorem Worker.IsMade.runtime_of_started {i : Nat} {w : Worker} (h : w.IsMade i)
    (hw : w.handle = .started i) (hstopped : w.stopped = false) :
    w.runtime = some (.started i) := by
  cases h with
  | started _ runtime => simpa [hstopped] using runtime
  | borrowing _ handle _ _ => simp [handle] at hw

private theorem Worker.IsMade.number_eq {i j : Nat} {w : Worker} (h : w.IsMade i)
    (hj : w.handle = .started j) : j = i := by
  cases h with
  | started handle _ => exact Runtime.started.inj (hj.symm.trans handle)
  | borrowing _ handle _ _ => simp [handle] at hj

private theorem Worker.IsMade.runtime_eq {i : Nat} {w : Worker} {r : Runtime} (h : w.IsMade i)
    (hr : w.runtime = some r) : r = .started i ∧ w.handle = .started i := by
  cases h with
  | started handle runtime =>
    cases hs : w.stopped with
    | true => simp [runtime, hs] at hr
    | false => exact ⟨by simpa [runtime, hs] using hr.symm, handle⟩
  | borrowing _ _ runtime _ => simp [runtime] at hr

/-- The assignment once nothing of it waits any more. -/
def Assignment.dropped (a : Assignment) : Assignment :=
  { a with due := none }

/-- What is dropped may only die of it. -/
theorem Assignment.isAlive_of_dropped {a : Assignment} (h : a.dropped.isAlive = true) :
    a.isAlive = true := by
  simp only [isAlive, dropped, Option.isSome_none, Bool.false_or, Bool.and_eq_true,
    Bool.or_eq_true] at h ⊢
  exact ⟨h.1, .inr h.2⟩

namespace Pool

variable {p q r : Pool} {place : Place} {i : Nat} {gone : List Nat}

/-- How the parts of a pool fit together, at any moment. -/
structure Sound (p : Pool) : Prop where
  made : ∀ (i : Nat) (w : Worker), p.workers[i]? = some w → w.IsMade i
  processWide : ∀ (i : Nat) (w : Worker), p.workers[i]? = some w →
    (w.isProcessWide = true ↔ p.shared? = some i)
  shared : ∀ i, p.shared? = some i → ∃ w : Worker, p.workers[i]? = some w ∧ w.stopped = false
  holders : ∀ h ∈ p.holders, h.2 < p.workers.length
  /-- Nobody holds two workers. -/
  nodup : (p.holders.map Prod.fst).Nodup
  labels : ∀ l ∈ p.labels, l.2 < p.assignments.length
  served : ∀ a ∈ p.assignments, ∃ w : Worker, p.workers[a.worker]? = some w ∧ w.handle = a.handle
  /-- What was stopped was the own runtime of a worker that was stopped, and whoever must not block
  did not wait. -/
  halted : ∀ h ∈ p.halts, (h.place = .inside → h.blocking = false) ∧
    ∃ (i : Nat) (w : Worker), p.workers[i]? = some w ∧ w.stopped = true ∧
      w.handle = .started i ∧ h.runtime = .started i
  /-- With a worker, the runtime that was started for it is stopped. -/
  halts : ∀ (i : Nat) (w : Worker), p.workers[i]? = some w → w.handle = .started i →
    w.stopped = true → p.isHalted (.started i) = true

/-- How things stand between what befalls a pool: whatever nobody holds has been stopped. -/
structure Tidy (p : Pool) : Prop extends Sound p where
  held : ∀ (i : Nat) (w : Worker), p.workers[i]? = some w → w.stopped = false → p.isHeld i = true

/-- The second pool is what is left of the first one when some workers are stopped. -/
structure Ends (gone : List Nat) (p q : Pool) : Prop where
  now : q.now = p.now
  shared : q.shared? = p.shared?
  holders : q.holders = p.holders
  labels : q.labels = p.labels
  workers : q.workers = p.workers.mapIdx fun i w ↦ if i ∈ gone then w.retired else w
  length : q.assignments.length = p.assignments.length
  assignments : ∀ (k : Nat) (a : Assignment), p.assignments[k]? = some a →
    q.assignments[k]? = some a ∨ a.worker ∈ gone ∧ q.assignments[k]? = some a.dropped
  halts : ∀ h ∈ q.halts, h ∈ p.halts ∨ (h.place = .inside → h.blocking = false) ∧
    ∃ i ∈ gone, ∃ w : Worker, p.workers[i]? = some w ∧
      w.handle = .started i ∧ h.runtime = .started i
  halted : ∀ r, p.isHalted r = true → q.isHalted r = true
  halts_gone : ∀ i ∈ gone, ∀ w : Worker, p.workers[i]? = some w → w.handle = .started i →
    w.stopped = false → q.isHalted (.started i) = true

/-- Which runtimes have been stopped. -/
theorem isHalted_iff {r : Runtime} : p.isHalted r = true ↔ ∃ h ∈ p.halts, h.runtime = r := by
  simp [isHalted]

/-- Who or what holds a worker. -/
theorem isHeld_iff : p.isHeld i = true ↔ p.shared? = some i ∨ (∃ h ∈ p.holders, h.2 = i) ∨
    ∃ (k : Nat) (a : Assignment), p.assignments[k]? = some a ∧ a.worker = i ∧ a.isAlive = true := by
  simp only [isHeld, Bool.or_eq_true, beq_iff_eq, List.any_eq_true, Bool.and_eq_true, or_assoc]
  refine or_congr_right (or_congr_right ⟨?_, ?_⟩)
  · rintro ⟨a, ha, h⟩
    obtain ⟨k, hk⟩ := List.mem_iff_getElem?.mp ha
    exact ⟨k, a, hk, h⟩
  · rintro ⟨k, a, ha, h⟩
    exact ⟨a, List.mem_of_getElem? ha, h⟩

/-- The workers that are to be stopped. -/
theorem mem_forsaken : i ∈ p.forsaken ↔
    (∃ w : Worker, p.workers[i]? = some w ∧ w.stopped = false) ∧ p.isHeld i = false := by
  simp only [forsaken, List.mem_filter, List.mem_range, Bool.and_eq_true, Bool.not_eq_true',
    Option.any_eq_true]
  refine ⟨fun h ↦ h.2, fun h ↦ ⟨?_, h⟩⟩
  obtain ⟨⟨w, hw, _⟩, _⟩ := h
  exact (List.getElem?_eq_some_iff.mp hw).1

private theorem shared_ne_of_mem_forsaken (hi : i ∈ p.forsaken) : p.shared? ≠ some i := by
  intro hshared
  have hheld : p.isHeld i = true := isHeld_iff.mpr (.inl hshared)
  simp [(mem_forsaken.mp hi).2] at hheld

namespace Ends

variable {gone' : List Nat}

private theorem workers_length (h : Ends gone p q) : q.workers.length = p.workers.length := by
  simp [h.workers]

/-- What is left of each worker. -/
theorem worker (h : Ends gone p q) (i : Nat) :
    q.workers[i]? = p.workers[i]?.map fun w ↦ if i ∈ gone then w.retired else w := by
  simp [h.workers]

/-- A worker that is not among those that are stopped stays as it is. -/
theorem worker_of_notMem (h : Ends gone p q) (hi : i ∉ gone) : q.workers[i]? = p.workers[i]? := by
  simp [h.worker, hi]

private theorem of_worker {w : Worker} (h : Ends gone p q) (hw : q.workers[i]? = some w) :
    ∃ w₀ : Worker, p.workers[i]? = some w₀ ∧ w.handle = w₀.handle := by
  rw [h.worker, Option.map_eq_some_iff] at hw
  obtain ⟨w₀, hw₀, rfl⟩ := hw
  refine ⟨w₀, hw₀, ?_⟩
  split <;> rfl

private theorem notMem {w : Worker} (h : Ends gone p q) (hw : q.workers[i]? = some w)
    (hstopped : w.stopped = false) : i ∉ gone := by
  intro hi
  rw [h.worker, Option.map_eq_some_iff] at hw
  obtain ⟨w₀, -, rfl⟩ := hw
  simp [hi, Worker.retired] at hstopped

/-- Where each assignment is from that is left. -/
theorem of_assignment {k : Nat} {b : Assignment} (h : Ends gone p q)
    (hb : q.assignments[k]? = some b) :
    ∃ a, p.assignments[k]? = some a ∧ (b = a ∨ a.worker ∈ gone ∧ b = a.dropped) := by
  have hlt : k < p.assignments.length := by
    rw [← h.length]
    exact (List.getElem?_eq_some_iff.mp hb).1
  refine ⟨p.assignments[k], List.getElem?_eq_getElem hlt, ?_⟩
  rcases h.assignments k _ (List.getElem?_eq_getElem hlt) with hsame | ⟨hgone, hdropped⟩
  · exact .inl (Option.some.inj (hb.symm.trans hsame))
  · exact .inr ⟨hgone, Option.some.inj (hb.symm.trans hdropped)⟩

/-- Stopping none leaves everything as it is. -/
theorem refl (p : Pool) : Ends [] p p where
  now := rfl
  shared := rfl
  holders := rfl
  labels := rfl
  workers := by
    ext i : 1
    simp
  length := rfl
  assignments _ _ ha := .inl ha
  halts _ hh := .inl hh
  halted _ hr := hr
  halts_gone _ hi := absurd hi List.not_mem_nil

/-- Some are stopped after the others. -/
theorem trans (h : Ends gone p q) (h' : Ends gone' q r) : Ends (gone ++ gone') p r where
  now := h'.now.trans h.now
  shared := h'.shared.trans h.shared
  holders := h'.holders.trans h.holders
  labels := h'.labels.trans h.labels
  workers := by
    rw [h'.workers, h.workers, List.mapIdx_mapIdx]
    congr 1
    funext i w
    by_cases hi : i ∈ gone <;> by_cases hi' : i ∈ gone' <;> simp [hi, hi']
  length := h'.length.trans h.length
  assignments k a ha := by
    rcases h.assignments k a ha with hk | ⟨hgone, hk⟩
    · refine (h'.assignments k a hk).imp_right fun ⟨hgone', hk'⟩ ↦ ⟨?_, hk'⟩
      exact List.mem_append_right _ hgone'
    · refine .inr ⟨List.mem_append_left _ hgone, ?_⟩
      rcases h'.assignments k _ hk with hk' | ⟨-, hk'⟩
      · exact hk'
      · exact hk'
  halts x hx := by
    rcases h'.halts x hx with hx | ⟨hblocking, i, hi, w, hw, hhandle, hruntime⟩
    · rcases h.halts x hx with hx | ⟨hblocking, i, hi, hw⟩
      · exact .inl hx
      · exact .inr ⟨hblocking, i, List.mem_append_left _ hi, hw⟩
    · obtain ⟨w₀, hw₀, hsame⟩ := h.of_worker hw
      exact .inr ⟨hblocking, i, List.mem_append_right _ hi, w₀, hw₀,
        hsame.symm.trans hhandle, hruntime⟩
  halted r hr := h'.halted r (h.halted r hr)
  halts_gone i hi w hw hhandle hstopped := by
    by_cases hgone : i ∈ gone
    · exact h'.halted _ (h.halts_gone i hgone w hw hhandle hstopped)
    · have hgone' : i ∈ gone' := (List.mem_append.mp hi).resolve_left hgone
      exact h'.halts_gone i hgone' w ((h.worker_of_notMem hgone).trans hw) hhandle hstopped

private theorem setLog (h : Ends gone p q) (log : List LogEntry) : Ends gone p { q with log } :=
  { h with }

/-- Who is held afterwards was held before. -/
theorem isHeld_of (h : Ends gone p q) (hi : q.isHeld i = true) : p.isHeld i = true := by
  rw [isHeld_iff, h.shared, h.holders] at hi
  rw [isHeld_iff]
  refine hi.imp_right (Or.imp_right ?_)
  rintro ⟨k, b, hb, hworker, halive⟩
  obtain ⟨a, ha, rfl | ⟨-, rfl⟩⟩ := h.of_assignment hb
  · exact ⟨k, b, ha, hworker, halive⟩
  · exact ⟨k, a, ha, hworker, Assignment.isAlive_of_dropped halive⟩

/-- Who was not held is not held afterwards. -/
theorem isHeld_eq_false (h : Ends gone p q) (hi : p.isHeld i = false) : q.isHeld i = false := by
  by_contra hheld
  simp [h.isHeld_of (by simpa using hheld)] at hi

private theorem isHeld (h : Ends gone p q) (hi : i ∉ gone) : q.isHeld i = p.isHeld i := by
  rw [Bool.eq_iff_iff]
  refine ⟨h.isHeld_of, fun hheld ↦ ?_⟩
  rw [isHeld_iff] at hheld
  rw [isHeld_iff, h.shared, h.holders]
  refine hheld.imp_right (Or.imp_right ?_)
  rintro ⟨k, a, ha, hworker, halive⟩
  rcases h.assignments k a ha with hsame | ⟨hgone, -⟩
  · exact ⟨k, a, hsame, hworker, halive⟩
  · exact absurd (hworker ▸ hgone) hi

/-- The parts of what is left fit together. The shared worker must not be among those that are
stopped. -/
theorem sound (h : Ends gone p q) (hp : p.Sound) (hshared : ∀ i ∈ gone, p.shared? ≠ some i) :
    q.Sound where
  made i w hw := by
    rw [h.worker, Option.map_eq_some_iff] at hw
    obtain ⟨w₀, hw₀, rfl⟩ := hw
    split
    · exact (hp.made i w₀ hw₀).retired
    · exact hp.made i w₀ hw₀
  processWide i w hw := by
    rw [h.worker, Option.map_eq_some_iff] at hw
    obtain ⟨w₀, hw₀, rfl⟩ := hw
    rw [h.shared, ← hp.processWide i w₀ hw₀]
    split <;> rfl
  shared i hi := by
    rw [h.shared] at hi
    rw [h.worker_of_notMem fun hgone ↦ hshared i hgone hi]
    exact hp.shared i hi
  holders := by
    rw [h.holders, h.workers_length]
    exact hp.holders
  nodup := by
    rw [h.holders]
    exact hp.nodup
  labels := by
    rw [h.labels, h.length]
    exact hp.labels
  served b hb := by
    obtain ⟨k, hk⟩ := List.mem_iff_getElem?.mp hb
    obtain ⟨a, ha, hcases⟩ := h.of_assignment hk
    have hsame : b.worker = a.worker ∧ b.handle = a.handle := by
      rcases hcases with rfl | ⟨-, rfl⟩ <;> exact ⟨rfl, rfl⟩
    obtain ⟨w, hw, hhandle⟩ := hp.served a (List.mem_of_getElem? ha)
    rw [hsame.1, hsame.2, h.worker, hw]
    refine ⟨_, rfl, ?_⟩
    split <;> exact hhandle
  halted x hx := by
    rcases h.halts x hx with hx | ⟨hblocking, i, hi, w, hw, hhandle, hruntime⟩
    · obtain ⟨hblocking, i, w, hw, hstopped, hhandle, hruntime⟩ := hp.halted x hx
      refine ⟨hblocking, i, _, by rw [h.worker, hw]; rfl, ?_, ?_, hruntime⟩
      · split
        · rfl
        · exact hstopped
      · split <;> exact hhandle
    · refine ⟨hblocking, i, w.retired, ?_, rfl, hhandle, hruntime⟩
      simp [h.worker, hw, hi]
  halts i w hw hhandle hstopped := by
    obtain ⟨w₀, hw₀, hsame⟩ := h.of_worker hw
    cases hstopped₀ : w₀.stopped with
    | true => exact h.halted _ (hp.halts i w₀ hw₀ (hsame.symm.trans hhandle) hstopped₀)
    | false =>
      refine h.halts_gone i ?_ w₀ hw₀ (hsame.symm.trans hhandle) hstopped₀
      by_contra hi
      rw [h.worker_of_notMem hi, hw₀] at hw
      cases hw
      simp [hstopped₀] at hstopped

end Ends

/-- Stopping workers leaves nobody unheld who is not stopped. The shared worker must not be among
those that are stopped. -/
theorem Ends.tidy (h : Ends gone p q) (hp : p.Tidy) (hshared : ∀ i ∈ gone, p.shared? ≠ some i) :
    q.Tidy where
  toSound := h.sound hp.toSound hshared
  held i w hw hstopped := by
    have hkept := h.notMem hw hstopped
    rw [h.worker_of_notMem hkept] at hw
    rw [h.isHeld hkept]
    exact hp.held i w hw hstopped

/-- A worker is stopped, whether it owns a runtime or not. -/
theorem Sound.stop_ends (hp : p.Sound) (place : Place) (hi : i < p.workers.length) :
    Ends [i] p (p.stop place i) := by
  have hretired (w : Worker) (hw : w = p.workers[i].retired) :
      p.workers.set i w = p.workers.mapIdx fun j w ↦ if j ∈ [i] then w.retired else w := by
    ext j : 1
    by_cases hj : j = i
    · simp [hj, hi, hw]
    · simp [hj, Ne.symm hj]
  have hset : p.workers.modify i (fun w ↦ { w with stopped := true }) =
      p.workers.set i { p.workers[i] with stopped := true } := by
    ext j : 1
    by_cases hj : j = i
    · simp [hj, hi]
    · simp [Ne.symm hj]
  cases hr : p.workers[i].runtime with
  | none =>
    have hstop : p.stop place i =
        { p with workers := p.workers.set i { p.workers[i] with stopped := true } } := by
      simp [stop, stopRuntime, hset, hi, hr]
    rw [hstop]
    refine ⟨rfl, rfl, rfl, rfl, hretired _ (by simp [Worker.retired, hr]), rfl,
      fun k a ha ↦ .inl ha, fun h hh ↦ .inl hh, fun r hr ↦ hr, fun j hj w hw hhandle hstopped ↦ ?_⟩
    -- Whoever does not own a runtime any more has been stopped before.
    rw [List.mem_singleton.mp hj, List.getElem?_eq_getElem hi] at hw
    cases hw
    rw [List.mem_singleton.mp hj] at hhandle
    have hmade := hp.made i _ (List.getElem?_eq_getElem hi)
    simp [hmade.runtime_of_started hhandle hstopped] at hr
  | some r =>
    obtain ⟨rfl, hstarted⟩ := (hp.made i _ (List.getElem?_eq_getElem hi)).runtime_eq hr
    have hstop : p.stop place i = { p with
        workers := p.workers.set i p.workers[i].retired
        halts := p.halts ++ [⟨.started i, place, decide (place = .outside)⟩]
        assignments := p.assignments.map (Assignment.dropOn (.started i))
        log := p.log ++ [p.workers[i].entry .debug "stopped dedicated scheduler runtime"] } := by
      simp [stop, stopRuntime, note, Worker.entry, Worker.retired, hset, hi, hr]
    rw [hstop]
    refine ⟨rfl, rfl, rfl, rfl, hretired _ rfl, List.length_map .., fun k a ha ↦ ?_, fun h hh ↦ ?_,
      fun r hr ↦ ?_, fun j hj _ _ _ _ ↦ ?_⟩
    · by_cases hhandle : a.handle = .started i
      · -- Only what the worker itself was given runs on its runtime.
        obtain ⟨w, hw, hsame⟩ := hp.served a (List.mem_of_getElem? ha)
        have hworker := (hp.made a.worker w hw).number_eq (hsame.trans hhandle)
        exact .inr ⟨by simp [hworker], by simp [ha, Assignment.dropOn, hhandle, Assignment.dropped]⟩
      · exact .inl (by simp [ha, Assignment.dropOn, hhandle])
    · rcases List.mem_append.mp hh with hh | hh
      · exact .inl hh
      · rw [List.mem_singleton.mp hh]
        refine .inr ⟨fun hplace ↦ by simp [show place = .inside from hplace], i, by simp, ?_⟩
        exact ⟨_, List.getElem?_eq_getElem hi, hstarted, rfl⟩
    · obtain ⟨h, hh, hruntime⟩ := isHalted_iff.mp hr
      exact isHalted_iff.mpr ⟨h, List.mem_append_left _ hh, hruntime⟩
    · rw [List.mem_singleton.mp hj]
      exact isHalted_iff.mpr ⟨_, List.mem_append_right _ (List.mem_singleton_self _), rfl⟩

private theorem Sound.foldl_stop_ends (gone : List Nat) (hp : p.Sound)
    (hgone : ∀ i ∈ gone, i < p.workers.length ∧ p.shared? ≠ some i) :
    Ends gone p (gone.foldl (fun p i ↦ p.stop place i) p) := by
  induction gone generalizing p with
  | nil => exact .refl p
  | cons i gone ih =>
    have hstop : Ends [i] p (p.stop place i) := hp.stop_ends place (hgone i List.mem_cons_self).1
    refine hstop.trans (ih (hstop.sound hp ?_) ?_)
    · simpa using (hgone i List.mem_cons_self).2
    · rw [hstop.workers_length, hstop.shared]
      exact fun j hj ↦ hgone j (List.mem_cons_of_mem _ hj)

/-- The workers that nobody holds are stopped. -/
theorem Sound.dismiss_ends (hp : p.Sound) (place : Place) :
    Ends p.forsaken p (p.dismiss place) := by
  refine hp.foldl_stop_ends _ fun i hi ↦ ⟨?_, shared_ne_of_mem_forsaken hi⟩
  obtain ⟨⟨w, hw, -⟩, -⟩ := mem_forsaken.mp hi
  exact (List.getElem?_eq_some_iff.mp hw).1

/-- The same without any trace in the log. -/
theorem Sound.dismissQuietly_ends (hp : p.Sound) : Ends p.forsaken p p.dismissQuietly :=
  (hp.dismiss_ends .inside).setLog p.log

/-- After that, whatever nobody holds has been stopped. -/
theorem Ends.tidy_of_forsaken (h : Ends p.forsaken p q) (hp : p.Sound) : q.Tidy where
  toSound := h.sound hp fun _ hi ↦ shared_ne_of_mem_forsaken hi
  held i w hw hstopped := by
    have hkept := h.notMem hw hstopped
    rw [h.worker_of_notMem hkept] at hw
    rw [h.isHeld hkept]
    by_contra hheld
    exact hkept (mem_forsaken.mpr ⟨⟨w, hw, hstopped⟩, by simpa using hheld⟩)

end Pool

end Caching
