import Caching.Time.Clockwork
import Caching.Proofs.Time.Counting
import Mathlib.Algebra.GroupWithZero.Nat

/-!
# Requests to a clock

What a clock does when it is asked for something, and when it is asked for one thing after another.
After several lengths of time it has counted their sum, in whichever order they came; after it was
moved on to several instants it shows the last of them, however often each of them came.
-/

namespace Caching

namespace Clock

variable {c : Clock} {t : Instant}

/-! ### One request -/

section

variable {d sum : Duration}

private theorem serve_advance_of_add? (h : c.elapsed.add? d = some sum) :
    c.serve (.advance d) = (.done, ⟨c.start, sum⟩) := by
  rw [serve, advance, h]

/-- A clock that is asked for a sum that does not exist refuses, and stays. -/
theorem serve_advance_of_none (h : c.elapsed.add? d = none) :
    c.serve (.advance d) = (.aborted .durationRange, c) := by
  rw [serve, advance, h]

/-- A length of time is added exactly, as long as the seconds of the sum are in range. -/
theorem serve_advance_of_lt
    (h : c.elapsed.seconds + d.seconds + c.elapsed.carry d < UInt64.size) :
    ∃ sum, Duration.IsSum c.elapsed d sum ∧ c.serve (.advance d) = (.done, ⟨c.start, sum⟩) := by
  cases hadd : c.elapsed.add? d with
  | none => exact absurd (Duration.add?_eq_none_iff_seconds.mp hadd) (Nat.not_le.mpr h)
  | some sum => exact ⟨sum, Duration.isSum_of_add? hadd, serve_advance_of_add? hadd⟩

private theorem elapsed_of_serve_advance (h : (c.serve (.advance d)).1 = .done) :
    (c.serve (.advance d)).2.elapsed.nanos = c.elapsed.nanos + d.nanos := by
  cases hadd : c.elapsed.add? d with
  | none =>
    rw [serve_advance_of_none hadd] at h
    cases h
  | some sum =>
    rw [serve_advance_of_add? hadd]
    exact Duration.add?_eq_some_iff.mp hadd

end

/-- A clock that can be read answers its reading, and stays. -/
theorem serve_now (h : t.nanos = c.start.nanos + c.elapsed.nanos) :
    c.serve .now = (.now t, c) := by
  rw [serve, now_eq_ok_iff.mpr h]

/-- A clock that shows no instant cannot be read, and stays. -/
theorem serve_now_of_ne (h : ∀ t : Instant, t.nanos ≠ c.start.nanos + c.elapsed.nanos) :
    c.serve .now = (.aborted .instantRange, c) := by
  rw [serve, now_eq_error h]

/-- A clock that has counted as long as it can refuses another nanosecond. It cannot be read either,
and goes on being where it was. -/
example :
    let c : Clock := ⟨⟨0, by decide, by decide⟩, ⟨UInt64.size * nanosPerSecond - 1, by decide⟩⟩
    c.serve (.advance ⟨1, by decide⟩) = (.aborted .durationRange, c) ∧
      c.serve .now = (.aborted .instantRange, c) := by
  decide

/-- Nothing that is asked of a clock changes its start or moves it back. -/
theorem onward_serve (c : Clock) (request : Request) :
    (c.serve request).2.start = c.start ∧
      c.elapsed.nanos ≤ (c.serve request).2.elapsed.nanos := by
  cases request with
  | advance d =>
    cases hadd : c.elapsed.add? d with
    | none =>
      rw [serve_advance_of_none hadd]
      exact ⟨rfl, Nat.le_refl _⟩
    | some sum =>
      have hsum := Duration.add?_eq_some_iff.mp hadd
      rw [serve_advance_of_add? hadd]
      refine ⟨rfl, ?_⟩
      dsimp only
      omega
  | advanceTo instant => exact ⟨rfl, c.le_elapsed_advanceTo instant⟩
  | elapsed => exact ⟨rfl, Nat.le_refl _⟩
  | now =>
    rw [serve]
    cases c.now with
    | error abort => exact ⟨rfl, Nat.le_refl _⟩
    | ok instant => exact ⟨rfl, Nat.le_refl _⟩

/-! ### One request after another -/

/-- Does what is asked, one request after the other. -/
def serveAll (c : Clock) : List Request → List Answer × Clock
  | [] => ([], c)
  | request :: rest =>
    let (answer, later) := c.serve request
    let (answers, last) := later.serveAll rest
    (answer :: answers, last)

private theorem serveAll_cons (c : Clock) (request : Request) (rest : List Request) :
    c.serveAll (request :: rest) =
      ((c.serve request).1 :: ((c.serve request).2.serveAll rest).1,
        ((c.serve request).2.serveAll rest).2) :=
  rfl

/-- Requests can be made in two parts. -/
theorem serveAll_append (c : Clock) (first second : List Request) :
    c.serveAll (first ++ second) =
      ((c.serveAll first).1 ++ ((c.serveAll first).2.serveAll second).1,
        ((c.serveAll first).2.serveAll second).2) := by
  induction first generalizing c with
  | nil => rfl
  | cons request rest ih => simp only [List.cons_append, serveAll_cons, ih]

private theorem length_serveAll (c : Clock) (requests : List Request) :
    (c.serveAll requests).1.length = requests.length := by
  induction requests generalizing c with
  | nil => rfl
  | cons request rest ih => rw [serveAll_cons, List.length_cons, ih, List.length_cons]

/-- Whatever is asked of a clock, it keeps its start and is never moved back. -/
theorem onward_serveAll (c : Clock) (requests : List Request) :
    (c.serveAll requests).2.start = c.start ∧
      c.elapsed.nanos ≤ (c.serveAll requests).2.elapsed.nanos := by
  induction requests generalizing c with
  | nil => exact ⟨rfl, Nat.le_refl _⟩
  | cons request rest ih =>
    obtain ⟨hstart, hle⟩ := c.onward_serve request
    obtain ⟨hstart', hle'⟩ := ih (c.serve request).2
    rw [serveAll_cons]
    exact ⟨hstart'.trans hstart, Nat.le_trans hle hle'⟩

/-! ### Groups of requests -/

section

variable {before group group' after : List Request}

/-- The answers to a group of requests are those between the answers to the others. -/
theorem answers_between {answers answers' answers'' : List Answer} {last : Clock}
    (h : c.serveAll (before ++ group ++ after) = (answers ++ answers' ++ answers'', last))
    (hbefore : before.length = answers.length) (hgroup : group.length = answers'.length) :
    ((c.serveAll before).2.serveAll group).1 = answers' := by
  have hanswers := congrArg Prod.fst h
  simp only [serveAll_append] at hanswers
  have hfront := List.append_inj_left hanswers (by simp [length_serveAll, hbefore, hgroup])
  exact List.append_inj_right hfront (by rw [length_serveAll, hbefore])

/-- A group of requests that leads a clock to the same place can stand for another one. -/
theorem serveAll_between
    (h : ((c.serveAll before).2.serveAll group).2 = ((c.serveAll before).2.serveAll group').2)
    (after : List Request) :
    (c.serveAll (before ++ group ++ after)).2 = (c.serveAll (before ++ group' ++ after)).2 := by
  simp only [serveAll_append, h]

end

section

variable {ds ds' : List Duration} {ts ts' : List Instant}

private theorem sum_lt_of_done
    (h : (c.serveAll (ds.map Request.advance)).1 = ds.map fun _ ↦ Answer.done) :
    c.elapsed.nanos + (ds.map Duration.nanos).sum < UInt64.size * nanosPerSecond := by
  induction ds generalizing c with
  | nil => exact c.elapsed.nanos_lt
  | cons d rest ih =>
    rw [List.map_cons, serveAll_cons, List.map_cons, List.cons.injEq] at h
    have hrest := ih h.2
    rw [elapsed_of_serve_advance h.1] at hrest
    rw [List.map_cons, List.sum_cons]
    omega

private theorem serveAll_advances
    (h : c.elapsed.nanos + (ds.map Duration.nanos).sum < UInt64.size * nanosPerSecond) :
    ∃ total, total.nanos = c.elapsed.nanos + (ds.map Duration.nanos).sum ∧
      c.serveAll (ds.map .advance) = (ds.map fun _ ↦ .done, ⟨c.start, total⟩) := by
  induction ds generalizing c with
  | nil => exact ⟨c.elapsed, rfl, rfl⟩
  | cons d rest ih =>
    rw [List.map_cons, List.sum_cons] at h
    have hfits : c.elapsed.add? d ≠ none := by
      rw [ne_eq, Duration.add?_eq_none_iff]
      omega
    obtain ⟨sum, hadd⟩ := Option.ne_none_iff_exists'.mp hfits
    have hsum := Duration.add?_eq_some_iff.mp hadd
    obtain ⟨total, htotal, hrest⟩ := @ih ⟨c.start, sum⟩ (by dsimp only; omega)
    refine ⟨total, ?_, ?_⟩
    · rw [List.map_cons, List.sum_cons]
      dsimp only at htotal
      omega
    · rw [List.map_cons, serveAll_cons, serve_advance_of_add? hadd, hrest, List.map_cons]

/-- Lengths of time that were all added are all added in any other order, and the clock has counted
the same. -/
theorem serveAll_advances_perm (hperm : ds.Perm ds')
    (h : (c.serveAll (ds.map Request.advance)).1 = ds.map fun _ ↦ Answer.done) :
    c.serveAll (ds'.map .advance) =
      (ds'.map fun _ ↦ .done, (c.serveAll (ds.map .advance)).2) := by
  have hlt := sum_lt_of_done h
  have hsum : (ds.map Duration.nanos).sum = (ds'.map Duration.nanos).sum :=
    (hperm.map Duration.nanos).sum_nat
  obtain ⟨total, htotal, hserve⟩ := serveAll_advances hlt
  obtain ⟨total', htotal', hserve'⟩ := serveAll_advances (hsum ▸ hlt)
  have hsame : total' = total := Duration.ext (by omega)
  rw [hserve, hserve', hsame]

/-- A clock that is moved on to several instants shows the latest of them, unless it has shown a
later one before. -/
theorem shown_serveAll_le_iff {n : Int} :
    (c.serveAll (ts.map .advanceTo)).2.shown ≤ n ↔ c.shown ≤ n ∧ ∀ t ∈ ts, t.nanos ≤ n := by
  induction ts generalizing c with
  | nil => simp [serveAll]
  | cons t rest ih =>
    rw [List.map_cons, serveAll_cons]
    dsimp only [serve]
    rw [ih, shown_advanceTo, Int.max_le, List.forall_mem_cons, and_assoc]

/-- To which instants a clock is moved on is all that matters, not in which order or how often. -/
theorem serveAll_advanceTo_congr (h : ∀ t, t ∈ ts ↔ t ∈ ts') :
    (c.serveAll (ts.map .advanceTo)).2 = (c.serveAll (ts'.map .advanceTo)).2 := by
  have hstart := (c.onward_serveAll (ts.map .advanceTo)).1
  have hstart' := (c.onward_serveAll (ts'.map .advanceTo)).1
  have hiff (n : Int) : (c.serveAll (ts.map .advanceTo)).2.shown ≤ n ↔
      (c.serveAll (ts'.map .advanceTo)).2.shown ≤ n := by
    simp only [shown_serveAll_le_iff, h]
  apply eq_of_shown (hstart.trans hstart'.symm)
  exact Int.le_antisymm ((hiff _).mpr (Int.le_refl _)) ((hiff _).mp (Int.le_refl _))

end

end Clock

end Caching
