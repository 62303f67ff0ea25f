import Caching.Cache.Basic
import Caching.Proofs.Plain.Engines
import Caching.Proofs.Vacant.Deeds

/-!
# Giving up

A function that an operation is given sees the live value before anything is done with it, and may
give up then. Nothing has been changed by that time: no entry has been taken out, not even one that
has lapsed, nothing has been scheduled, and nobody has been told of anything. Only an engine that
keeps its entries in the order of their use counts the look as a use.
-/

namespace Caching

variable {σ K V : Type} {key : K} {current : Option V} {abort : Abort} {operation : Operation K V}

namespace Operation

/-- The operation asks its function about the current value of a key, and the function gives up. -/
inductive GivesUp (key : K) (current : Option V) (abort : Abort) : Operation K V → Prop where
  | compute {remap : Option V → Except Abort (Option V)} (hremap : remap current = .error abort) :
    GivesUp key current abort (.compute key remap)
  | computeIfPresent {remap : V → Except Abort (Option V)} {value : V}
    (hcurrent : current = some value) (hremap : remap value = .error abort) :
    GivesUp key current abort (.computeIfPresent key remap)
  | merge {combine : V → V → Except Abort (Option V)} {value old : V}
    (hcurrent : current = some old) (hcombine : combine old value = .error abort) :
    GivesUp key current abort (.merge key value combine)

namespace GivesUp

private theorem key?_eq (h : operation.GivesUp key current abort) : operation.key? = some key := by
  cases h <;> rfl

variable [DecidableEq V]

private theorem deed_eq (h : operation.GivesUp key current abort) :
    operation.deed current = .abandon := by
  cases h with
  | compute hremap => rw [deed, hremap, Deed.ofRemapped]
  | computeIfPresent hcurrent hremap =>
    subst hcurrent
    rw [deed, hremap, Deed.ofRemapped]
  | merge hcurrent hcombine =>
    subst hcurrent
    rw [deed, hcombine, Deed.ofRemapped]

private theorem answer_eq (h : operation.GivesUp key current abort) :
    operation.answer current = .failed (.abort abort) := by
  cases h with
  | compute hremap => rw [answer, hremap, remapped]
  | computeIfPresent hcurrent hremap =>
    subst hcurrent
    rw [answer, hremap, remapped]
  | merge hcurrent hcombine =>
    subst hcurrent
    rw [answer, hcombine, remapped]

end GivesUp

end Operation

namespace Running

variable [Engine σ K V] [DecidableEq V]

/-- Whoever reads the key is answered the value, so the cache is open and its clock can be read. -/
def Reads (w : Running σ K V) (key : K) (current : Option V) : Prop :=
  (w.perform (.get key)).1.outcome = .ok (.value current)

instance (w : Running σ K V) (key : K) (current : Option V) : Decidable (w.Reads key current) :=
  inferInstanceAs (Decidable ((w.perform (.get key)).1.outcome = .ok (.value current)))

section

variable [LawfulEngine σ K V]

private theorem Reads.exists_reading {w : Running σ K V} (h : w.Reads key current) :
    w.phase = .active ∧ ∃ now, Engine.reading w = .ok now ∧
      LawfulEngine.current? now key w = current := by
  rw [Reads, perform] at h
  cases hp : w.phase with
  | closed =>
    rw [performWith_of_closed _ hp] at h
    simp [Operation.closedReply, Reply.refused, Reply.failed] at h
  | active =>
    cases hnow : Engine.reading w with
    | error abort =>
      rw [performWith_of_unread _ hp hnow (by simp)] at h
      simp [Reply.failed] at h
    | ok now =>
      have hget : (Operation.get key : Operation K V).key? = some key := rfl
      rw [performWith_of_key _ hget hp hnow] at h
      exact ⟨rfl, now, rfl, by simpa [Operation.answer, Reply.ok] using h⟩

/-- When a function gives up, what it was to decide is abandoned. -/
theorem performWith_of_givesUp (report : Report σ K V) {w : Running σ K V}
    (hreads : w.Reads key current) (h : operation.GivesUp key current abort) :
    ∃ now, performWith report operation w =
      (.failed (.abort abort), settle report (LawfulEngine.carry now key .abandon w)) := by
  obtain ⟨hactive, now, hnow, hcurrent⟩ := hreads.exists_reading
  refine ⟨now, ?_⟩
  rw [performWith_of_key report h.key?_eq hactive hnow, hcurrent, h.answer_eq, h.deed_eq]

end

/-- A computation for an absent key that gives up leaves what its own operations have left. -/
theorem follow_computeIfAbsentBy {w : Running σ K V} (hreads : w.Reads key none)
    {computation : Script (Operation K V) (Reply V) (Except Abort V)}
    (h : ((w.perform (.get key)).2.follow computation).1 = .error abort) :
    w.follow (computeIfAbsentBy id key computation) =
      (.failed (.abort abort), ((w.perform (.get key)).2.follow computation).2) := by
  rw [Reads] at hreads
  rw [follow] at h
  rw [follow, computeIfAbsentBy, id_eq, Script.run]
  dsimp only
  rw [hreads]
  dsimp only
  rw [Script.run_andThen, h]
  rfl

variable [DecidableEq K]

/-- On a recency cache the look at the key counts as a use of it. -/
theorem performWith_recency_of_givesUp (report : Report (Recency K V) K V)
    {w : Running (Recency K V) K V} (hreads : w.Reads key current)
    (h : operation.GivesUp key current abort) :
    w.store.find? key = current ∧ performWith report operation w =
      (.failed (.abort abort), { w with store := w.store.touch key }) := by
  obtain ⟨-, _, -, hfind⟩ := hreads.exists_reading
  obtain ⟨_, hperform⟩ := performWith_of_givesUp report hreads h
  exact ⟨hfind, hperform⟩

/-- A function that gives up leaves the cache as it was. Whatever value the key is read as, and be
it none because its entry has lapsed: an operation whose function gives up on that value fails with
the abort and changes nothing, however removals are reported. Entries, deadlines, the schedule, the
record of calls and the log are what they were, and so is all that follows. On a recency cache a key
that is there becomes the most recently used one, and that is all. A computation for an absent key
that gives up leaves the effects of the initial read and of its own operations, if it has any. -/
theorem giving_up_leaves_cache (h : operation.GivesUp key current abort) :
    (∀ report (w : Running Vacant K V), w.Reads key current →
      performWith report operation w = (.failed (.abort abort), w)) ∧
    (∀ report (w : Running (Timed K V) K V), w.Reads key current →
      performWith report operation w = (.failed (.abort abort), w)) ∧
    (∀ report (w : Running (Recency K V) K V), w.Reads key current →
      (current = none → performWith report operation w = (.failed (.abort abort), w)) ∧
      ∀ value, current = some value →
        performWith report operation w = (.failed (.abort abort),
          { w with store.entries := Keyed.moveToEnd key value w.store.entries }) ∧
        (Keyed.Distinct w.store.entries →
          (Keyed.moveToEnd key value w.store.entries).Perm w.store.entries)) ∧
    ∀ (kind : Kind) (w : Running (kind.Store K V) K V), w.Reads key none →
      w.follow (computeIfAbsent key (.error abort)) =
        (.failed (.abort abort), (w.perform (.get key)).2) ∧
      ∀ computation : Script (Operation K V) (Reply V) (Except Abort V),
        ((w.perform (.get key)).2.follow computation).1 = .error abort →
        w.follow (computeIfAbsentBy id key computation) =
          (.failed (.abort abort), ((w.perform (.get key)).2.follow computation).2) := by
  refine ⟨?vacant, ?timed, ?recency, ?derived⟩
  case vacant =>
    intro report w hreads
    obtain ⟨_, hperform⟩ := performWith_of_givesUp report hreads h
    exact hperform
  case timed =>
    intro report w hreads
    obtain ⟨_, hperform⟩ := performWith_of_givesUp report hreads h
    exact hperform
  case recency =>
    intro report w hreads
    obtain ⟨hfind, hperform⟩ := performWith_recency_of_givesUp report hreads h
    constructor
    · intro hnone
      rw [hperform, Recency.touch_of_find?_eq_none (hfind.trans hnone)]
    · intro value hvalue
      have htouch : w.store.touch key =
          { w.store with entries := Keyed.moveToEnd key value w.store.entries } := by
        simp only [Recency.touch, hfind.trans hvalue]
      rw [hperform, htouch]
      refine ⟨rfl, fun hdistinct ↦ ?_⟩
      have hperm := Recency.entries_touch_perm hdistinct key
      rwa [htouch] at hperm
  case derived =>
    intro kind w hreads
    exact ⟨follow_computeIfAbsentBy hreads rfl, fun _ ↦ follow_computeIfAbsentBy hreads⟩

/-- A function gives up on an entry that has lapsed but is still stored, and another one on the
older of two entries. -/
theorem giving_up_leaves_lapsed_and_older :
    let spec : CacheSpec Nat Nat :=
      ⟨some .dashMap, none, .postWrite, some ⟨100, by decide⟩, none, some (.ofClock .fresh), false⟩
    let timed : Running (Timed Nat Nat) Nat Nat :=
      ((Running.start (.empty (some ⟨false, ⟨100, by decide⟩⟩)) .dashMap spec .fresh).perform
        (.put 1 10)).2
    let lapsed := { timed with
      agenda.clock := timed.agenda.clock.advanceTo ⟨1000000000000200, by decide, by decide⟩ }
    let used : Running (Recency Nat Nat) Nat Nat :=
      (Running.start ⟨some 2, [(1, 10), (2, 20)]⟩ .lru spec .fresh)
    let giveUp : Option Nat → Except Abort (Option Nat) := fun _ ↦ .error .remap
    lapsed.store.entries.length = 1 ∧
      lapsed.perform (.compute 1 giveUp) = (.failed (.abort .remap), lapsed) ∧
      used.perform (.compute 1 giveUp) = (.failed (.abort .remap),
        { used with store.entries := [(2, 20), (1, 10)] }) := by
  intro spec timed lapsed used giveUp
  have hgivesUp (current : Option Nat) :
      Operation.GivesUp 1 current .remap (.compute 1 giveUp) :=
    .compute rfl
  have hlapsed := (giving_up_leaves_cache (hgivesUp none)).2.1 lapsed.report lapsed
    (by decide +kernel)
  have hused := ((giving_up_leaves_cache (hgivesUp (some 10))).2.2.1 used.report used
    (by decide +kernel)).2 10 rfl
  exact ⟨by decide +kernel, hlapsed, hused.1⟩

end Running

end Caching
