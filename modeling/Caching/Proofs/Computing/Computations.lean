import Caching.Cache.Registry
import Caching.Proofs.Computing.Retention
import Caching.Proofs.Ledger.Balance
import Caching.Proofs.Script.Attempts
import Caching.Proofs.Spec.Calls
import Caching.Proofs.Timed.Reference

/-!
# Computations

The value of a key is computed if there is none, in three steps: the key is read, the computation
is called, and its value is stored unless there is one by then. Nothing holds the cache in between,
and the computation may do with it whatever it likes, let time pass on the executor, and close the
cache. Whoever is answered a value is answered the one that the cache holds.
-/

namespace Caching

variable {σ K V : Type}

/-- What is seen of a computation. -/
inductive Watched (K V : Type) where
  /-- It is called. -/
  | called
  | made (move : Move K V)

namespace Running

section

variable [Engine σ K V] [DecidableEq V]

/-- Makes a move. Whoever lets time pass is told how many duties were attended to, or of the abort.
There is no reply if an advance needs more fuel. -/
def make (fuel : Nat) (move : Move K V) (w : Running σ K V) : Option (Reply V × Running σ K V) :=
  match move with
  | .use script => some (w.follow script)
  | .advance d =>
    match w.advance fuel d with
    | some (.ok count, w) => some (.ok (.count count), w)
    | some (.error abort, w) => some (.failed (.abort abort), w)
    | none => none
  | .moveClock d =>
    match w.agenda.moveClock d with
    | .ok agenda => some (.ok .done, { w with agenda })
    | .error abort => some (.failed (.abort abort), w)
  | .shutdown => some (.ok .done, { w with agenda := w.agenda.shutdown })

/-- Makes the moves of a computation, and counts its calls. -/
def watch (fuel : Nat) (step : Watched K V) (r : Running σ K V × Nat) :
    Option (Reply V × Running σ K V × Nat) :=
  match step with
  | .called => some (.ok .done, r.1, r.2 + 1)
  | .made move => (r.1.make fuel move).map fun (reply, w) ↦ (reply, w, r.2)

/-- The value of a key, by a computation that uses the cache if there is none: the reply, the cache
that is left, and how often the computation was called. -/
def computing (fuel : Nat) (key : K) (computation : Script (Move K V) (Reply V) (Except Abort V))
    (w : Running σ K V) : Option (Reply V × Running σ K V × Nat) :=
  (computeIfAbsentBy (fun operation ↦ .made (.use (.single operation))) key
    (.call .called fun _ ↦ computation.translate .made)).attempt (watch fuel) (w, 0)

/-- What is made of the result of a computation: a value is stored unless there is one. -/
def concluded (key : K) (result : Except Abort V) (left : Running σ K V) :
    Reply V × Running σ K V :=
  match result with
  | .error abort => (.failed (.abort abort), left)
  | .ok value =>
    let (reply, w) := left.perform (.putIfAbsent key value)
    let outcome := match reply.outcome with
      | .ok (.value none) => .ok (.value (some value))
      | outcome => outcome
    (⟨outcome, [none]⟩, w)

variable {fuel : Nat} {key : K} {computation : Script (Move K V) (Reply V) (Except Abort V)}
  {w : Running σ K V}

private theorem computing_of_absent (h : (w.perform (.get key)).1.outcome = .ok (.value none)) :
    w.computing fuel key computation =
      (computation.attempt (make fuel) (w.perform (.get key)).2).map fun r ↦
        ((concluded key r.1 r.2).1, (concluded key r.1 r.2).2, 1) := by
  have hmove (move : Move K V) (v : Running σ K V) :
      watch fuel (.made move) (v, 1) = (v.make fuel move).map fun r ↦ (r.1, r.2, 1) := rfl
  rw [computing, computeIfAbsentBy, Script.attempt]
  simp only [watch, make, follow, Script.run_single, Option.map_some, h]
  rw [Script.attempt_andThen, Script.attempt]
  simp only [watch, Nat.zero_add]
  rw [Script.attempt_translate (g := fun v ↦ (v, 1)) hmove computation]
  cases computation.attempt (make fuel) (w.perform (.get key)).2 with
  | none => rfl
  | some r =>
    obtain ⟨result, left⟩ := r
    cases result with
    | error abort => rfl
    | ok value =>
      simp only [Option.map_some, Option.bind_some, Script.attempt, watch, make, follow,
        Script.run_single, concluded]
      rcases (left.perform (.putIfAbsent key value)).1.outcome with failure | ⟨_ | _⟩ | _ <;> rfl

private theorem computing_of_answered (h : (w.perform (.get key)).1.outcome ≠ .ok (.value none)) :
    w.computing fuel key computation =
      some ((w.perform (.get key)).1, (w.perform (.get key)).2, 0) := by
  rw [computing, computeIfAbsentBy, Script.attempt]
  simp only [watch, make, follow, Script.run_single, Option.map_some]
  rcases houtcome : (w.perform (.get key)).1.outcome with failure | ⟨_ | _⟩ | _
  · rfl
  · contradiction
  all_goals rfl

private theorem concluded_of_closed {left : Running σ K V} (h : left.phase = .closed) (value : V) :
    concluded key (.ok value) left =
      (⟨.error (.fault (.closedCache left.provider)), [none]⟩, left) := by
  have hput : left.perform (.putIfAbsent key value) = (.refused left.provider, left) :=
    performWith_of_closed left.report h _
  simp only [concluded, hput]
  rfl

private theorem concluded_of_unread {left : Running σ K V} (h : left.phase = .active)
    {abort : Abort} (habort : Engine.reading left = .error abort) (value : V) :
    concluded key (.ok value) left = (⟨.error (.abort abort), [none]⟩, left) := by
  have hput : left.perform (.putIfAbsent key value) = (.failed (.abort abort), left) :=
    performWith_of_unread left.report h habort (by simp)
  simp only [concluded, hput]
  rfl

private theorem concluded_of_outcome {left : Running σ K V} {value : V} {current : Option V}
    (h : (left.perform (.putIfAbsent key value)).1.outcome = .ok (.value current)) :
    concluded key (.ok value) left = (⟨.ok (.value (some (current.getD value))), [none]⟩,
      (left.perform (.putIfAbsent key value)).2) := by
  simp only [concluded, h]
  cases current <;> rfl

/-- While the clock cannot be read, a computation is not called, and nothing changes. -/
theorem computing_of_unread (hactive : w.phase = .active) {abort : Abort}
    (habort : Engine.reading w = .error abort) :
    w.computing fuel key computation = some (.failed (.abort abort), w, 0) := by
  have hget : w.perform (.get key) = (.failed (.abort abort), w) :=
    performWith_of_unread w.report hactive habort (by simp)
  rw [computing_of_answered (by simp [hget, Reply.failed]), hget]

private theorem Leads.attempt {start left : Running σ K V}
    {dialogue : List (Operation K V × Reply V)}
    (h : Leads start dialogue w) {result : Except Abort V}
    (hattempt : computation.attempt (make fuel) w = some (result, left)) :
    Leads start dialogue left := by
  refine Script.attempt_invariant ?_ computation hattempt h
  intro move v reply v' hmake hv
  cases move with
  | use script =>
    have hleft : (v.follow script).2 = v' := congrArg Prod.snd (Option.some.inj hmake)
    exact hleft ▸ hv.follow script
  | advance d =>
    obtain ⟨more, hmore⟩ := hv
    rw [make] at hmake
    split at hmake
    · next count v₁ hadvance =>
      cases hmake
      obtain ⟨later, hlater⟩ := hmore.advance hadvance
      exact ⟨more ++ later, List.append_assoc .. ▸ hlater⟩
    · next abort v₁ hadvance =>
      cases hmake
      obtain ⟨later, hlater⟩ := hmore.advance hadvance
      exact ⟨more ++ later, List.append_assoc .. ▸ hlater⟩
    · cases hmake
  | moveClock d =>
    rw [make] at hmake
    split at hmake
    · cases hmake
      exact hv.withAgenda _
    · cases hmake
      exact hv
  | shutdown =>
    cases hmake
    exact hv.withAgenda _

/-- The clock can be read, and the key has the value then, or none. -/
def Finds (holdings : σ → List (Holding K V)) (key : K) (current : Option V) [DecidableEq K]
    (w : Running σ K V) : Prop :=
  ∃ now, Engine.reading w = .ok now ∧ Holding.valueAt now key (holdings w.store) = current

/-- What becomes of a computation for a key, on an open cache that holds something. -/
structure Computes [DecidableEq K] (holdings : σ → List (Holding K V)) (fuel : Nat) (key : K)
    (computation : Script (Move K V) (Reply V) (Except Abort V)) (w : Running σ K V) : Prop where
  /-- While the clock cannot be read, it is not called, and nothing changes. -/
  unread : ∀ abort, Engine.reading w = .error abort →
    w.computing fuel key computation = some (.failed (.abort abort), w, 0)
  /-- If there is a value, that is answered, and it is not called. -/
  present : ∀ value, w.Finds holdings key (some value) →
    w.computing fuel key computation =
      some (.ok (.value (some value)), (w.perform (.get key)).2, 0)
  /-- If there is none, it is called once. If it gives up, so does the operation. -/
  gaveUp : w.Finds holdings key none → ∀ abort left,
    computation.attempt (make fuel) (w.perform (.get key)).2 = some (.error abort, left) →
    w.computing fuel key computation = some (.failed (.abort abort), left, 1)
  /-- If it closed the cache, the operation is refused and stores nothing. -/
  closed : w.Finds holdings key none → ∀ value left,
    computation.attempt (make fuel) (w.perform (.get key)).2 = some (.ok value, left) →
    left.phase = .closed → w.computing fuel key computation =
      some (⟨.error (.fault (.closedCache left.provider)), [none]⟩, left, 1)
  /-- If the clock cannot be read any more, nothing is stored. -/
  late : w.Finds holdings key none → ∀ value left,
    computation.attempt (make fuel) (w.perform (.get key)).2 = some (.ok value, left) →
    left.phase = .active → ∀ abort, Engine.reading left = .error abort →
    w.computing fuel key computation = some (⟨.error (.abort abort), [none]⟩, left, 1)
  /-- If it left a value of its own for the key, that wins, and nobody is told. -/
  own : w.Finds holdings key none → ∀ value left,
    computation.attempt (make fuel) (w.perform (.get key)).2 = some (.ok value, left) →
    left.phase = .active → ∀ other, left.Finds holdings key (some other) →
    ∃ reply w', w.computing fuel key computation = some (reply, w', 1) ∧
      reply.outcome = .ok (.value (some other)) ∧ w'.heard = left.heard ∧
      (holdings w'.store).Perm (holdings left.store)
  /-- If not, its value is answered. -/
  stored : w.Finds holdings key none → ∀ value left,
    computation.attempt (make fuel) (w.perform (.get key)).2 = some (.ok value, left) →
    left.phase = .active → left.Finds holdings key none →
    ∃ reply w', w.computing fuel key computation = some (reply, w', 1) ∧
      reply.outcome = .ok (.value (some value))
  /-- Whatever is answered is what the cache holds for the key, and all that it holds for it. -/
  held : ∀ reply w' calls answer,
    w.computing fuel key computation = some (reply, w', calls) → reply.outcome = .ok answer →
    Holding.Distinct (holdings w'.store) ∧
      ∃ value, answer = .value (some value) ∧ w'.Finds holdings key (some value)

end

section

open Custodian (held)

variable [DecidableEq K] [DecidableEq V] [Engine σ K V] [LawfulEngine σ K V] [Custodian σ K V]
  [Retentive σ K V] {start w left : Running σ K V} {dialogue : List (Operation K V × Reply V)}
  {fuel : Nat} {key : K} {computation : Script (Move K V) (Reply V) (Except Abort V)}
  {now : Instant} {value : V}

namespace IsSteady

/-- An operation on one key answers by what is held. -/
theorem perform_key (h : w.IsSteady) (hactive : w.phase = .active)
    (hnow : Engine.reading w = .ok now) {operation : Operation K V}
    (hkey : operation.key? = some key) {current : Option V}
    (hcurrent : Holding.valueAt now key (held w.store) = current) :
    w.perform operation = (operation.answer current, Running.settle w.report
      (LawfulEngine.carry now key (operation.deed current) w)) := by
  rw [Running.perform, performWith_of_key w.report hkey hactive hnow, h.current?_eq, hcurrent]

private theorem finds_settle (h : w.IsSteady) (hnow : Engine.reading w = .ok now) (deed : Deed V)
    {current : Option V}
    (hcurrent : LawfulEngine.current? now key (LawfulEngine.carry now key deed w).2 = current) :
    (Running.settle w.report (LawfulEngine.carry now key deed w)).Finds held key current := by
  have hquiet := h.quiet
  have hframes := LawfulEngine.carry_frames now key deed w
  obtain ⟨hstore, _, _⟩ := settle_of_quiet hquiet hframes w.depth
  have hsteady := h.carry now key deed w.depth
  have hdistinct : (LawfulEngine.carry now key deed w).2.HoldsDistinct := by
    have hd := hsteady.distinct
    rwa [HoldsDistinct, hstore] at hd
  refine ⟨now, (h.reading_settle now key deed w.depth).trans hnow, ?_⟩
  rw [report, hstore, ← Retentive.current?_eq now key _ hdistinct]
  exact hcurrent

private theorem get_of_present (h : w.IsSteady) (hactive : w.phase = .active)
    (hfinds : w.Finds held key (some value)) :
    (w.perform (.get key)).1 = .ok (.value (some value)) ∧
      (w.perform (.get key)).2.Finds held key (some value) := by
  obtain ⟨now, hnow, hvalue⟩ := hfinds
  rw [h.perform_key hactive hnow rfl hvalue]
  refine ⟨rfl, h.finds_settle hnow _ ?_⟩
  apply Retentive.current?_read now key w value h.lasting
  rw [h.current?_eq, hvalue]

private theorem putIfAbsent_of_present (h : w.IsSteady) (value : V) (hactive : w.phase = .active)
    {other : V} (hfinds : w.Finds held key (some other)) :
    (w.perform (.putIfAbsent key value)).1.outcome = .ok (.value (some other)) ∧
      (w.perform (.putIfAbsent key value)).2.Finds held key (some other) ∧
      (w.perform (.putIfAbsent key value)).2.heard = w.heard ∧
      (held (w.perform (.putIfAbsent key value)).2.store : List (Holding K V)).Perm
        (held w.store) := by
  obtain ⟨now, hnow, hother⟩ := hfinds
  have hcurrent : LawfulEngine.current? now key w = some other := by
    rw [h.current?_eq, hother]
  obtain ⟨hnobody, hperm⟩ := Retentive.keeps now key w other h.distinct hcurrent
  have hkept : (w.perform (.putIfAbsent key value)).2 =
      (LawfulEngine.carry now key .keep w).2 := by
    rw [h.perform_key hactive hnow rfl hother, Operation.deed, Running.settle, hnobody, tell_nil]
  have hdistinct : (LawfulEngine.carry now key .keep w).2.HoldsDistinct :=
    (hperm.map Holding.key).nodup_iff.mpr h.distinct
  refine ⟨?_, ?_, ?_, ?_⟩
  · rw [h.perform_key hactive hnow rfl hother]
    rfl
  · refine ⟨now, ?_, ?_⟩
    · rw [hkept, Retentive.reading_carry, hnow]
    · rw [hkept, Holding.valueAt_perm hperm hdistinct, hother]
  · obtain ⟨store, agenda, log, hframes⟩ := LawfulEngine.carry_frames now key .keep w
    rw [hkept, hframes]
  · rw [hkept]
    exact hperm

private theorem putIfAbsent_of_absent (h : w.IsSteady) (value : V) (hactive : w.phase = .active)
    (hfinds : w.Finds held key none) :
    (w.perform (.putIfAbsent key value)).1.outcome = .ok (.value none) ∧
      (w.perform (.putIfAbsent key value)).2.Finds held key (some value) := by
  obtain ⟨now, hnow, hnone⟩ := hfinds
  rw [h.perform_key hactive hnow rfl hnone]
  exact ⟨rfl, h.finds_settle hnow _ (Retentive.current?_store now key value w h.lasting)⟩

private theorem attempt (h : w.IsSteady) {result : Except Abort V}
    (hattempt : computation.attempt (make fuel) w = some (result, left)) : left.IsSteady := by
  obtain ⟨_, hleft⟩ := (Leads.refl .start).attempt hattempt
  exact h.undergoes hleft

private theorem computing_of_present (h : w.IsSteady) (hactive : w.phase = .active)
    (hfinds : w.Finds held key (some value)) : w.computing fuel key computation =
      some (.ok (.value (some value)), (w.perform (.get key)).2, 0) := by
  have hget := (h.get_of_present hactive hfinds).1
  rw [computing_of_answered (by simp [hget, Reply.ok]), hget]

private theorem computing_of_finds_none (h : w.IsSteady) (hactive : w.phase = .active)
    (hfinds : w.Finds held key none) : w.computing fuel key computation =
      (computation.attempt (make fuel) (w.perform (.get key)).2).map fun r ↦
        ((concluded key r.1 r.2).1, (concluded key r.1 r.2).2, 1) := by
  obtain ⟨now, hnow, hnone⟩ := hfinds
  have hget : (w.perform (.get key)).1.outcome = .ok (.value none) := by
    rw [h.perform_key hactive hnow rfl hnone]
    rfl
  exact computing_of_absent hget

private theorem finds_concluded (h : left.IsSteady) {result : Except Abort V} {answer : Answer V}
    (hanswer : (concluded key result left).1.outcome = .ok answer) :
    (concluded key result left).2.IsSteady ∧
      ∃ value, answer = .value (some value) ∧
        (concluded key result left).2.Finds held key (some value) := by
  cases result with
  | error abort => cases hanswer
  | ok value =>
    have hsteady := h.perform (.putIfAbsent key value)
    cases hphase : left.phase with
    | closed =>
      rw [concluded_of_closed hphase] at hanswer
      cases hanswer
    | active =>
      cases hnow : Engine.reading left with
      | error abort =>
        rw [concluded_of_unread hphase hnow] at hanswer
        cases hanswer
      | ok now =>
        cases hcurrent : Holding.valueAt now key (held left.store : List (Holding K V)) with
        | some other =>
          obtain ⟨houtcome, hfinds, _⟩ :=
            h.putIfAbsent_of_present value hphase ⟨now, hnow, hcurrent⟩
          rw [concluded_of_outcome houtcome] at hanswer ⊢
          exact ⟨hsteady, other, (Except.ok.inj hanswer).symm, hfinds⟩
        | none =>
          obtain ⟨houtcome, hfinds⟩ :=
            h.putIfAbsent_of_absent value hphase ⟨now, hnow, hcurrent⟩
          rw [concluded_of_outcome houtcome] at hanswer ⊢
          exact ⟨hsteady, value, (Except.ok.inj hanswer).symm, hfinds⟩

private theorem finds_computing (h : w.IsSteady) (hactive : w.phase = .active) {reply : Reply V}
    {w' : Running σ K V} {calls : Nat} {answer : Answer V}
    (hcomputing : w.computing fuel key computation = some (reply, w', calls))
    (hanswer : reply.outcome = .ok answer) :
    w'.IsSteady ∧ ∃ value, answer = .value (some value) ∧ w'.Finds held key (some value) := by
  cases hnow : Engine.reading w with
  | error abort =>
    rw [computing_of_unread hactive hnow] at hcomputing
    cases hcomputing
    cases hanswer
  | ok now =>
    cases hcurrent : Holding.valueAt now key (held w.store : List (Holding K V)) with
    | some value =>
      have hfinds : w.Finds held key (some value) := ⟨now, hnow, hcurrent⟩
      rw [h.computing_of_present hactive hfinds] at hcomputing
      cases hcomputing
      exact ⟨h.perform _, value, (Except.ok.inj hanswer).symm,
        (h.get_of_present hactive hfinds).2⟩
    | none =>
      rw [h.computing_of_finds_none hactive ⟨now, hnow, hcurrent⟩] at hcomputing
      obtain ⟨⟨result, left⟩, hattempt, hconcluded⟩ := Option.map_eq_some_iff.mp hcomputing
      cases hconcluded
      exact ((h.perform (.get key)).attempt hattempt).finds_concluded hanswer

/-- On a steady cache that is open, every computation comes to this. -/
theorem computes (h : w.IsSteady) (hactive : w.phase = .active) (fuel : Nat) (key : K)
    (computation : Script (Move K V) (Reply V) (Except Abort V)) :
    Computes held fuel key computation w := by
  have hcalled (hfinds : w.Finds held key none) {result : Except Abort V} {left : Running σ K V}
      (hattempt : computation.attempt (make fuel) (w.perform (.get key)).2 =
        some (result, left)) :
      w.computing fuel key computation =
        some ((concluded key result left).1, (concluded key result left).2, 1) := by
    rw [h.computing_of_finds_none hactive hfinds, hattempt, Option.map_some]
  refine ⟨?unread, ?present, ?gaveUp, ?closed, ?late, ?own, ?stored, ?held⟩
  case unread => exact fun abort habort ↦ computing_of_unread hactive habort
  case present => exact fun value hfinds ↦ h.computing_of_present hactive hfinds
  case gaveUp =>
    intro hfinds abort left hattempt
    exact hcalled hfinds hattempt
  case closed =>
    intro hfinds value left hattempt hclosed
    rw [hcalled hfinds hattempt, concluded_of_closed hclosed]
  case late =>
    intro hfinds value left hattempt hopen abort habort
    rw [hcalled hfinds hattempt, concluded_of_unread hopen habort]
  case own =>
    intro hfinds value left hattempt hopen other hother
    obtain ⟨houtcome, _, hheard, hperm⟩ :=
      ((h.perform _).attempt hattempt).putIfAbsent_of_present value hopen hother
    rw [hcalled hfinds hattempt, concluded_of_outcome houtcome]
    exact ⟨_, _, rfl, rfl, hheard, hperm⟩
  case stored =>
    intro hfinds value left hattempt hopen hnone
    obtain ⟨houtcome, _⟩ :=
      ((h.perform _).attempt hattempt).putIfAbsent_of_absent value hopen hnone
    rw [hcalled hfinds hattempt, concluded_of_outcome houtcome]
    exact ⟨_, _, rfl, rfl⟩
  case held =>
    intro reply w' calls answer hcomputing hanswer
    obtain ⟨hsteady, hheld⟩ := h.finds_computing hactive hcomputing hanswer
    exact ⟨hsteady.distinct, hheld⟩

end IsSteady

end

end Running

section

variable [DecidableEq K]

/-- A recency cache starts steady, if its listener never calls back. -/
theorem Recency.isSteady_start {bound : Option Nat} {spec : CacheSpec K V} {provider : Provider}
    {host : Clock} (h : (Running.start (Recency.empty bound : Recency K V) provider spec
      host).IsQuiet) :
    (Running.start (Recency.empty bound : Recency K V) provider spec host).IsSteady :=
  ⟨List.nodup_nil, h, trivial⟩

/-- So does a timed cache, if its specification is sound. -/
theorem Timed.isSteady_start {spec : CacheSpec K V} (hsound : spec.IsSound) {provider : Provider}
    {host : Clock} (h : (Running.start (Timed.empty spec.engineExpiry : Timed K V) provider spec
      host).IsQuiet) :
    (Running.start (Timed.empty spec.engineExpiry : Timed K V) provider spec host).IsSteady := by
  refine ⟨List.nodup_nil, h, ?_⟩
  intro e he
  obtain ⟨⟨kind, time⟩, hexpiry, rfl⟩ := Option.map_eq_some_iff.mp he
  rw [Spec.expiry] at hexpiry
  split at hexpiry
  · obtain ⟨_, htime, hpair⟩ := Option.map_eq_some_iff.mp hexpiry
    cases hpair
    exact (hsound.time _ htime).1
  · cases hexpiry

variable [DecidableEq V]

/-- A computed value that is answered is the one that the cache holds. On a recency or a timed cache
whose listener never calls back, in every state that it can come to while it is open, and whatever
the computation does with the cache and with the executor's clock: it is called once if the key has
no live value, and not at all if it has one or the clock cannot be read. A live value that it has
left for the key itself wins without anybody being told. If it has closed the cache, the operation
is refused, and nothing is stored. -/
theorem Cache.computes_what_it_holds {registry : Registry}
    {configuration : Builder.Configuration (Listener K V) (Agenda (Duty K V))} {host : Host}
    {cache : Cache K V} {log : List LogEntry}
    (hcreated : registry.createWith configuration host = (.ok cache, log))
    (hkind : cache.kind = .recency ∨ cache.kind = .timed) (hquiet : cache.body.IsQuiet)
    {dialogue : List (Operation K V × Reply V)} {w : Running (cache.kind.Store K V) K V}
    (h : cache.body.Undergoes dialogue w) (hactive : w.phase = .active) (fuel : Nat) (key : K)
    (computation : Script (Move K V) (Reply V) (Except Abort V)) :
    w.Computes cache.kind.holdings fuel key computation := by
  unfold Registry.createWith at hcreated
  split at hcreated
  · cases hcreated
  · next spec hspec =>
    have hsound := Builder.sound_of_specified hspec
    cases Registry.starts_create hcreated with
    | recency =>
      have hsteady := (Recency.isSteady_start hquiet).undergoes h
      exact hsteady.computes hactive fuel key computation
    | timed =>
      have hsteady := (Timed.isSteady_start hsound hquiet).undergoes h
      exact hsteady.computes hactive fuel key computation
    | vacant | deferred | kept => simp at hkind

/-- A computation for a key that has lapsed lets more time pass and stores a value of its own. -/
theorem Cache.computes_what_it_holds_of_own :
    let configuration : Builder.Configuration (Listener Nat Nat) (Agenda (Duty Nat Nat)) :=
      .ofCalls [.provider .dashMap, .expiryType .postWrite, .expiryTime ⟨100, by decide⟩,
        .executor (.ofClock .fresh)]
    let spec : CacheSpec Nat Nat :=
      ⟨some .dashMap, none, .postWrite, some ⟨100, by decide⟩, none, some (.ofClock .fresh), false⟩
    let body : Running (Timed Nat Nat) Nat Nat :=
      Running.start (Timed.empty spec.engineExpiry) .dashMap spec .fresh
    let stored := (body.perform (.put 1 10)).2
    let w := { stored with agenda.clock.elapsed := ⟨100, by decide⟩ }
    let computation : Script (Move Nat Nat) (Reply Nat) (Except Abort Nat) :=
      .call (.advance ⟨50, by decide⟩) fun _ ↦ .call (.use (.single (.put 1 7))) fun _ ↦
        .done (.ok 5)
    (Registry.builtin.createWith configuration .fresh).1 = .ok ⟨.timed, body⟩ ∧
      body.IsQuiet ∧ w.phase = .active ∧ w.Finds Timed.held 1 none ∧
      ∃ reply w', w.computing 10 1 computation = some (reply, w', 1) ∧
        reply.outcome = .ok (.value (some 7)) ∧ w'.Finds Timed.held 1 (some 7) := by
  intro configuration spec body stored w computation
  have hcreated : Registry.builtin.createWith configuration .fresh =
      (.ok ⟨.timed, body⟩, (Registry.builtin.createWith configuration .fresh).2) := rfl
  have hquiet : body.IsQuiet := nofun
  have hstored : body.Undergoes _ stored := Running.Undergoes.start.operate (.put 1 10)
  have hlater {dialogue} {v : Running (Timed Nat Nat) Nat Nat} (h : body.Undergoes dialogue v)
      (elapsed : Duration) : body.Undergoes dialogue { v with agenda.clock.elapsed := elapsed } :=
    h.rearrange _ v.host
  have hhistory : body.Undergoes _ w := hlater hstored _
  have hactive : w.phase = .active := by decide +kernel
  have hcomputes := Cache.computes_what_it_holds hcreated (.inr rfl) hquiet hhistory hactive 10 1
    computation
  have hreading : Engine.reading w = .ok ⟨1000000000000100, by decide, by decide⟩ := by
    decide +kernel
  have hfinds : w.Finds Timed.held 1 none := ⟨_, hreading, by decide +kernel⟩
  have hrun : (w.computing 10 1 computation).map (fun r ↦ (r.1.outcome, r.2.2)) =
      some (.ok (.value (some 7)), 1) := by decide +kernel
  obtain ⟨⟨reply, w', calls⟩, hcomputing, hrun⟩ := Option.map_eq_some_iff.mp hrun
  obtain ⟨houtcome, rfl⟩ := Prod.mk.inj hrun
  obtain ⟨_, value, hvalue, hheld⟩ := hcomputes.held reply w' _ _ hcomputing houtcome
  cases hvalue
  exact ⟨rfl, hquiet, hactive, hfinds, reply, w', hcomputing, houtcome, hheld⟩

/-- While the clock of the executor is beyond the last instant, no computation is called, though
nothing is held. -/
theorem Cache.computes_nothing_beyond_clock :
    let configuration : Builder.Configuration (Listener Nat Nat) (Agenda (Duty Nat Nat)) :=
      .ofCalls [.provider .dashMap, .expiryType .postWrite, .expiryTime ⟨1000000000, by decide⟩,
        .executor (.ofClock .fresh)]
    let spec : CacheSpec Nat Nat := ⟨some .dashMap, none, .postWrite,
      some ⟨1000000000, by decide⟩, none, some (.ofClock .fresh), false⟩
    let body : Running (Timed Nat Nat) Nat Nat :=
      Running.start (Timed.empty spec.engineExpiry) .dashMap spec .fresh
    let w := { body with agenda.clock.elapsed := ⟨18446744073709551615999999999, by decide⟩ }
    (Registry.builtin.createWith configuration .fresh).1 = .ok ⟨.timed, body⟩ ∧
      body.IsQuiet ∧ body.Undergoes [] w ∧
      body.make 0 (.moveClock ⟨18446744073709551615999999999, by decide⟩) =
        some (.ok .done, w) ∧
      w.phase = .active ∧ Timed.held w.store = ([] : List (Holding Nat Nat)) ∧
      w.computing 0 1 (.done (.ok 5)) = some (.failed (.abort .instantRange), w, 0) := by
  intro configuration spec body w
  have hquiet : body.IsQuiet := nofun
  have hhistory : body.Undergoes [] w := Running.Undergoes.start.rearrange w.agenda w.host
  have hreading : Engine.reading w = .error .instantRange := by decide +kernel
  have hactive : w.phase = .active := rfl
  have hadvance : body.agenda.clock.advance ⟨18446744073709551615999999999, by decide⟩ =
      .ok w.agenda.clock := by decide +kernel
  have hmake : body.make 0 (.moveClock ⟨18446744073709551615999999999, by decide⟩) =
      some (.ok .done, w) := by
    rw [Running.make, Agenda.moveClock, hadvance]
    rfl
  exact ⟨rfl, hquiet, hhistory, hmake, hactive, rfl,
    Running.computing_of_unread hactive hreading⟩

end

end Caching
