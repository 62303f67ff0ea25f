import Caching.Proofs.Agenda.Parts

/-!
# Chronicles

What happens while an agenda is drained, as a list, in the order in which it happens: entries have
their turn, bodies are attended to, and chains go on. What happens inside a body is for whoever
attends to it to tell, so that a body that drains the agenda itself has its own part of the list.
-/

namespace Caching

/-- Tells of the parts of draining an agenda. -/
structure Chronicler (σ B E : Type) where
  /-- An entry has its turn, and the agenda is the one it has left. The flag tells whether the entry
  is started. -/
  turn : Bool → Entry B → Agenda B → List E
  /-- A run of a body is attended to. -/
  inside : B → Nat → σ → List E
  /-- A chain goes on with its next run. -/
  resume : Agenda B → Handle → Duration → Nat → B → List E

section

variable {σ B E : Type} [HasAgenda σ B]

/-- What happens while a job is done. -/
def Job.chronicle (teller : Chronicler σ B E) (attend : Attend σ B) (job : Job B) (s : σ) :
    List E :=
  match job with
  | .once body => teller.inside body 1 s
  | .link chain period run body =>
    if (agenda s).isCancelled chain then []
    else
      teller.inside body run s ++
        match attend body run s with
        | some (true, s) => teller.resume (agenda s) chain period (run + 1) body
        | _ => []

/-- What happens while an agenda is drained. -/
def drainChronicle (teller : Chronicler σ B E) (attend : Attend σ B) (target : Option Instant) :
    Nat → σ → List E
  | 0, _ => []
  | fuel + 1, s =>
    match (agenda s).take? target with
    | none => []
    | some (live, entry, a) =>
      let s := withAgenda s a
      teller.turn live entry a ++
        if live then
          entry.job.chronicle teller attend s ++
            match entry.job.perform attend s with
            | some (.ok (), s) => drainChronicle teller attend target fuel s
            | _ => []
        else drainChronicle teller attend target fuel s

/-- What happens while time passes. -/
def advanceChronicle (teller : Chronicler σ B E) (attend : Attend σ B) (fuel : Nat) (d : Duration)
    (s : σ) : List E :=
  match (agenda s).clock.now with
  | .error _ => []
  | .ok now => drainChronicle teller attend (now.add? d) fuel s

variable (teller : Chronicler σ B E) {attend : Attend σ B}

/-- What attending to its body adds to a history, and going on with a chain, doing a job adds. -/
theorem Job.perform_told (told : List E → σ → Prop) (ended : Except Abort Unit → List E → σ → Prop)
    {job : Job B} {history : List E} {s s' : σ} {r : Except Abort Unit}
    (hinside : ∀ run again s₁, attend job.body run s = some (again, s₁) →
      told (history ++ teller.inside job.body run s) s₁)
    (hresume : ∀ history chain period run s₁, job = .link chain period run job.body →
      attend job.body run s = some (true, s₁) → told history s₁ →
      match (agenda s₁).arm chain period (run + 1) job.body with
      | .ok a => ended (.ok ())
          (history ++ teller.resume (agenda s₁) chain period (run + 1) job.body) (withAgenda s₁ a)
      | .error abort => ended (.error abort)
          (history ++ teller.resume (agenda s₁) chain period (run + 1) job.body) s₁)
    (hended : ∀ history s, told history s → ended (.ok ()) history s) (h : told history s)
    (hperform : job.perform attend s = some (r, s')) :
    ended r (history ++ job.chronicle teller attend s) s' := by
  cases Job.performed hperform with
  | once hattend => exact hended _ _ (hinside _ _ _ hattend)
  | cancelled hcancelled =>
    rw [Job.chronicle, if_pos hcancelled, List.append_nil]
    exact hended _ _ h
  | ended hlasts hattend =>
    simp only [Job.chronicle, hlasts, Bool.false_eq_true, if_false, hattend, List.append_nil]
    exact hended _ _ (hinside _ _ _ hattend)
  | continued hlasts hattend harm | broken hlasts hattend harm =>
    have hresumed := hresume _ _ _ _ _ rfl hattend (hinside _ _ _ hattend)
    simp only [Job.body, harm, List.append_assoc] at hresumed
    simp only [Job.chronicle, hlasts, Bool.false_eq_true, if_false, hattend]
    exact hresumed

/-- What each entry adds to a history when its turn comes, draining adds. The history is told
together with the number of entries that were started, or with the abort that ended it. -/
theorem drain_told (told : Except Abort Nat → List E → σ → Prop) {target : Option Instant}
    (hskip : ∀ n history s e a, told (.ok n) history s →
      (agenda s).take? target = some (false, e, a) →
      told (.ok n) (history ++ teller.turn false e a) (withAgenda s a))
    (hstart : ∀ n history s e a r s', told (.ok n) history s →
      (agenda s).take? target = some (true, e, a) →
      e.job.perform attend (withAgenda s a) = some (r, s') →
      told (r.map fun _ ↦ n + 1)
        (history ++ teller.turn true e a ++ e.job.chronicle teller attend (withAgenda s a)) s')
    {fuel n : Nat} {history : List E} {s s' : σ} {r : Except Abort Nat}
    (h : told (.ok n) history s) (hdrain : drain attend target fuel s = some (r, s')) :
    told (r.map (n + ·)) (history ++ drainChronicle teller attend target fuel s) s' := by
  induction fuel generalizing n history s r with
  | zero => cases hdrain
  | succ fuel ih =>
    rw [drainChronicle]
    cases drain_succ_iff.mp hdrain with
    | idle htake =>
      rw [htake, List.append_nil]
      exact h
    | skipped htake hrest =>
      simp only [htake, ← List.append_assoc]
      exact ih (hskip n history s _ _ h htake) hrest
    | aborted htake hperform =>
      have haborted := hstart n history s _ _ _ _ h htake hperform
      simp only [htake, if_true, hperform, List.append_nil, ← List.append_assoc]
      exact haborted
    | @started e a s₁ r₁ _ htake hperform hrest =>
      have hended := ih (hstart n history s e a _ s₁ h htake hperform) hrest
      have hcount : (r₁.map (· + 1)).map (n + ·) = r₁.map (n + 1 + ·) := by
        cases r₁ with
        | error abort => rfl
        | ok count =>
          have hsum : n + (count + 1) = n + 1 + count := by omega
          exact congrArg Except.ok hsum
      simp only [htake, if_true, hperform, hcount, ← List.append_assoc]
      exact hended

/-- What draining adds to a history, letting time pass adds. -/
theorem advance_told (told : Except Abort Nat → List E → σ → Prop) {history : List E} {s s' : σ}
    {r : Except Abort Nat} {fuel : Nat} {d : Duration}
    (hunread : ∀ abort, (agenda s).clock.now = .error abort → told (.error abort) history s)
    (hdrained : ∀ now s₁ r, (agenda s).clock.now = .ok now →
      drain attend (now.add? d) fuel s = some (r, s₁) →
      told r (history ++ drainChronicle teller attend (now.add? d) fuel s) s₁)
    (hmoved : ∀ r history s₁ instant, told r history s₁ →
      told r history (withAgenda s₁ ((agenda s₁).readied instant)))
    (hadvance : advance attend fuel d s = some (r, s')) :
    told r (history ++ advanceChronicle teller attend fuel d s) s' := by
  rw [advance] at hadvance
  rw [advanceChronicle]
  cases hnow : (agenda s).clock.now with
  | error abort =>
    simp only [hnow, Option.some.injEq, Prod.mk.injEq] at hadvance ⊢
    obtain ⟨rfl, rfl⟩ := hadvance
    rw [List.append_nil]
    exact hunread abort hnow
  | ok now =>
    cases hdrain : drain attend (now.add? d) fuel s with
    | none => simp [hnow, hdrain] at hadvance
    | some drained =>
      obtain ⟨outcome, s₁⟩ := drained
      have htold := hdrained now s₁ outcome hnow hdrain
      cases outcome with
      | error abort =>
        simp only [hnow, hdrain, Option.some.injEq, Prod.mk.injEq] at hadvance
        obtain ⟨rfl, rfl⟩ := hadvance
        exact htold
      | ok count =>
        simp only [hnow, hdrain] at hadvance
        split at hadvance
        · simp only [Option.some.injEq, Prod.mk.injEq] at hadvance
          obtain ⟨rfl, rfl⟩ := hadvance
          exact htold
        · next instant _ =>
          simp only [Option.some.injEq, Prod.mk.injEq] at hadvance
          obtain ⟨rfl, rfl⟩ := hadvance
          exact hmoved _ _ _ instant htold

end

end Caching
