import Caching.Proofs.Agenda.Drain

/-!
# Time that passes in parts

Draining an agenda up to an instant, moving the clock there and draining it further is the same as
draining it at once, as long as nothing that is started moves the clock: the entries that are due by
that instant are exactly those that are taken before any other one. The clock stands at that instant
in between in the one run only, but the next entry that is taken moves it beyond.
-/

namespace Caching

/-- The agenda is a part of the state of its own. -/
class LawfulAgenda (σ : Type) {B : Type} [HasAgenda σ B] : Prop where
  agenda_withAgenda (s : σ) (a : Agenda B) : agenda (withAgenda s a) = a
  withAgenda_withAgenda (s : σ) (a b : Agenda B) : withAgenda (withAgenda s a) b = withAgenda s b

attribute [simp] LawfulAgenda.agenda_withAgenda LawfulAgenda.withAgenda_withAgenda

namespace Agenda

variable {B : Type} {a b : Agenda B} {first last instant : Instant} {live : Bool} {e : Entry B}

/-- The agenda with its clock moved on to an instant. -/
def readied (a : Agenda B) (instant : Instant) : Agenda B :=
  { a with clock := a.clock.advanceTo instant }

private theorem readied_readied (h : first ≤ last) :
    (a.readied first).readied last = a.readied last := by
  simp only [readied, Clock.advanceTo_advanceTo h]

private theorem take?_readied_eq_none (h : a.take? (some last) = none) :
    (a.readied instant).take? (some last) = none := by
  rw [take?_eq_none_iff] at h ⊢
  exact h

/-- An entry that is due within a target is taken for an earlier target as well, if it is due within
that one. -/
theorem take?_of_le (h : a.take? (some last) = some (live, e, b)) (hle : e.due ≤ first) :
    a.take? (some first) = some (live, e, b) := by
  rw [take?_eq_some_iff] at h ⊢
  exact ⟨h.1, decide_eq_true hle, h.2.2⟩

private theorem take?_of_le_target (h : a.take? (some first) = some (live, e, b))
    (hle : first ≤ last) : a.take? (some last) = some (live, e, b) := by
  rw [take?_eq_some_iff] at h ⊢
  have hdue : e.due ≤ first := of_decide_eq_true h.2.1
  exact ⟨h.1, decide_eq_true (Int.le_trans hdue hle), h.2.2⟩

private theorem le_of_take?_eq_none (hnone : a.take? (some first) = none)
    (h : a.take? (some last) = some (live, e, b)) : first ≤ e.due := by
  by_cases hbefore : e.due ≤ first
  · rw [take?_of_le h hbefore] at hnone
    cases hnone
  · rw [Instant.le_iff] at hbefore ⊢
    omega

private theorem now_of_take? (h : a.take? (some first) = some (live, e, b)) {now : Instant}
    (hnow : a.clock.now = .ok now) (hle : now ≤ first) :
    ∃ later, b.clock.now = .ok later ∧ later ≤ first := by
  obtain ⟨-, hwithin, -, rest, -, rfl⟩ := take?_eq_some_iff.mp h
  refine ⟨if now ≤ e.due then e.due else now, Clock.now_advanceTo hnow e.due, ?_⟩
  split
  · exact of_decide_eq_true hwithin
  · exact hle

/-- Taking an entry moves the clock beyond every instant before its due one, so it makes no
difference whether the clock was there already. -/
theorem take?_readied (h : a.take? (some last) = some (live, e, b)) (hle : instant ≤ e.due) :
    (a.readied instant).take? (some last) = some (live, e, b) := by
  rw [take?_eq_some_iff] at h ⊢
  obtain ⟨hstopped, hwithin, hlive, rest, hqueue, rfl⟩ := h
  refine ⟨hstopped, hwithin, hlive, rest, hqueue, ?_⟩
  simp only [left, readied, Clock.advanceTo_advanceTo hle]
  rfl

end Agenda

section

variable {σ B : Type} [HasAgenda σ B] {attend : Attend σ B}

/-- A job is not aborted if its chain can go on. -/
theorem Job.perform_ok (job : Job B) {s s' : σ} {r : Except Abort Unit}
    (harm : ∀ chain period run body again s', job = .link chain period run body →
      attend body run s = some (again, s') →
      ∃ a, (agenda s').arm chain period (run + 1) body = .ok a)
    (hperform : job.perform attend s = some (r, s')) : r = .ok () := by
  cases Job.performed hperform with
  | once | cancelled | ended | continued => rfl
  | broken _ hattend hbroken =>
    obtain ⟨a, ha⟩ := harm _ _ _ _ _ _ rfl hattend
    rw [hbroken] at ha
    cases ha

/-- A job is aborted only if the clock cannot be read when its chain is to go on. -/
theorem Job.now_of_perform_eq_error {job : Job B} {s s' : σ} {abort : Abort}
    (hperform : job.perform attend s = some (.error abort, s')) :
    (agenda s').clock.now = .error abort := by
  cases Job.performed hperform with
  | broken _ _ harm => exact Agenda.now_of_arm_eq_error harm

/-- Draining is not aborted if nothing that is started is. -/
theorem drain_ok {kept : σ → Prop} {target : Option Instant}
    (hskip : ∀ s e a, kept s → (agenda s).take? target = some (false, e, a) →
      kept (withAgenda s a))
    (hstart : ∀ s e a r s', kept s → (agenda s).take? target = some (true, e, a) →
      e.job.perform attend (withAgenda s a) = some (r, s') → r = .ok () ∧ kept s')
    {fuel : Nat} {s s' : σ} {r : Except Abort Nat} (h : kept s)
    (hdrain : drain attend target fuel s = some (r, s')) : ∃ count, r = .ok count := by
  induction fuel generalizing s r with
  | zero => cases hdrain
  | succ fuel ih =>
    cases drain_succ_iff.mp hdrain with
    | idle => exact ⟨0, rfl⟩
    | skipped htake hrest => exact ih (hskip _ _ _ h htake) hrest
    | started htake hperform hrest =>
      obtain ⟨count, rfl⟩ := ih (hstart _ _ _ _ _ h htake hperform).2 hrest
      exact ⟨count + 1, rfl⟩
    | aborted htake hperform => cases (hstart _ _ _ _ _ h htake hperform).1

/-- Letting time pass is not aborted if the clock can be read and nothing that is started is
aborted. -/
theorem advance_ok {kept : σ → Prop} {d : Duration} {now : Instant}
    (hskip : ∀ s e a, kept s → (agenda s).take? (now.add? d) = some (false, e, a) →
      kept (withAgenda s a))
    (hstart : ∀ s e a r s', kept s → (agenda s).take? (now.add? d) = some (true, e, a) →
      e.job.perform attend (withAgenda s a) = some (r, s') → r = .ok () ∧ kept s')
    {fuel : Nat} {s s' : σ} {r : Except Abort Nat} (h : kept s)
    (hnow : (agenda s).clock.now = .ok now) (hadvance : advance attend fuel d s = some (r, s')) :
    ∃ count, r = .ok count := by
  rcases advance_cases hadvance with ⟨_, herror, _⟩ | ⟨now', s₁, hnow', hdrain, _⟩
  · rw [hnow] at herror
    cases herror
  · rw [hnow, Except.ok.injEq] at hnow'
    subst hnow'
    exact drain_ok hskip hstart h hdrain

/-- Letting time pass is draining and then moving the clock on, as long as both ends of that time
are instants. -/
theorem advance_eq_ok_iff {now instant : Instant} {d : Duration} {fuel count : Nat} {s s' : σ}
    (hnow : (agenda s).clock.now = .ok now) (hend : now.add? d = some instant) :
    advance attend fuel d s = some (.ok count, s') ↔
      ∃ s₁, drain attend (some instant) fuel s = some (.ok count, s₁) ∧
        withAgenda s₁ ((agenda s₁).readied instant) = s' := by
  rw [advance, hnow]
  simp only [hend]
  cases drain attend (some instant) fuel s with
  | none => simp
  | some drained =>
    obtain ⟨r, s₁⟩ := drained
    cases r with
    | error abort => simp
    | ok n =>
      simp only [Option.some.injEq, Prod.mk.injEq, Except.ok.injEq]
      constructor
      · rintro ⟨rfl, rfl⟩
        exact ⟨s₁, ⟨rfl, rfl⟩, rfl⟩
      · rintro ⟨s₂, ⟨rfl, rfl⟩, rfl⟩
        exact ⟨rfl, rfl⟩

variable [LawfulAgenda σ]

/-- Where nothing is due by the first of two instants, draining up to the second one is the same
with the clock at the first one, but for the clock if it ends at once. -/
theorem drain_readied {first last : Instant} (hle : first ≤ last) {fuel : Nat} {s s' : σ}
    {r : Except Abort Nat} (hnone : (agenda s).take? (some first) = none)
    (h : drain attend (some last) fuel s = some (r, s')) :
    ∃ s'', drain attend (some last) fuel (withAgenda s ((agenda s).readied first)) = some (r, s'') ∧
      withAgenda s'' ((agenda s'').readied last) = withAgenda s' ((agenda s').readied last) := by
  cases fuel with
  | zero => cases h
  | succ fuel =>
    simp only [drain_succ_iff] at h ⊢
    have hagenda := LawfulAgenda.agenda_withAgenda s ((agenda s).readied first)
    -- The entry that is taken is due after the first instant, so it moves the clock beyond.
    have hsame {live : Bool} {e : Entry B} {a : Agenda B}
        (htake : (agenda s).take? (some last) = some (live, e, a)) :
        (agenda (withAgenda s ((agenda s).readied first))).take? (some last) =
          some (live, e, a) := by
      rw [hagenda]
      exact Agenda.take?_readied htake (Agenda.le_of_take?_eq_none hnone htake)
    cases h with
    | idle htake =>
      refine ⟨_, .idle ?_, ?_⟩
      · rw [hagenda]
        exact Agenda.take?_readied_eq_none htake
      · simp only [LawfulAgenda.agenda_withAgenda, LawfulAgenda.withAgenda_withAgenda,
          Agenda.readied_readied hle]
    | skipped htake hrest =>
      refine ⟨s', .skipped (hsame htake) ?_, rfl⟩
      rw [LawfulAgenda.withAgenda_withAgenda]
      exact hrest
    | started htake hperform hrest =>
      refine ⟨s', .started (hsame htake) ?_ hrest, rfl⟩
      rw [LawfulAgenda.withAgenda_withAgenda]
      exact hperform
    | aborted htake hperform =>
      refine ⟨s', .aborted (hsame htake) ?_, rfl⟩
      rw [LawfulAgenda.withAgenda_withAgenda]
      exact hperform

/-- Draining up to an instant can be interrupted at an earlier one, if nothing that is started moves
the clock: the clock is then moved to the earlier instant, and what is left up to the later one
follows from there. -/
theorem drain_split {kept : σ → Prop} {first last : Instant} (hle : first ≤ last)
    (hskip : ∀ s e a, kept s → (agenda s).take? (some first) = some (false, e, a) →
      kept (withAgenda s a))
    (hstart : ∀ s e a r s', kept s → (agenda s).take? (some first) = some (true, e, a) →
      e.job.perform attend (withAgenda s a) = some (r, s') →
      (agenda s').clock = a.clock ∧ kept s')
    {fuel : Nat} {s s' : σ} {total : Nat} {now : Instant} (h : kept s)
    (hnow : (agenda s).clock.now = .ok now) (hbefore : now ≤ first)
    (hdrain : drain attend (some last) fuel s = some (.ok total, s')) :
    ∃ n₁ n₂ s₁ s₂ now₁, n₁ + n₂ = total ∧ drain attend (some first) fuel s = some (.ok n₁, s₁) ∧
      (agenda s₁).clock.now = .ok now₁ ∧ now₁ ≤ first ∧
      drain attend (some last) fuel (withAgenda s₁ ((agenda s₁).readied first)) =
        some (.ok n₂, s₂) ∧
      withAgenda s₂ ((agenda s₂).readied last) = withAgenda s' ((agenda s').readied last) := by
  induction fuel generalizing s total now with
  | zero => cases hdrain
  | succ fuel ih =>
    cases hfirst : (agenda s).take? (some first) with
    | none =>
      -- Nothing is due by the first instant, so the first part is empty.
      obtain ⟨s₂, hrest, hend⟩ := drain_readied hle hfirst hdrain
      exact ⟨0, total, s, s₂, now, Nat.zero_add _, drain_succ_iff.mpr (.idle hfirst), hnow, hbefore,
        hrest, hend⟩
    | some taken =>
      -- The same entry is taken in both runs, with the clock at its due instant or later.
      obtain ⟨live, e, a⟩ := taken
      have hlast := Agenda.take?_of_le_target hfirst hle
      obtain ⟨now₁, hclock, hreached⟩ := Agenda.now_of_take? hfirst hnow hbefore
      generalize hr : Except.ok total = r at hdrain
      cases drain_succ_iff.mp hdrain with
      | idle htake => cases hlast.symm.trans htake
      | aborted => cases hr
      | skipped htake hrest =>
        cases hlast.symm.trans htake
        subst hr
        obtain ⟨n₁, n₂, s₁, s₂, now₂, hsum, hpart, hnow₂, hbefore₂, hrest, hend⟩ :=
          ih (hskip s e a h hfirst) (by rw [LawfulAgenda.agenda_withAgenda]; exact hclock) hreached
            hrest
        exact ⟨n₁, n₂, s₁, s₂, now₂, hsum, drain_succ_iff.mpr (.skipped hfirst hpart), hnow₂,
          hbefore₂, drain_mono (Nat.le_succ _) hrest, hend⟩
      | started htake hperform hrest =>
        cases hlast.symm.trans htake
        obtain ⟨count, rfl, rfl⟩ := exists_of_map_eq_ok hr.symm
        obtain ⟨hsame, hkept⟩ := hstart s e a _ _ h hfirst hperform
        obtain ⟨n₁, n₂, s₁, s₂, now₂, hsum, hpart, hnow₂, hbefore₂, hrest, hend⟩ :=
          ih hkept (hsame ▸ hclock) hreached hrest
        exact ⟨n₁ + 1, n₂, s₁, s₂, now₂, by omega,
          drain_succ_iff.mpr (.started hfirst hperform hpart), hnow₂, hbefore₂,
          drain_mono (Nat.le_succ _) hrest, hend⟩

/-- Time may pass in two parts, if nothing that is started in the first one moves the clock. -/
theorem advance_split {kept : σ → Prop} {a b ab : Duration} {now first last : Instant}
    (hfirst : now.add? a = some first) (hlast : first.add? b = some last)
    (hsum : a.add? b = some ab)
    (hskip : ∀ s e a, kept s → (agenda s).take? (some first) = some (false, e, a) →
      kept (withAgenda s a))
    (hstart : ∀ s e a r s', kept s → (agenda s).take? (some first) = some (true, e, a) →
      e.job.perform attend (withAgenda s a) = some (r, s') →
      (agenda s').clock = a.clock ∧ kept s')
    {fuel total : Nat} {s s' : σ} (h : kept s) (hnow : (agenda s).clock.now = .ok now)
    (hadvance : advance attend fuel ab s = some (.ok total, s')) :
    ∃ n₁ n₂ mid, n₁ + n₂ = total ∧ advance attend fuel a s = some (.ok n₁, mid) ∧
      advance attend fuel b mid = some (.ok n₂, s') := by
  have hfirst' := Instant.add?_eq_some_iff.mp hfirst
  have hlast' := Instant.add?_eq_some_iff.mp hlast
  have hsum' := Duration.add?_eq_some_iff.mp hsum
  have hwhole : now.add? ab = some last := by
    rw [Instant.add?_eq_some_iff]
    omega
  have hle : first ≤ last := by
    rw [Instant.le_iff]
    omega
  have hbefore : now ≤ first := by
    rw [Instant.le_iff]
    omega
  obtain ⟨s₀, hdrain, rfl⟩ := (advance_eq_ok_iff hnow hwhole).mp hadvance
  obtain ⟨n₁, n₂, s₁, s₂, now₁, hcount, hpart, hnow₁, hbefore₁, hrest, hend⟩ :=
    drain_split hle hskip hstart h hnow hbefore hdrain
  have hmid : (agenda (withAgenda s₁ ((agenda s₁).readied first))).clock.now = .ok first := by
    rw [LawfulAgenda.agenda_withAgenda]
    have hmoved := Clock.now_advanceTo hnow₁ first
    rwa [if_pos hbefore₁] at hmoved
  refine ⟨n₁, n₂, _, hcount, (advance_eq_ok_iff hnow hfirst).mpr ⟨s₁, hpart, rfl⟩, ?_⟩
  exact (advance_eq_ok_iff hmid hlast).mpr ⟨s₂, hrest, hend⟩

end

end Caching
