import Caching.Proofs.Spec.Choices

/-!
# One specification from each builder

However often a builder is asked, and whatever it was told in between, it gives one specification at
most: the one with the values it took last, which is sound. From then on it refuses everything.
Before that, a call that is refused leaves no trace, except for the fields of settings that come
before a bad expiry time.
-/

namespace Caching

variable {L E : Type}

namespace Builder

variable {b : Builder L E}

/-- Exactly the sound specifications with an enabled type have an expiry. -/
theorem isSome_expiry {spec : Spec L E} (h : spec.IsSound) :
    spec.expiry.isSome = spec.expiryType.isEnabled := by
  unfold Spec.expiry
  cases henabled : spec.expiryType.isEnabled with
  | false => rfl
  | true => simp [h.enabled, henabled]

private theorem accepted_settings_of_error {s : Settings} {fault : Fault}
    (h : fault ≠ .builderFinalized) :
    Turn.accepted ((.settings s, .error fault) : Turn L E) = s.earlyChoices := by
  cases fault with
  | builderFinalized => exact absurd rfl h
  | _ => rfl

private theorem accepted_of_error {call : Call L E} (fault : Fault) (h : ∀ s, call ≠ .settings s) :
    Turn.accepted (call, .error fault) = [] := by
  cases call with
  | settings s => exact absurd rfl (h s)
  | _ => rfl

/-- What settings say about the fields before the expiry time replaces what the builder holds. -/
theorem putAll_earlyChoices (s : Settings) :
    putAll s.earlyChoices b =
      { b with
        provider := s.provider.or b.provider
        maxSize := s.maxSize.or b.maxSize
        expiryType := s.expiryType.or b.expiryType } := by
  obtain ⟨provider, maxSize, expiryType, _, _⟩ := s
  cases provider <;> cases maxSize <;> cases expiryType <;> rfl

/-- The first call, and then the others. -/
theorem play_cons (call : Call L E) (rest : List (Call L E)) (b : Builder L E) :
    play (call :: rest) b = ((call, (make call b).1) :: (play rest (make call b).2).1,
      (play rest (make call b).2).2) :=
  rfl

/-- All calls on a builder that is finished are refused. -/
theorem play_of_finalized (h : b.finalized = true) (calls : List (Call L E)) :
    (∀ turn ∈ (play calls b).1, turn.2 = .error .builderFinalized) ∧ (play calls b).2 = b := by
  induction calls with
  | nil => exact ⟨by simp [play], rfl⟩
  | cons call rest ih =>
    rw [play_cons, make_of_finalized h call]
    exact ⟨List.forall_mem_cons.mpr ⟨rfl, ih.1⟩, ih.2⟩

private theorem isBuilt_of_refused {turn : Turn L E} (h : turn.2 = .error .builderFinalized) :
    turn.isBuilt = false := by
  obtain ⟨call, answer⟩ := turn
  cases h
  rfl

/-- An open builder gives one specification at most, and is finished exactly if it gave one. -/
theorem play_once (h : b.finalized = false) (calls : List (Call L E)) :
    (play calls b).1.countP Turn.isBuilt ≤ 1 ∧
      (play calls b).2.finalized = (play calls b).1.any Turn.isBuilt := by
  induction calls generalizing b with
  | nil => exact ⟨Nat.zero_le _, h⟩
  | cons call rest ih =>
    rw [play_cons]
    rcases make_of_open h call with ⟨-, -, hmake⟩ | htakes
    · -- nothing can be built any more
      have hfinal : (make call b).2.finalized = true := by rw [hmake]
      obtain ⟨hrefused, hsame⟩ := play_of_finalized hfinal rest
      have hnone : (play rest (make call b).2).1.countP Turn.isBuilt = 0 :=
        List.countP_eq_zero.mpr fun turn hturn ↦ by
          rw [isBuilt_of_refused (hrefused turn hturn)]
          exact Bool.false_ne_true
      have hbuilt : Turn.isBuilt (call, (make call b).1) = true := by rw [hmake]; rfl
      refine ⟨Nat.le_of_eq ?_, ?_⟩
      · rw [List.countP_cons_of_pos hbuilt, hnone]
      · rw [hsame, hfinal, List.any_cons, hbuilt, Bool.true_or]
    · have hopen : (make call b).2.finalized = false := by
        rw [htakes.puts, finalized_putAll, h]
      obtain ⟨hcount, hfinal⟩ := ih hopen
      refine ⟨?_, ?_⟩
      · rwa [List.countP_cons_of_neg (by simp [htakes.unbuilt])]
      · rw [List.any_cons, htakes.unbuilt, Bool.false_or, hfinal]

/-- What is given holds the values that were taken before, and is sound; then all is refused. -/
theorem play_gives {told : List (Choice L E)} (hb : b = putAll told new) (hfit : b.IsFit)
    (calls : List (Call L E)) {earlier later : List (Turn L E)} {call : Call L E}
    {spec : Spec L E} (hplay : (play calls b).1 = earlier ++ (call, .ok (some spec)) :: later) :
    call = .build ∧ spec = Spec.ofChoices (told ++ earlier.flatMap Turn.accepted) ∧ spec.IsSound ∧
      ∀ turn ∈ later, turn.2 = .error .builderFinalized := by
  induction calls generalizing b told earlier with
  | nil => simp [play] at hplay
  | cons first rest ih =>
    have hopen : b.finalized = false := by rw [hb, finalized_putAll]; rfl
    rw [play_cons] at hplay
    rcases make_of_open hopen first with ⟨hbuild, hready, hmake⟩ | htakes
    · have hfinal : (make first b).2.finalized = true := by rw [hmake]
      obtain ⟨hrefused, -⟩ := play_of_finalized hfinal rest
      cases earlier with
      | nil =>
        obtain ⟨hturn, hlater⟩ := List.cons.inj hplay
        rw [hmake] at hturn
        obtain ⟨hcall, hanswer⟩ := Prod.mk.inj hturn
        cases hanswer
        refine ⟨hcall ▸ hbuild, ?_, ⟨not_not.mp hready, hfit⟩, hlater ▸ hrefused⟩
        rw [hb, putAll_new, List.flatMap_nil, List.append_nil]
        rfl
      | cons turn earlier =>
        have hmem : ((call, .ok (some spec)) : Turn L E) ∈ (play rest (make first b).2).1 := by
          rw [(List.cons.inj hplay).2]
          exact List.mem_append_right _ List.mem_cons_self
        exact nomatch hrefused _ hmem
    · cases earlier with
      | nil =>
        have hunbuilt := htakes.unbuilt
        rw [(List.cons.inj hplay).1] at hunbuilt
        cases hunbuilt
      | cons turn earlier =>
        obtain ⟨hturn, hrest⟩ := List.cons.inj hplay
        have hnext : (make first b).2 = putAll (told ++ turn.accepted) new := by
          rw [htakes.puts, putAll_append, ← hb, hturn]
        have hih := ih hnext (hfit.make first) hrest
        rwa [List.append_assoc, ← List.flatMap_cons] at hih

/-- An open builder refuses exactly what it has a reason to refuse. -/
theorem make_eq_error_iff (h : b.finalized = false) (call : Call L E) :
    (∃ fault, (make call b).1 = .error fault) ↔ b.Refuses call := by
  rcases make_of_open h call with ⟨rfl, hready, hmake⟩ | htakes
  · rw [hmake]
    exact ⟨nofun, fun hrefuses ↦ absurd hrefuses hready⟩
  · exact htakes.refused

/-- What a refused call leaves of an open builder. -/
def leftBy (b : Builder L E) : Call L E → Builder L E
  | .settings s =>
    { b with
      provider := s.provider.or b.provider
      maxSize := s.maxSize.or b.maxSize
      expiryType := s.expiryType.or b.expiryType }
  | _ => b

/-- A refused call on an open builder leaves the values it accepted. -/
theorem make_of_refuses (h : b.finalized = false) {call : Call L E} (hrefuses : b.Refuses call) :
    (make call b).2 = b.leftBy call := by
  obtain ⟨fault, hfault⟩ := (make_eq_error_iff h call).mpr hrefuses
  rcases make_of_open h call with ⟨rfl, hready, -⟩ | htakes
  · exact absurd hrefuses hready
  · rw [hfault] at htakes
    rw [htakes.puts]
    cases call with
    | settings s =>
      have hfinal : fault ≠ .builderFinalized := by
        rintro rfl
        exact htakes.unfinished rfl
      rw [accepted_settings_of_error hfinal, putAll_earlyChoices, leftBy]
    | _ =>
      rw [accepted_of_error fault (fun _ hcall ↦ by cases hcall)]
      rfl

/-- Whatever calls are made on a new builder, at most one of them gives a specification. It holds
the value that was taken last for each field, its expiry time is in range, and it has an expiry
exactly if its type is enabled. After it every call is refused. Until then a call is refused for a
reason of its own, a bad expiry time or a time and a type that do not go together, and changes
nothing, except that settings are applied up to their expiry time. -/
theorem builds_once_as_told (calls : List (Call L E)) :
    let run := play calls (new : Builder L E)
    (run.1.countP Turn.isBuilt ≤ 1 ∧ run.2.finalized = run.1.any Turn.isBuilt) ∧
      (∀ earlier call spec later, run.1 = earlier ++ (call, .ok (some spec)) :: later →
        call = .build ∧ spec = Spec.ofChoices (earlier.flatMap Turn.accepted) ∧ spec.IsSound ∧
          spec.expiry.isSome = spec.expiryType.isEnabled ∧
          ∀ turn ∈ later, turn.2 = .error .builderFinalized) ∧
      (run.2.finalized = true →
        ∀ call, make call run.2 = (.error .builderFinalized, run.2)) ∧
      (run.2.finalized = false → ∀ call,
        ((∃ fault, (make call run.2).1 = .error fault) ↔ run.2.Refuses call) ∧
          (run.2.Refuses call → (make call run.2).2 = run.2.leftBy call)) := by
  intro run
  have hfit : (new : Builder L E).IsFit := by
    intro time htime
    cases htime
  refine ⟨play_once rfl calls, ?_, make_of_finalized, ?_⟩
  · intro earlier call spec later hplay
    obtain ⟨hcall, hspec, hsound, hlater⟩ :=
      play_gives (show new = putAll [] new from rfl) hfit calls hplay
    exact ⟨hcall, hspec, hsound, isSome_expiry hsound, hlater⟩
  · intro hopen call
    exact ⟨make_eq_error_iff hopen call, make_of_refuses hopen⟩

/-- A bad expiry time, a choice that is overruled, and settings that come too late. -/
theorem builds_once_as_told_of_late_settings :
    let calls : List (Call Nat Nat) :=
      [.provider .moka, .expiryTime .zero, .settings ⟨some .lru, none, none, some 0, none⟩,
        .maxSize 3, .build, .settings .empty]
    ∃ earlier spec, (play calls new).1 =
        earlier ++ (.build, .ok (some spec)) :: [(.settings .empty, .error .builderFinalized)] ∧
      spec = ⟨some .lru, some 3, .none, none, none, none, false⟩ := by
  intro calls
  refine ⟨[_, _, _, _], _, rfl, ?_⟩
  exact ((builds_once_as_told calls).2.1 [_, _, _, _] .build _ [_] rfl).2.1

end Builder

end Caching
