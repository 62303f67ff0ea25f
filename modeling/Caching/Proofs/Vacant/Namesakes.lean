import Caching.Proofs.Creation.Outcomes
import Caching.Proofs.Session.Tandem
import Caching.Proofs.Vacant.Emptied

/-!
# Namesakes

Whichever provider was resolved, a cache that may retain nothing is the same but for its name. Who
makes nothing of the name cannot tell two such caches apart: all replies are the same but for the
provider that they name, and so are the records of the calls and the log.
-/

namespace Caching

variable {K V : Type}

/-- The two are the same apart from the provider that they name. -/
def SameButNamed {α : Type} (named : Provider → α → α) (x y : α) : Prop :=
  ∀ p, named p x = named p y

/-- The verdict with another provider named in the replies. -/
def Verdict.named (p : Provider) (verdict : Verdict V) : Verdict V :=
  { verdict with replies := verdict.replies.map (Reply.named p) }

/-- The call with another provider named in the replies. -/
def Heard.named (p : Provider) (call : Heard K V) : Heard K V :=
  { call with replies := call.replies.map (List.map (Reply.named p)) }

/-- The entry with another provider named in it. -/
def LogEntry.named (p : Provider) (entry : LogEntry) : LogEntry :=
  { entry with fields := entry.fields.map fun field ↦
      if field.1 = "provider" then (field.1, Named.name p) else field }

/-- The calls are the same but for the provider that is named in the replies. -/
def Heard.SaySame (calls calls' : List (Heard K V)) : Prop :=
  SameButNamed (fun p ↦ List.map (Heard.named p)) calls calls'

/-- The entries are the same but for the provider that they name. -/
def LogEntry.SaySame (log log' : List LogEntry) : Prop :=
  SameButNamed (fun p ↦ List.map (LogEntry.named p)) log log'

namespace Script

variable {A R α β σ τ : Type} {same : R → R → Prop} {like : α → β → Prop}

/-- The scripts take the same actions and come to results that are alike, as long as the replies
that they are given are the same in some respect. -/
inductive Matches (same : R → R → Prop) (like : α → β → Prop) :
    Script A R α → Script A R β → Prop where
  | done {a : α} {b : β} (h : like a b) : Matches same like (.done a) (.done b)
  | call (action : A) {next : R → Script A R α} {next' : R → Script A R β}
      (h : ∀ r r', same r r' → Matches same like (next r) (next' r')) :
      Matches same like (.call action next) (.call action next')

/-- On related states, which answer alike and stay related, scripts that match come to results that
are alike. -/
theorem Matches.run {act : A → σ → R × σ} {act' : A → τ → R × τ} {related : σ → τ → Prop}
    (hact : ∀ action {s t}, related s t →
      same (act action s).1 (act' action t).1 ∧ related (act action s).2 (act' action t).2)
    {script : Script A R α} {script' : Script A R β} (h : Matches same like script script')
    {s : σ} {t : τ} (hst : related s t) :
    like (script.run act s).1 (script'.run act' t).1 ∧
      related (script.run act s).2 (script'.run act' t).2 := by
  induction h generalizing s t with
  | done h => exact ⟨h, hst⟩
  | call action _ ih =>
    obtain ⟨hsame, hrelated⟩ := hact action hst
    exact ih _ _ hsame hrelated

private theorem Matches.replies {act : A → σ → R × σ} {act' : A → τ → R × τ}
    {related : σ → τ → Prop} (hact : ∀ action {s t}, related s t →
      same (act action s).1 (act' action t).1 ∧ related (act action s).2 (act' action t).2)
    {script : Script A R α} {script' : Script A R β} (h : Matches same like script script')
    {s : σ} {t : τ} (hst : related s t) :
    List.Forall₂ same (script.chronicle act (fun action s ↦ [(act action s).1]) s)
      (script'.chronicle act' (fun action t ↦ [(act' action t).1]) t) := by
  induction h generalizing s t with
  | done h => exact .nil
  | call action _ ih =>
    obtain ⟨hsame, hrelated⟩ := hact action hst
    exact .cons hsame (ih _ _ hsame hrelated)

/-- Whoever follows the script makes nothing of the provider that is named in the replies. -/
def IgnoresName (script : Script (Operation K V) (Reply V) Unit) : Prop :=
  script.Matches (SameButNamed Reply.named) Eq script

end Script

/-- The listener makes nothing of the provider that is named in the replies to its operations. -/
def Listener.IgnoresName (listener : Listener K V) : Prop :=
  ∀ reaction ∈ listener.reactions, ∀ removal,
    (reaction removal).Matches (SameButNamed Reply.named) (SameButNamed Verdict.named)
      (reaction removal)

/-- Nothing is made of the provider in what the duty asks for. -/
def Duty.IgnoresName : Duty K V → Prop
  | lapse _ _ | upkeep => True
  | errand script => script.IgnoresName

namespace Vacant

/-- The caches are the same but for their names, and for what comes from that. Nobody that is
called by them or has left an errand with them makes anything of the name. -/
structure Namesakes (w w' : Running Vacant K V) : Prop where
  same : ∃ provider heard log, w' = { w with provider, heard, log }
  heard : Heard.SaySame w.heard w'.heard
  log : LogEntry.SaySame w.log w'.log
  listener : ∀ l ∈ w.listener, Listener.IgnoresName l
  asksOnly : w.agenda.AsksOnly Duty.IgnoresName

namespace Namesakes

variable {w w' : Running Vacant K V}

private theorem listener_eq (h : Namesakes w w') : w'.listener = w.listener := by
  obtain ⟨_, _, _, rfl⟩ := h.same
  rfl

private theorem phase_eq (h : Namesakes w w') : w'.phase = w.phase := by
  obtain ⟨_, _, _, rfl⟩ := h.same
  rfl

private theorem agenda_eq (h : Namesakes w w') : w'.agenda = w.agenda := by
  obtain ⟨_, _, _, rfl⟩ := h.same
  rfl

private theorem length_heard (h : Namesakes w w') : w'.heard.length = w.heard.length := by
  have hmap := congrArg List.length (h.heard .moka)
  simpa using hmap.symm

private theorem withPhase (h : Namesakes w w') (phase : Phase) :
    Namesakes { w with phase } { w' with phase } := by
  obtain ⟨provider, heard, log, rfl⟩ := h.same
  exact ⟨⟨provider, heard, log, rfl⟩, h.heard, h.log, h.listener, h.asksOnly⟩

private theorem withAgenda (h : Namesakes w w') {agenda : Agenda (Duty K V)}
    (hasks : agenda.AsksOnly Duty.IgnoresName) :
    Namesakes { w with agenda } { w' with agenda } := by
  obtain ⟨provider, heard, log, rfl⟩ := h.same
  exact ⟨⟨provider, heard, log, rfl⟩, h.heard, h.log, h.listener, hasks⟩

private theorem withHost (h : Namesakes w w') (host : Clock) :
    Namesakes { w with host } { w' with host } := by
  obtain ⟨provider, heard, log, rfl⟩ := h.same
  exact ⟨⟨provider, heard, log, rfl⟩, h.heard, h.log, h.listener, h.asksOnly⟩

private theorem beginCall (h : Namesakes w w') (removal : Removal K V) {listener : Listener K V}
    (hignores : listener.IgnoresName) :
    Namesakes { w.beginCall removal with listener := some listener }
      { w'.beginCall removal with listener := some listener } := by
  obtain ⟨provider, heard, log, rfl⟩ := h.same
  refine ⟨⟨provider, _, log, rfl⟩, ?_, h.log, ?_, h.asksOnly⟩
  · intro p
    have hheard : w.heard.map (Heard.named p) = heard.map (Heard.named p) := h.heard p
    simp only [Running.beginCall, List.map_append, hheard]
  · intro l hl
    cases hl
    exact hignores

private theorem keepReplies (h : Namesakes w w') (place : Nat) {replies replies' : List (Reply V)}
    (hreplies : ∀ p, replies.map (Reply.named p) = replies'.map (Reply.named p)) :
    Namesakes (w.keepReplies place replies) (w'.keepReplies place replies') := by
  obtain ⟨provider, heard, log, rfl⟩ := h.same
  refine ⟨⟨provider, _, log, rfl⟩, ?_, h.log, h.listener, h.asksOnly⟩
  intro p
  have hheard : w.heard.map (Heard.named p) = heard.map (Heard.named p) := h.heard p
  have hmodify (calls : List (Heard K V)) (place : Nat) (replies : List (Reply V)) :
      (calls.modify place fun call ↦ { call with replies := some replies }).map (Heard.named p) =
        (calls.map (Heard.named p)).modify place
          fun call ↦ { call with replies := some (replies.map (Reply.named p)) } := by
    induction calls generalizing place with
    | nil => cases place <;> rfl
    | cons call rest ih =>
      cases place with
      | zero => rfl
      | succ place => simpa using ih place
  simp only [Running.keepReplies, hmodify, hheard, hreplies]

private theorem endCall (h : Namesakes w w') (removal : Removal K V) (panic : Option Payload) :
    Namesakes (w.endCall removal panic) (w'.endCall removal panic) := by
  obtain ⟨provider, heard, log, rfl⟩ := h.same
  cases panic with
  | none => exact ⟨⟨provider, heard, log, rfl⟩, h.heard, h.log, h.listener, h.asksOnly⟩
  | some payload =>
    refine ⟨⟨provider, heard, _, rfl⟩, h.heard, ?_, h.listener, h.asksOnly⟩
    intro p
    have hlog : w.log.map (LogEntry.named p) = log.map (LogEntry.named p) := h.log p
    simp [Running.endCall, Running.note, hlog, LogEntry.named]

private theorem calledOnly (h : Namesakes w w') (removal : Removal K V) {listener : Listener K V}
    (hlistener : w.listener = some listener) (panic : Option Payload) :
    Namesakes ((w.beginCall removal).endCall removal panic)
      ((w'.beginCall removal).endCall removal panic) := by
  have hcalled := h.beginCall removal (h.listener listener hlistener)
  rw [← hlistener] at hcalled
  nth_rewrite 2 [← h.listener_eq] at hcalled
  exact hcalled.endCall removal panic

private theorem finishCall (h : Namesakes w w') (place : Nat) {verdict verdict' : Verdict V}
    (hverdict : SameButNamed Verdict.named verdict verdict') (removal : Removal K V) :
    Namesakes ((w.keepReplies place verdict.replies).endCall removal verdict.panic)
      ((w'.keepReplies place verdict'.replies).endCall removal verdict'.panic) := by
  have hreplies (p : Provider) : verdict.replies.map (Reply.named p) =
      verdict'.replies.map (Reply.named p) := congrArg Verdict.replies (hverdict p)
  have hpanic : verdict.panic = verdict'.panic := by
    simpa [Verdict.named] using congrArg Verdict.panic (hverdict .moka)
  rw [hpanic]
  exact (h.keepReplies place hreplies).endCall removal verdict'.panic

variable [DecidableEq V]

/-- An operation is answered alike, if what it reports is. -/
theorem performWith {report report' : Report Vacant K V}
    (hreport : ∀ removal {w w'}, Namesakes w w' → Namesakes (report removal w) (report' removal w'))
    (operation : Operation K V) (h : Namesakes w w') :
    SameButNamed Reply.named (Running.performWith report operation w).1
        (Running.performWith report' operation w').1 ∧
      Namesakes (Running.performWith report operation w).2
        (Running.performWith report' operation w').2 := by
  cases hphase : w.phase with
  | closed =>
    rw [Running.performWith_of_closed report hphase,
      Running.performWith_of_closed report' (h.phase_eq.trans hphase)]
    refine ⟨fun p ↦ ?_, h⟩
    rw [Operation.named_closedReply, Operation.named_closedReply]
  | active =>
    by_cases hclose : operation = .close
    · subst hclose
      rw [performWith_close, performWith_close]
      exact ⟨fun p ↦ rfl, h.withPhase .closed⟩
    · rw [performWith_of_active report hphase hclose,
        performWith_of_active report' (h.phase_eq.trans hphase) hclose]
      refine ⟨fun p ↦ ?_, ?_⟩
      · rw [Operation.named_openReply, Operation.named_openReply]
      · exact List.foldl_rel h fun removal _ _ _ h ↦ hreport removal h

private theorem reportAt (bound : Nat) (removal : Removal K V) {w w' : Running Vacant K V}
    (h : Namesakes w w') :
    Namesakes (Running.reportAt bound removal w) (Running.reportAt bound removal w') := by
  induction bound generalizing removal w w' with
  | zero =>
    rw [Running.reportAt.eq_def, Running.reportAt.eq_def]
    dsimp only
    rw [h.listener_eq, h.phase_eq]
    cases hlistener : w.listener with
    | none => exact h
    | some listener =>
      cases w.phase with
      | closed => exact h
      | active => exact h.calledOnly removal hlistener _
  | succ bound ih =>
    rw [Running.reportAt.eq_def, Running.reportAt.eq_def]
    dsimp only
    rw [h.listener_eq, h.phase_eq]
    cases hlistener : w.listener with
    | none => exact h
    | some listener =>
      cases w.phase with
      | closed => exact h
      | active =>
        dsimp only
        cases hreactions : listener.reactions with
        | nil => exact h.calledOnly removal hlistener _
        | cons reaction rest =>
          have hignores := h.listener listener hlistener
          have hrest : Listener.IgnoresName (V := V) ⟨rest, listener.lasting⟩ := by
            intro other hother
            exact hignores other (by simp [hreactions, List.mem_cons_of_mem reaction hother])
          have hrun := (hignores reaction (by simp [hreactions]) removal).run
            (fun operation _ _ h ↦ performWith (fun removal _ _ h ↦ ih removal h) operation h)
            (h.beginCall removal hrest)
          rw [h.length_heard]
          exact hrun.2.finishCall w.heard.length hrun.1 removal

/-- Every operation is answered alike. -/
theorem perform (operation : Operation K V) (h : Namesakes w w') :
    SameButNamed Reply.named (w.perform operation).1 (w'.perform operation).1 ∧
      Namesakes (w.perform operation).2 (w'.perform operation).2 := by
  have hdepth : w'.depth = w.depth := by
    rw [Running.depth, h.listener_eq]
    rfl
  rw [Running.perform, Running.perform, Running.report, Running.report, hdepth]
  exact performWith (fun removal _ _ h ↦ h.reportAt w.depth removal) operation h

private theorem attend (h : Namesakes w w') (duty : Duty K V) (hignores : duty.IgnoresName)
    (run : Nat) :
    Option.Rel (Agree Namesakes) (Running.attend duty run w) (Running.attend duty run w') := by
  cases duty with
  | lapse key stamp => exact .some ⟨rfl, h⟩
  | upkeep =>
    simp only [Running.attend, h.phase_eq]
    cases w.phase with
    | closed => exact .some ⟨rfl, h⟩
    | active => exact .some ⟨rfl, h⟩
  | errand script =>
    exact .some ⟨rfl, (hignores.run (fun operation _ _ h ↦ h.perform operation) h).2⟩

omit [DecidableEq V] in
private theorem release (h : Namesakes w w') : Namesakes w.release w'.release := by
  simp only [Running.release, h.phase_eq]
  cases w.phase with
  | closed => exact h
  | active => exact h.withPhase .closed

/-- Namesakes go in tandem, as long as nobody makes anything of their names. -/
theorem tandem : Running.Tandem Duty.IgnoresName (SameButNamed Reply.named)
    (Namesakes (K := K) (V := V)) where
  lockstep :=
    { agenda := fun h ↦ h.agenda_eq
      asksOnly := fun h ↦ h.asksOnly
      withAgenda := fun h _ hasks ↦ h.withAgenda hasks
      attend := fun h duty hduty run ↦ h.attend duty hduty run }
  host h := by
    obtain ⟨_, _, _, rfl⟩ := h.same
    rfl
  supplied h := by
    obtain ⟨_, _, _, rfl⟩ := h.same
    rfl
  withHost h host := h.withHost host
  replies h script hignores := hignores.replies (fun operation _ _ h ↦ h.perform operation) h
  release h := h.release

end Namesakes

end Vacant

/-- Nobody whom the specification brings along makes anything of the provider. -/
def CacheSpec.IgnoresName (spec : CacheSpec K V) : Prop :=
  (∀ listener ∈ spec.listener, Listener.IgnoresName listener) ∧
    ∀ executor ∈ spec.executor, Agenda.AsksOnly Duty.IgnoresName executor

/-- A registry that resolves a provider for a cache which may retain nothing creates it, whatever
factory the provider has. -/
theorem Registry.create_of_zero [DecidableEq K] {registry : Registry} {spec : CacheSpec K V}
    {listing : Listing} (hbound : spec.maxSize = some 0)
    (hresolved : registry.resolve spec.provider = .ok listing) (host : Host) :
    (registry.create spec host).1 =
      .ok ⟨.vacant, Running.start (⟨⟩ : Vacant) listing.id spec host.clock⟩ := by
  rw [fst_create hresolved]
  simp [buildListed, Spec.isAlwaysEmpty, hbound]

namespace Session

/-- The sessions are the same but for the provider of the cache, which may also be named in the
record of the calls and in the log. -/
def Namesakes (s s' : Session K V) : Prop :=
  ∃ provider heard log, s' = s.update (fun w ↦ { w with provider, heard, log }) ∧
    Heard.SaySame s.cache.body.heard heard ∧ LogEntry.SaySame s.cache.body.log log

/-- Namesakes make namesakes of the sessions. -/
theorem namesakes_of_paired {s s' : Session K V}
    (h : Paired .vacant Vacant.Namesakes s s') : s.Namesakes s' := by
  cases h with
  | intro h handles =>
    obtain ⟨provider, heard, log, rfl⟩ := h.same
    exact ⟨provider, heard, log, rfl, h.heard, h.log⟩

variable [DecidableEq K] [DecidableEq V]

/-- A cache that may retain nothing acts as a map that is emptied after every step, whichever
provider was resolved for it and whatever the factory and the expiry are. It is always created. In
every history, and in the midst of calls of the listener as well, each operation is answered as by a
map without entries, as long as the cache is open; so functions that need a value that is there are
never called. The listener is told of exactly the values that would have been stored, in the order
of the operations, as removals for want of space. Two such caches that differ in the resolved
provider have the same histories but for the provider that is named in them, for all who make
nothing of it. -/
theorem acts_as_emptied {registry : Registry} {spec : CacheSpec K V} {listing : Listing}
    (hbound : spec.maxSize = some 0) (hresolved : registry.resolve spec.provider = .ok listing)
    (host : Host) :
    ∃ body : Running Vacant K V, (registry.create spec host).1 = .ok ⟨.vacant, body⟩ ∧
      (∀ fuel dealings trace s, deals fuel dealings (ofCache ⟨.vacant, body⟩) = some (trace, s) →
        s.cache.provider = listing.id ∧
        (s.cache.phase = .closed ↔ .closed ∈ trace) ∧
        s.cache.body.told =
          (if spec.listener.isSome then trace.flatMap (Happening.turnedAway listing.id) else []) ∧
        ∀ (α : Type) (script : Script (Operation K V) (Reply V) α),
          (s.follow script).2.cache.phase = .active → (s.follow script).1 =
            (script.run PlainMap.performEmptying (PlainMap.empty listing.id)).1) ∧
      (∀ (w : Running Vacant K V) (report : Report Vacant K V) (operation : Operation K V),
        w.phase = .active → (Running.performWith report operation w).1 =
          ((PlainMap.empty w.provider).performEmptying operation).1) ∧
      ∀ (registry' : Registry) (requested : Option Provider) (listing' : Listing),
        registry'.resolve requested = .ok listing' →
        ∃ body' : Running Vacant K V,
          (registry'.create { spec with provider := requested } host).1 =
            .ok ⟨.vacant, body'⟩ ∧
          body'.provider = listing'.id ∧
          (CacheSpec.IgnoresName spec → ∀ fuel dealings,
            (∀ dealing ∈ dealings, Dealing.Asks Duty.IgnoresName dealing) →
            List.Forall₂
              (fun r r' ↦ r.1.Like (SameButNamed Reply.named) r'.1 ∧ r.2.Namesakes r'.2)
              ((ofCache ⟨.vacant, body⟩).progress fuel dealings)
              ((ofCache ⟨.vacant, body'⟩).progress fuel dealings)) := by
  refine ⟨_, Registry.create_of_zero hbound hresolved host, ?_, ?_, ?_⟩
  · intro fuel dealings trace s hdeals
    obtain ⟨w, handles, rfl, hbefalls⟩ := befalls_deals hdeals
    refine ⟨hbefalls.provider, ?_, hbefalls.told, fun α script hopen ↦ ?_⟩
    · exact hbefalls.closed.trans (or_iff_right (by simp [Running.start]))
    · exact Vacant.run_as_emptied Running.depth script hbefalls.provider.symm rfl rfl hopen
  · intro w report operation hactive
    by_cases hclose : operation = .close
    · rw [hclose]
      rfl
    · rw [Vacant.performWith_of_active report hactive hclose,
        PlainMap.performEmptying_of_active rfl rfl hclose]
      rfl
  · intro registry' requested listing' hresolved'
    let spec' : CacheSpec K V := { spec with provider := requested }
    have hbound' : spec'.maxSize = some 0 := hbound
    have hcreated' := Registry.create_of_zero hbound' hresolved' host
    refine ⟨_, hcreated', rfl, fun hignores fuel dealings hasks ↦ ?_⟩
    have hexecutor : (spec.executor.getD (.ofClock host.clock)).AsksOnly Duty.IgnoresName := by
      cases hgiven : spec.executor with
      | none =>
        intro e he
        cases he
      | some executor => exact hignores.2 executor hgiven
    have hstart : Vacant.Namesakes (Running.start (⟨⟩ : Vacant) listing.id spec host.clock)
        (Running.start ⟨⟩ listing'.id spec' host.clock) :=
      ⟨⟨_, _, _, rfl⟩, fun p ↦ rfl, fun p ↦ rfl, hignores.1, hexecutor⟩
    have hpaired : Paired .vacant Vacant.Namesakes
        (ofCache ⟨.vacant, Running.start (⟨⟩ : Vacant) listing.id spec host.clock⟩)
        (ofCache ⟨.vacant, Running.start (⟨⟩ : Vacant) listing'.id spec' host.clock⟩) :=
      .intro hstart [true]
    refine (hpaired.progress Vacant.Namesakes.tandem fuel hasks).imp fun r r' h ↦ ⟨h.1, ?_⟩
    exact namesakes_of_paired h.2

/-- One provider is down, so that another one is resolved. The listener answers its first call by
storing an entry of its own and asking for the provider; then it panics. -/
theorem acts_as_emptied_of_callback :
    let registry := Registry.builtin.withAvailability .moka false
    let listener : Listener Nat Nat :=
      ⟨[fun _ ↦ .call (.put 9 90) fun r ↦ .call .provider fun r' ↦ .done ⟨[r, r'], none⟩],
        fun _ ↦ some (.text "no")⟩
    let spec : CacheSpec Nat Nat :=
      ⟨none, some 0, .postWrite, some ⟨100, by decide⟩, some listener, none, false⟩
    let dealings : List (Dealing Nat Nat) :=
      [.use (.call (.put 1 10) fun _ ↦ .call (.replace 1 11) fun _ ↦
        .call (.compute 3 fun _ ↦ .ok (some 30)) fun _ ↦ .done ())]
    let cache (p : Provider) : Cache Nat Nat :=
      ⟨.vacant, Running.start (⟨⟩ : Vacant) p spec .fresh⟩
    (registry.create spec .fresh).1 = .ok (cache .lru) ∧
      (Registry.builtin.create spec .fresh).1 = .ok (cache .moka) ∧
      ((deals 1 dealings (ofCache (cache .lru))).map
        fun r ↦ r.1.flatMap (Happening.turnedAway .lru)) =
          some [⟨1, 10, .size⟩, ⟨9, 90, .size⟩, ⟨3, 30, .size⟩] ∧
      List.Forall₂ (fun r r' ↦ r.1.Like (SameButNamed Reply.named) r'.1 ∧ r.2.Namesakes r'.2)
        ((ofCache (cache .lru)).progress 1 dealings)
        ((ofCache (cache .moka)).progress 1 dealings) := by
  intro registry listener spec dealings cache
  have hresolved : registry.resolve spec.provider = .ok ⟨.lru, true, .builtin .lru⟩ := rfl
  have hother : Registry.builtin.resolve none = .ok ⟨.moka, true, .builtin .moka⟩ := rfl
  obtain ⟨body, hcreated, hhistory, _, hnamesake⟩ := acts_as_emptied rfl hresolved .fresh
  obtain ⟨body', hcreated', _, halike⟩ := hnamesake Registry.builtin none _ hother
  have hlru : (registry.create spec .fresh).1 = .ok (cache .lru) := rfl
  have hmoka : (Registry.builtin.create spec .fresh).1 = .ok (cache .moka) := rfl
  cases hlru.symm.trans hcreated
  cases hmoka.symm.trans hcreated'
  refine ⟨hlru, hmoka, ?_, ?_⟩
  · have htold : (deals 1 dealings (ofCache (cache .lru))).map (fun r ↦ r.2.cache.body.told) =
        some [⟨1, 10, .size⟩, ⟨9, 90, .size⟩, ⟨3, 30, .size⟩] := by decide +kernel
    cases hdeals : deals 1 dealings (ofCache (cache .lru)) with
    | none =>
      rw [hdeals] at htold
      cases htold
    | some r =>
      have hsame := (hhistory 1 dealings r.1 r.2 hdeals).2.2.1
      rw [hdeals, Option.map_some, hsame] at htold
      exact htold
  · refine halike ⟨?_, ?_⟩ 1 dealings ?_
    · intro l hl reaction hreaction removal
      cases hl
      cases List.mem_singleton.mp hreaction
      refine .call _ fun r r' h ↦ .call _ fun q q' h' ↦ .done fun p ↦ ?_
      simp [Verdict.named, h p, h' p]
    · intro executor hexecutor
      cases hexecutor
    · intro dealing hdealing
      cases List.mem_singleton.mp hdealing
      exact .call _ fun _ _ _ ↦ .call _ fun _ _ _ ↦ .call _ fun _ _ _ ↦ .done rfl

end Session

end Caching
