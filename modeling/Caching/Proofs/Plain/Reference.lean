import Caching.Contract.Derived
import Caching.Proofs.Contract.Deed
import Caching.Proofs.Engine.Keyed
import Caching.Proofs.Script.Simulation

/-!
# Plain maps

The contract of a cache without bound and without expiry: a map that tells of every value that it
replaces or takes out, within the operation that does so. Nothing depends on the order of its
entries, and entries that are stored together may be stored in any order.
-/

namespace Caching

variable {K V : Type}

/-- The reply with another provider named in it. -/
def Reply.named (p : Provider) (reply : Reply V) : Reply V :=
  { reply with
    outcome :=
      match reply.outcome with
      | .error (.fault (.closedCache _)) => .error (.fault (.closedCache p))
      | .ok (.provider _) => .ok (.provider p)
      | outcome => outcome }

private theorem Operation.named_answer [DecidableEq V] (p : Provider) (operation : Operation K V)
    (current : Option V) :
    (operation.answer current).named p = operation.answer current := by
  have hremapped (shown : List (Option V)) (r : Except Abort (Option V)) :
      (remapped shown r).named p = remapped shown r := by
    cases r <;> rfl
  cases operation with
  | compute key remap => exact hremapped _ _
  | computeIfPresent key remap =>
    cases current with
    | none => rfl
    | some current => exact hremapped _ _
  | merge key value combine =>
    cases current with
    | none => rfl
    | some current => exact hremapped _ _
  | _ => rfl

/-- Open caches answer alike, but for their names. -/
theorem Operation.named_openReply [DecidableEq V] (p q : Provider) (current : K → Option V)
    (count : Nat) (operation : Operation K V) :
    (operation.openReply q current count).named p = operation.openReply p current count := by
  cases hkey : operation.key? with
  | some key =>
    simp only [openReply, hkey]
    exact operation.named_answer p (current key)
  | none => cases operation <;> first | rfl | cases hkey

/-- Closed caches answer alike, but for their names. -/
theorem Operation.named_closedReply (p q : Provider) (operation : Operation K V) :
    (operation.closedReply q).named p = operation.closedReply p := by
  cases operation <;> rfl

/-- What the deed takes away, given the live value of the key. -/
def Deed.removed (deed : Deed V) (key : K) (current : Option V) : List (Removal K V) :=
  match deed with
  | .store _ => current.toList.map fun old ↦ ⟨key, old, .replaced⟩
  | .remove => current.toList.map fun old ↦ ⟨key, old, .explicit⟩
  | .ignore | .abandon | .read | .keep => []

/-- A map, with the removals of which it has told. -/
structure PlainMap (K V : Type) where
  provider : Provider
  phase : Phase
  entries : List (K × V)
  distinct : Keyed.Distinct entries
  told : List (Removal K V)

namespace PlainMap

/-- A map without entries. -/
def empty (provider : Provider) : PlainMap K V :=
  ⟨provider, .active, [], Keyed.distinct_nil, []⟩

/-- Empties the map, and tells of all entries. -/
def cleared (m : PlainMap K V) : PlainMap K V :=
  { m with
    entries := [], distinct := Keyed.distinct_nil
    told := m.told ++ m.entries.map fun e ↦ ⟨e.1, e.2, .explicit⟩ }

/-- Ends the map, without a word about its entries. -/
def ended (m : PlainMap K V) : PlainMap K V :=
  { m with phase := .closed, entries := [], distinct := Keyed.distinct_nil }

variable [DecidableEq K]

/-- The value of a key. -/
def current (m : PlainMap K V) (key : K) : Option V :=
  Keyed.find? key m.entries

/-- What a deed does. -/
def carry (key : K) (deed : Deed V) (m : PlainMap K V) : PlainMap K V :=
  let told := m.told ++ deed.removed key (m.current key)
  match deed with
  | .store value =>
    { m with
      entries := Keyed.insert key value m.entries
      distinct := m.distinct.insert key value, told }
  | .remove =>
    { m with
      entries := Keyed.erase key m.entries
      distinct := m.distinct.erase key, told }
  | .ignore | .abandon | .read | .keep => m

variable [DecidableEq V]

/-- What an operation does to an open map. -/
def serve (operation : Operation K V) (m : PlainMap K V) : PlainMap K V :=
  match operation.key?, operation with
  | some key, operation => m.carry key (operation.deed (m.current key))
  | none, .clear => m.cleared
  | none, .close => m.ended
  | none, _ => m

/-- Performs an operation. -/
def perform (operation : Operation K V) (m : PlainMap K V) : Reply V × PlainMap K V :=
  match m.phase with
  | .closed => (operation.closedReply m.provider, m)
  | .active => (operation.openReply m.provider m.current m.entries.length, m.serve operation)

end PlainMap

/-- A use of a cache: an operation, or one of those that take several steps. -/
inductive Request (K V : Type) where
  | perform (operation : Operation K V)
  | getOrDefault (key : K) (default : V)
  | putAll (entries : List (K × V))
  | computeIfAbsent (key : K) (value : Except Abort V)

namespace Request

/-- The steps of a request. -/
def script : Request K V → Script (Operation K V) (Reply V) (Reply V)
  | perform operation => .single operation
  | getOrDefault key default => Caching.getOrDefault key default
  | putAll entries => Caching.putAll entries
  | computeIfAbsent key value => Caching.computeIfAbsent key value

/-- The same request, but that entries which are stored together may come in another order. -/
inductive Same : Request K V → Request K V → Prop where
  | refl (request : Request K V) : Same request request
  | putAll {entries entries' : List (K × V)} (distinct : Keyed.Distinct entries)
      (perm : entries.Perm entries') : Same (.putAll entries) (.putAll entries')

end Request

namespace PlainMap

/-- The two maps differ in their names and in the order of their entries at most, and have told of
the same removals. -/
structure Agrees (m m' : PlainMap K V) : Prop where
  phase : m.phase = m'.phase
  entries : m.entries.Perm m'.entries
  told : m.told.Perm m'.told

namespace Agrees

variable {m m' : PlainMap K V}

/-- A map agrees with itself. -/
theorem refl (m : PlainMap K V) : m.Agrees m :=
  ⟨rfl, .refl _, .refl _⟩

/-- Agreement can be passed on. -/
theorem trans {m'' : PlainMap K V} (h : m.Agrees m') (h' : m'.Agrees m'') : m.Agrees m'' :=
  ⟨h.phase.trans h'.phase, h.entries.trans h'.entries, h.told.trans h'.told⟩

variable [DecidableEq K]

private theorem current_eq (h : m.Agrees m') : m.current = m'.current :=
  funext fun key ↦ Keyed.find?_perm h.entries m.distinct key

private theorem carry (h : m.Agrees m') (key : K) (deed : Deed V) :
    (m.carry key deed).Agrees (m'.carry key deed) := by
  have htold : (m.told ++ deed.removed key (m.current key)).Perm
      (m'.told ++ deed.removed key (m'.current key)) := by
    rw [h.current_eq]
    exact h.told.append_right _
  cases deed with
  | store value => exact ⟨h.phase, Keyed.insert_congr_perm m.distinct h.entries key value, htold⟩
  | remove => exact ⟨h.phase, Keyed.erase_congr_perm h.entries key, htold⟩
  | ignore | abandon | read | keep => exact h

variable [DecidableEq V]

/-- Operations keep maps in agreement, and they are answered alike. -/
theorem perform (h : m.Agrees m') (operation : Operation K V) :
    (m.perform operation).1 = (m'.perform operation).1.named m.provider ∧
      (m.perform operation).2.Agrees (m'.perform operation).2 := by
  rw [PlainMap.perform, PlainMap.perform, ← h.phase]
  cases m.phase with
  | closed => exact ⟨(operation.named_closedReply _ _).symm, h⟩
  | active =>
    refine ⟨?_, ?_⟩
    · rw [Operation.named_openReply, h.current_eq, h.entries.length_eq]
    · cases hkey : operation.key? with
      | some key =>
        simp only [serve, hkey, h.current_eq]
        exact h.carry key _
      | none =>
        cases operation with
        | clear => exact ⟨h.phase, .refl _, h.told.append (h.entries.map _)⟩
        | close => exact ⟨rfl, .refl _, h.told⟩
        | size | state | provider => exact h
        | _ => cases hkey

omit [DecidableEq V] in
private theorem store_comm (h : m.Agrees m') {key other : K} (hne : key ≠ other) (a b : V) :
    ((m.carry key (.store a)).carry other (.store b)).Agrees
      ((m'.carry other (.store b)).carry key (.store a)) := by
  have hkey := congrFun h.current_eq key
  have hother := congrFun h.current_eq other
  refine ⟨h.phase, ?_, ?_⟩
  · refine (Keyed.insert_congr_perm (m.distinct.insert key a)
      (Keyed.insert_congr_perm m.distinct h.entries key a) other b).trans ?_
    exact Keyed.insert_insert_comm hne m'.distinct a b
  · have hlater (n : PlainMap K V) : (n.carry key (.store a)).current other = n.current other :=
      Keyed.find?_insert_of_ne hne.symm a n.entries
    have hlater' (n : PlainMap K V) : (n.carry other (.store b)).current key = n.current key :=
      Keyed.find?_insert_of_ne hne b n.entries
    have htold (n : PlainMap K V) : ((n.carry key (.store a)).carry other (.store b)).told =
        n.told ++ (Deed.store a).removed key (n.current key) ++
          (Deed.store b).removed other ((n.carry key (.store a)).current other) := rfl
    have htold' (n : PlainMap K V) : ((n.carry other (.store b)).carry key (.store a)).told =
        n.told ++ (Deed.store b).removed other (n.current other) ++
          (Deed.store a).removed key ((n.carry other (.store b)).current key) := rfl
    rw [htold, htold', hlater, hlater', hkey, hother, List.append_assoc, List.append_assoc]
    exact h.told.append List.perm_append_comm

omit [DecidableEq V] in
private theorem foldl_store_same (h : m.Agrees m') (entries : List (K × V)) :
    (entries.foldl (fun m e ↦ m.carry e.1 (.store e.2)) m).Agrees
      (entries.foldl (fun m e ↦ m.carry e.1 (.store e.2)) m') := by
  induction entries generalizing m m' with
  | nil => exact h
  | cons e rest ih => exact ih (h.carry e.1 (.store e.2))

omit [DecidableEq V] in
private theorem foldl_store (h : m.Agrees m') {xs ys : List (K × V)} (hdistinct : Keyed.Distinct xs)
    (hperm : xs.Perm ys) : (xs.foldl (fun m e ↦ m.carry e.1 (.store e.2)) m).Agrees
      (ys.foldl (fun m e ↦ m.carry e.1 (.store e.2)) m') := by
  induction hperm generalizing m m' with
  | nil => exact h
  | cons e _ ih => exact ih (h.carry e.1 (.store e.2)) (Keyed.distinct_cons.mp hdistinct).2
  | swap e e' rest =>
    obtain ⟨hnot, hrest⟩ := Keyed.distinct_cons.mp hdistinct
    have hne : e'.1 ≠ e.1 := fun heq ↦ hnot (heq ▸ List.mem_cons_self)
    exact (h.store_comm hne e'.2 e.2).foldl_store_same rest
  | trans hperm _ ih ih' => exact (ih h hdistinct).trans (ih' (refl m') (hdistinct.perm hperm))

end Agrees

variable [DecidableEq K] [DecidableEq V]

/-- A closed map refuses. -/
theorem perform_of_closed {m : PlainMap K V} (h : m.phase = .closed) (operation : Operation K V) :
    m.perform operation = (operation.closedReply m.provider, m) := by
  rw [perform, h]

/-- An open map does what its value asks for. -/
theorem perform_of_key {m : PlainMap K V} (h : m.phase = .active) {operation : Operation K V}
    {key : K} (hkey : operation.key? = some key) :
    m.perform operation =
      (operation.answer (m.current key), m.carry key (operation.deed (m.current key))) := by
  simp only [perform, h, Operation.openReply, serve, hkey]

/-- A closed map stores nothing. -/
theorem run_putAll_of_closed {m : PlainMap K V} (h : m.phase = .closed) (entries : List (K × V)) :
    (putAll entries).run perform m =
      (if entries.isEmpty then .ok .done else .refused m.provider, m) := by
  cases entries with
  | nil => rfl
  | cons e rest => simp [putAll, Script.run, perform, h, Operation.closedReply, Reply.refused,
      Reply.failed]

/-- An open map stores all entries. -/
theorem run_putAll_of_active {m : PlainMap K V} (h : m.phase = .active) (entries : List (K × V)) :
    (putAll entries).run perform m =
      (.ok .done, entries.foldl (fun m e ↦ m.carry e.1 (.store e.2)) m) := by
  induction entries generalizing m with
  | nil => rfl
  | cons e rest ih =>
    have hput : m.perform (.put e.1 e.2) =
        (.ok (.value (m.current e.1)), m.carry e.1 (.store e.2)) := by
      rw [perform, h]
      rfl
    have hphase : (m.carry e.1 (.store e.2)).phase = .active := h
    simp only [putAll, Script.run, hput, List.foldl_cons]
    exact ih hphase

private theorem Agrees.getOrDefault {m m' : PlainMap K V} (h : m.Agrees m') (key : K)
    (default : V) : ((Caching.getOrDefault key default).run PlainMap.perform m).1 =
        (((Caching.getOrDefault key default).run PlainMap.perform m').1).named m.provider ∧
      ((Caching.getOrDefault key default).run PlainMap.perform m).2.Agrees
        ((Caching.getOrDefault key default).run PlainMap.perform m').2 := by
  simp only [Caching.getOrDefault, Script.run]
  cases hp : m.phase with
  | closed =>
    rw [perform_of_closed hp, perform_of_closed (h.phase.symm.trans hp)]
    exact ⟨rfl, h⟩
  | active =>
    rw [perform_of_key hp rfl, perform_of_key (h.phase.symm.trans hp) rfl, h.current_eq]
    cases m'.current key with
    | none => exact ⟨rfl, h⟩
    | some value => exact ⟨rfl, h⟩

private theorem Agrees.computeIfAbsent {m m' : PlainMap K V} (h : m.Agrees m') (key : K)
    (value : Except Abort V) :
    ((Caching.computeIfAbsent key value).run PlainMap.perform m).1 =
        (((Caching.computeIfAbsent key value).run PlainMap.perform m').1).named m.provider ∧
      ((Caching.computeIfAbsent key value).run PlainMap.perform m).2.Agrees
        ((Caching.computeIfAbsent key value).run PlainMap.perform m').2 := by
  have hp' := h.phase.symm
  simp only [Caching.computeIfAbsent, computeIfAbsentBy, Script.run, id]
  cases hp : m.phase with
  | closed =>
    rw [perform_of_closed hp, perform_of_closed (hp'.trans hp)]
    exact ⟨rfl, h⟩
  | active =>
    rw [perform_of_key hp rfl, perform_of_key (hp'.trans hp) rfl, h.current_eq]
    cases hcurrent : m'.current key with
    | some current => exact ⟨rfl, h⟩
    | none =>
      cases value with
      | error abort => exact ⟨rfl, h⟩
      | ok value =>
        have hread (n : PlainMap K V) (current : Option V) :
            n.carry key ((Operation.get key).deed current) = n := rfl
        have hnone : m.current key = none := (congrFun h.current_eq key).trans hcurrent
        simp only [Operation.answer, Reply.ok, Script.andThen, Script.run, hread]
        rw [perform_of_key hp rfl, perform_of_key (hp'.trans hp) rfl, hnone, hcurrent]
        exact ⟨rfl, h.carry key (.store value)⟩

/-- Requests keep maps in agreement, and they are answered alike. -/
theorem Agrees.run {m m' : PlainMap K V} (h : m.Agrees m') {request request' : Request K V}
    (hsame : request.Same request') :
    (request.script.run PlainMap.perform m).1 =
        ((request'.script.run PlainMap.perform m').1).named m.provider ∧
      (request.script.run PlainMap.perform m).2.Agrees
        (request'.script.run PlainMap.perform m').2 := by
  have hputAll (xs ys : List (K × V)) (hlength : xs.length = ys.length)
      (hstored : (xs.foldl (fun m e ↦ m.carry e.1 (.store e.2)) m).Agrees
        (ys.foldl (fun m e ↦ m.carry e.1 (.store e.2)) m')) :
      ((Caching.putAll xs).run PlainMap.perform m).1 =
          (((Caching.putAll ys).run PlainMap.perform m').1).named m.provider ∧
        ((Caching.putAll xs).run PlainMap.perform m).2.Agrees
          ((Caching.putAll ys).run PlainMap.perform m').2 := by
    cases hp : m.phase with
    | active =>
      rw [run_putAll_of_active hp, run_putAll_of_active (h.phase.symm.trans hp)]
      exact ⟨rfl, hstored⟩
    | closed =>
      rw [run_putAll_of_closed hp, run_putAll_of_closed (h.phase.symm.trans hp)]
      have hempty : xs.isEmpty = ys.isEmpty := by
        rw [Bool.eq_iff_iff, List.isEmpty_iff_length_eq_zero, List.isEmpty_iff_length_eq_zero,
          hlength]
      refine ⟨?_, h⟩
      rw [hempty]
      split <;> rfl
  cases hsame with
  | putAll hdistinct hperm =>
    exact hputAll _ _ hperm.length_eq (h.foldl_store hdistinct hperm)
  | refl =>
    cases request with
    | perform operation => exact h.perform operation
    | putAll entries => exact hputAll entries entries rfl (h.foldl_store_same entries)
    | getOrDefault key default => exact h.getOrDefault key default
    | computeIfAbsent key value => exact h.computeIfAbsent key value

end PlainMap

end Caching
