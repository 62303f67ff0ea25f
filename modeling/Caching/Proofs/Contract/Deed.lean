import Caching.Contract.Operation

/-!
# Deeds

Every operation on one key does the same three things: it looks at the live value of the key,
answers by that value alone, and does a deed with the entry. Which deed and which answer is a matter
of the contract; what a deed does to the stored entries is a matter of the engine.
-/

namespace Caching

/-- What an operation does with the entry of its key, once it has seen the live value. -/
inductive Deed (V : Type) where
  /-- Looks, and leaves no trace of it. -/
  | ignore
  /-- Gives up after looking, as a function of the caller did. -/
  | abandon
  /-- Reads the value. -/
  | read
  /-- Leaves the value as it is. -/
  | keep
  | store (value : V)
  | remove

namespace Deed

variable {V : Type}

/-- What a remapping function decides. -/
def ofRemapped : Except Abort (Option V) → Deed V
  | .ok (some value) => store value
  | .ok none => remove
  | .error _ => abandon

/-- The value that the deed stores, if it stores one. -/
def stored : Deed V → Option V
  | store value => some value
  | ignore | abandon | read | keep | remove => none

/-- The entry that the deed stores under a key, if it stores one. -/
def storedUnder {K : Type} (deed : Deed V) (key : K) : List (K × V) :=
  deed.stored.toList.map fun value ↦ (key, value)

end Deed

namespace Operation

variable {K V : Type}

/-- The key that an operation is about. -/
def key? : Operation K V → Option K
  | .get key | .put key _ | .putIfAbsent key _ | .replace key _ | .replaceIf key _ _
  | .compute key _ | .computeIfPresent key _ | .merge key _ _ | .remove key
  | .containsKey key => some key
  | .size | .clear | .close | .state | .provider => none

/-- What an operation does with the entry of its key, given the live value. -/
def deed [DecidableEq V] : Operation K V → Option V → Deed V
  | .get _, _ => .read
  | .put _ value, _ => .store value
  | .putIfAbsent _ _, some _ => .keep
  | .putIfAbsent _ value, none => .store value
  | .replace _ value, some _ => .store value
  | .replace _ _, none => .keep
  | .replaceIf _ expected value, current =>
    if current = some expected then .store value else .keep
  | .compute _ remap, current => .ofRemapped (remap current)
  | .computeIfPresent _ remap, some current => .ofRemapped (remap current)
  | .computeIfPresent _ _, none => .keep
  | .merge _ value combine, some current => .ofRemapped (combine current value)
  | .merge _ value _, none => .store value
  | .remove _, _ => .remove
  | .containsKey _, _ | .size, _ | .clear, _ | .close, _ | .state, _ | .provider, _ => .ignore

/-- The answer of a remapping function, which was shown some values. -/
def remapped (shown : List (Option V)) : Except Abort (Option V) → Reply V
  | .ok value => ⟨.ok (.value value), shown⟩
  | .error abort => .failed (.abort abort)

/-- What an operation on one key answers, given the live value; any other one just confirms. -/
def answer [DecidableEq V] : Operation K V → Option V → Reply V
  | .get _, current | .put _ _, current | .putIfAbsent _ _, current | .replace _ _, current
  | .remove _, current => .ok (.value current)
  | .replaceIf _ expected _, current => .ok (.flag (decide (current = some expected)))
  | .compute _ remap, current => remapped [current] (remap current)
  | .computeIfPresent _ remap, some current => remapped [some current] (remap current)
  | .computeIfPresent _ _, none => .ok (.value none)
  | .merge _ value combine, some current => remapped [some current] (combine current value)
  | .merge _ value _, none => .ok (.value (some value))
  | .containsKey _, current => .ok (.flag current.isSome)
  | .size, _ | .clear, _ | .close, _ | .state, _ | .provider, _ => .ok .done

/-- What an open cache answers, given its live values and their number. -/
def openReply [DecidableEq V] (provider : Provider) (current : K → Option V) (count : Nat)
    (operation : Operation K V) : Reply V :=
  match operation.key?, operation with
  | some key, operation => operation.answer (current key)
  | none, .size => .ok (.count count)
  | none, .state => .ok (.phase .active)
  | none, .provider => .ok (.provider provider)
  | none, _ => .ok .done

/-- What a closed cache answers. -/
def closedReply (provider : Provider) : Operation K V → Reply V
  | .close => .ok .done
  | .state => .ok (.phase .closed)
  | .provider => .ok (.provider provider)
  | _ => .refused provider

/-- The pair that an operation has stored, as its reply tells. -/
def accepted (operation : Operation K V) (reply : Reply V) : Option (K × V) :=
  match operation, reply.outcome with
  | .put key value, .ok _ => some (key, value)
  | .putIfAbsent key value, .ok (.value none) => some (key, value)
  | .replace key value, .ok (.value (some _)) => some (key, value)
  | .replaceIf key _ value, .ok (.flag true) => some (key, value)
  | .compute key _, .ok (.value (some value)) => some (key, value)
  | .computeIfPresent key _, .ok (.value (some value)) => some (key, value)
  | .merge key _ _, .ok (.value (some value)) => some (key, value)
  | _, _ => none

/-- The operation was to take entries out, as its reply tells. -/
def dismissed (operation : Operation K V) (reply : Reply V) : Bool :=
  match operation, reply.outcome with
  | .remove _, .ok _ | .clear, .ok _ => true
  | .compute _ _, .ok (.value none) | .computeIfPresent _ _, .ok (.value none)
  | .merge _ _ _, .ok (.value none) => true
  | _, _ => false

/-- A reply tells of a removal whenever the deed was one. -/
theorem dismissed_answer [DecidableEq V] {operation : Operation K V} {current : Option V}
    (h : operation.deed current = .remove) :
    operation.dismissed (operation.answer current) = true := by
  cases operation with
  | remove key => rfl
  | replaceIf key expected value =>
    rw [deed] at h
    split at h <;> cases h
  | putIfAbsent | replace => cases current <;> cases h
  | compute key remap =>
    rcases hr : remap current with abort | (_ | value) <;> simp [deed, hr, Deed.ofRemapped] at h
    simp [dismissed, answer, remapped, hr]
  | computeIfPresent key remap =>
    cases current with
    | none => cases h
    | some current =>
      rcases hr : remap current with abort | (_ | value) <;> simp [deed, hr, Deed.ofRemapped] at h
      simp [dismissed, answer, remapped, hr]
  | merge key value combine =>
    cases current with
    | none => cases h
    | some current =>
      rcases hr : combine current value with abort | (_ | value) <;>
        simp [deed, hr, Deed.ofRemapped] at h
      simp [dismissed, answer, remapped, hr]
  | _ => cases h

/-- A reply tells of a store exactly when the deed was one. -/
theorem accepted_answer [DecidableEq V] {operation : Operation K V} {key : K}
    (hkey : operation.key? = some key) (current : Option V) :
    operation.accepted (operation.answer current) =
      (operation.deed current).stored.map fun value ↦ (key, value) := by
  cases operation with
  | get | put | remove | containsKey =>
    simp_all [key?, accepted, answer, deed, Deed.stored, Reply.ok]
  | putIfAbsent | replace =>
    cases current <;> simp_all [key?, accepted, answer, deed, Deed.stored, Reply.ok]
  | replaceIf k expected value =>
    by_cases h : current = some expected <;>
      simp_all [key?, accepted, answer, deed, Deed.stored, Reply.ok]
  | compute k remap =>
    rcases hr : remap current with abort | (_ | value) <;>
      simp_all [key?, accepted, answer, deed, remapped, Deed.ofRemapped, Deed.stored, Reply.failed]
  | computeIfPresent k remap =>
    cases current with
    | none => simp_all [key?, accepted, answer, deed, Deed.stored, Reply.ok]
    | some current =>
      rcases hr : remap current with abort | (_ | value) <;>
        simp_all [key?, accepted, answer, deed, remapped, Deed.ofRemapped, Deed.stored,
          Reply.failed]
  | merge k value combine =>
    cases current with
    | none => simp_all [key?, accepted, answer, deed, Deed.stored, Reply.ok]
    | some current =>
      rcases hr : combine current value with abort | (_ | value) <;>
        simp_all [key?, accepted, answer, deed, remapped, Deed.ofRemapped, Deed.stored,
          Reply.failed]
  | size | clear | close | state | provider => simp [key?] at hkey

end Operation

end Caching
