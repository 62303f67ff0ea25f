import Caching.Running.Engine

/-!
# The vacant engine

Retains nothing. Whatever is stored is removed on arrival, for want of space.
-/

namespace Caching

/-- A store that is always empty; `SPEC_FULL.md`, section 13. -/
structure Vacant where
  deriving DecidableEq, Repr

namespace Vacant

variable {K V : Type}

/-- Refuses an entry. -/
def bounce (report : Report Vacant K V) (key : K) (value : V) (w : Running Vacant K V) :
    Running Vacant K V :=
  report ⟨key, value, .size⟩ w

instance : Engine Vacant K V where
  reading w := .ok w.host.start
  get _ _ _ w := (none, w)
  put report _ key value w := (none, bounce report key value w)
  putIfAbsent report _ key value w := (none, bounce report key value w)
  replace _ _ _ _ w := (none, w)
  alter report _ key decide w :=
    match decide none with
    | .error abort => (.error abort, w)
    | .ok (.store value) => (.ok ⟨none, some value⟩, bounce report key value w)
    | .ok .keep | .ok .remove => (.ok ⟨none, none⟩, w)
  remove _ _ _ w := (none, w)
  containsKey _ _ _ := false
  size _ _ w := (0, w)
  clear _ _ w := w
  teardown w := w
  farewell _ := []
  lapse _ _ _ w := w
  upkeep _ w := w

end Vacant

end Caching
