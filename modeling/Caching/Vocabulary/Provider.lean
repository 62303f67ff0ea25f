import Caching.Vocabulary.Named

/-!
# Providers

The engines that can stand behind a cache, in the order in which they are tried when none is asked
for.
-/

namespace Caching

/-- A cache engine that can be asked for by name; `SPEC_FULL.md`, section 11. -/
inductive Provider where
  | moka
  | lru
  | dashMap
  deriving DecidableEq, Repr

namespace Provider

instance : Named Provider where
  kind := "ProviderId"
  members := [moka, lru, dashMap]
  name
    | moka => "moka"
    | lru => "lru"
    | dashMap => "dashmap"
  tag
    | moka => "Moka"
    | lru => "Lru"
    | dashMap => "DashMap"

/-- The order in which providers are tried; `SPEC_FULL.md`, section 11. -/
def resolutionOrder : List Provider := [moka, lru, dashMap]

/-- The place in the order of resolution; the lower one wins. -/
def priority : Provider → Nat
  | moka => 0
  | lru => 1
  | dashMap => 2

end Provider

end Caching
