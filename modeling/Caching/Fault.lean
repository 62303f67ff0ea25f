import Caching.Text.Quoted
import Caching.Vocabulary.Provider
import Caching.Vocabulary.Capability

/-!
# Faults and log entries

Everything that can go wrong while a cache is described, resolved, created or used, each with its
wording. Only `closedCache` can meet a cache that already exists. Faults are for the caller; what
the library tells an operator about its own doings are log entries.
-/

namespace Caching

/-- A refused request; `SPEC_FULL.md`, sections 7 and 15.2. -/
inductive Fault where
  | invalidSpecification (detail : String)
  | builderFinalized
  | providerUnavailable (provider : Provider)
  | noProviderAvailable
  | unsupportedCapability (provider : Provider) (capability : Capability)
  | closedCache (provider : Provider)
  | config (detail : String)
  | scheduler (detail : String)
  deriving DecidableEq, Repr

namespace Fault

/-- The wording of the fault. -/
def message : Fault → String
  | invalidSpecification detail => "Invalid cache specification: " ++ detail
  | builderFinalized => "Cache specification builder has already been finalized"
  | providerUnavailable provider =>
    "Cache provider '" ++ Named.name provider ++ "' is not available"
  | noProviderAvailable => "No cache provider is available"
  | unsupportedCapability provider capability =>
    "Cache provider '" ++ Named.name provider ++ "' does not support " ++ capability.phrase
  | closedCache provider => "Cache backed by '" ++ Named.name provider ++ "' is closed"
  | config detail => "Configuration error: " ++ detail
  | scheduler detail => "Scheduler error: " ++ detail

/-- The fault as diagnostic output shows it. -/
def debug : Fault → String
  | invalidSpecification detail => "InvalidSpecification(" ++ Text.quoted detail ++ ")"
  | builderFinalized => "BuilderFinalized"
  | providerUnavailable provider => "ProviderUnavailable(" ++ Named.tag provider ++ ")"
  | noProviderAvailable => "NoProviderAvailable"
  | unsupportedCapability provider capability =>
    "UnsupportedCapability \x7b provider: " ++ Named.tag provider ++ ", capability: " ++
      Named.tag capability ++ " \x7d"
  | closedCache provider => "ClosedCache(" ++ Named.tag provider ++ ")"
  | config detail => "Config(" ++ Text.quoted detail ++ ")"
  | scheduler detail => "Scheduler(" ++ Text.quoted detail ++ ")"

/-- The fault reports the use of a closed cache. -/
def isClosed : Fault → Bool
  | closedCache _ => true
  | _ => false

/-- The fault can only arise while a cache is being created. -/
def isConstruction (fault : Fault) : Bool :=
  !fault.isClosed

end Fault

/-- How urgent an entry is. -/
inductive Level where
  | debug
  | info
  | warn
  deriving DecidableEq, Repr

namespace Level

/-- The name of the level. -/
def name : Level → String
  | debug => "debug"
  | info => "info"
  | warn => "warn"

end Level

/-- A message with named details; `SPEC_FULL.md`, section 15.1. -/
structure LogEntry where
  level : Level
  message : String
  fields : List (String × String)
  deriving DecidableEq, Repr

end Caching
