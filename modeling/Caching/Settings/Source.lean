import Caching.Settings.Environment
import Caching.Settings.File

/-!
# Sources of settings

The places that settings come from. Reading a source gives settings or a fault, and may leave
entries in the log.
-/

namespace Caching.Settings

/-- A place that settings come from. -/
inductive Source where
  | toml (text : String)
  | json (text : String)
  | file (name : String) (found : Found)
  /-- The environment of the process, as a lookup by name. -/
  | environment (lookup : String → Option String)
  /-- Any other lookup by name. -/
  | table (lookup : String → Option String)
  | literal (settings : Settings)

/-- Reads a source. -/
def Source.read : Source → Except Fault Settings × List LogEntry
  | toml text => (fromToml text, [])
  | json text => (fromJson text, [])
  | file name found => (fromFile name found, fileLog name found)
  | environment lookup =>
    match ofLookup lookup with
    | .ok s => (.ok s, environmentLog s)
    | .error fault => (.error fault, [])
  | table lookup => (ofLookup lookup, [])
  | literal s => (.ok s, [])

/-- Merges what was read over the settings so far; a fault leaves them as they are. -/
def mergeRead (earlier : Settings) : Except Fault Settings → Settings
  | .ok later => earlier.merge later
  | .error _ => earlier

end Caching.Settings
