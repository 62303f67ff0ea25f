import Caching.Fault
import Caching.Settings.Json
import Caching.Settings.Toml

/-!
# Settings from files

The end of a file's name says in which form the file is written. A file is read before its form is
looked at, so a file that cannot be read is reported as such whatever its name.
-/

namespace Caching.Settings

/-- The settings of a JSON document. -/
def fromJson (text : String) : Except Fault Settings :=
  match ofJson text with
  | .ok s => .ok s
  | .error problem => .error (.config ("Invalid JSON format: " ++ problem.message))

/-- The settings of a TOML document. -/
def fromToml (text : String) : Except Fault Settings :=
  match ofToml? text with
  | some s => .ok s
  | none => .error (.config "Invalid TOML format")

/-- What is found under a path. -/
inductive Found where
  | nothing
  | directory
  | bytes (content : ByteArray)

/-- What follows the last dot of a name, unless that dot is its first character or there is none. -/
def extension (name : String) : String :=
  let after := name.toList.reverse.takeWhile (· != '.')
  if after.length + 1 < name.length then String.ofList after.reverse else ""

/-- The text of a file. -/
def readText : Found → Except String String
  | .nothing => .error "No such file or directory (os error 2)"
  | .directory => .error "Is a directory (os error 21)"
  | .bytes content =>
    match String.fromUTF8? content with
    | some text => .ok text
    | none => .error "stream did not contain valid UTF-8"

/-- The settings of a file; `SPEC_FULL.md`, section 15.3. -/
def fromFile (name : String) (found : Found) : Except Fault Settings :=
  match found with
  | .nothing => .error (.config ("Settings file not found: " ++ name))
  | found =>
    match readText found with
    | .error problem => .error (.config ("Failed to read settings file: " ++ problem))
    | .ok text =>
      match extension name with
      | "toml" => fromToml text
      | "json" => fromJson text
      | other => .error (.config ("Unsupported settings format: '" ++ other ++ "'"))

/-- What the log says when a file is read. -/
def fileLog (name : String) : Found → List LogEntry
  | .nothing => []
  | _ => [⟨.info, "Loading cache settings from file", [("path", name)]⟩]

end Caching.Settings
