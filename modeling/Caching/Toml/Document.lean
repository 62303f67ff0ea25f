/-!
# TOML documents

A document is a table of values, some of which are tables again. How a table came about decides
whether it may be extended: a table between braces is complete, one with a header of its own may not
get a second one, and dotted keys do not reach into it.
-/

namespace Caching.Toml

/-- How a table came about. -/
inductive Origin where
  /-- It was written between braces. -/
  | braces
  /-- It has a header. -/
  | header
  /-- It lies on the way to a table with a header. -/
  | passed
  /-- It lies on the way of a dotted key. -/
  | dotted
  deriving DecidableEq, Repr

/-- A value. Numbers that are not whole or are negative, dates, and arrays with elements have no
place in settings and none here. -/
inductive Value where
  | text (s : String)
  | number (n : Nat)
  | flag (b : Bool)
  | emptyArray
  | table (origin : Origin) (entries : List (String × Value))

/-- A table. -/
abbrev Table := List (String × Value)

namespace Table

/-- What stands under a key. -/
def find? (key : String) (t : Table) : Option Value :=
  List.lookup key t

/-- The table with another value under a key. -/
def set (key : String) (v : Value) (t : Table) : Table :=
  (key, v) :: t.filter fun e ↦ e.1 != key

/-- Adds a value under a dotted key. -/
def add? : List String → Value → Table → Option Table
  | [], _, _ => none
  | [key], v, t =>
    match find? key t with
    | none => some (set key v t)
    | some _ => none
  | key :: path, v, t =>
    match find? key t with
    | none => (add? path v []).map fun inner ↦ set key (.table .dotted inner) t
    | some (.table .dotted inner) =>
      (add? path v inner).map fun inner ↦ set key (.table .dotted inner) t
    | some (.table .passed inner) =>
      (add? path v inner).map fun inner ↦ set key (.table .passed inner) t
    | some _ => none

/-- Starts the table with a header. -/
def open? : List String → Table → Option Table
  | [], _ => none
  | [key], t =>
    match find? key t with
    | none => some (set key (.table .header []) t)
    | some (.table .passed inner) => some (set key (.table .header inner) t)
    | some _ => none
  | key :: path, t =>
    match find? key t with
    | none => (open? path []).map fun inner ↦ set key (.table .passed inner) t
    | some (.table .braces _) => none
    | some (.table origin inner) =>
      (open? path inner).map fun inner ↦ set key (.table origin inner) t
    | some _ => none

/-- Adds a value under a dotted key to the table with a header. -/
def addUnder? : List String → List String → Value → Table → Option Table
  | [], path, v, t => add? path v t
  | key :: header, path, v, t =>
    match find? key t with
    | some (.table origin inner) =>
      (addUnder? header path v inner).map fun inner ↦ set key (.table origin inner) t
    | _ => none

end Table

end Caching.Toml
