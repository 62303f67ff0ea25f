import Caching.Toml.Document
import Caching.Toml.Text

/-!
# Reading TOML documents

A document is a sequence of lines: blank lines, comments, headers, and keys with their values.
Tables between braces may nest; the reader takes a number of steps for each, for which the number of
characters suffices.
-/

namespace Caching.Toml

/-- The character may stand in a bare key. -/
def isBare (c : Char) : Bool :=
  c.isAlphanum || c = '_' || c = '-'

/-- Reads one part of a key. -/
def readSimpleKey (cs : List Char) : Option (String × List Char) :=
  match cs with
  | '"' :: rest => (readBasic cs.length rest).map fun (s, rest) ↦ (String.ofList s, rest)
  | '\'' :: rest => (readLiteral rest).map fun (s, rest) ↦ (String.ofList s, rest)
  | cs =>
    let key := cs.takeWhile isBare
    if key.isEmpty then none else some (String.ofList key, cs.dropWhile isBare)

/-- Reads a key, the parts of which stand between dots. -/
def readKey : Nat → List Char → Option (List String × List Char)
  | 0, _ => none
  | steps + 1, cs =>
    match readSimpleKey cs with
    | none => none
    | some (part, rest) =>
      match skipSpace rest with
      | '.' :: rest => (readKey steps (skipSpace rest)).map fun (path, rest) ↦ (part :: path, rest)
      | rest => some ([part], rest)

/-- Drops the underscores of digits; each has to stand between two digits. -/
def withoutUnderscores : List Char → Option (List Char)
  | [] => none
  | [c] => if c = '_' then none else some [c]
  | c :: '_' :: rest => if c = '_' then none else (withoutUnderscores rest).map (c :: ·)
  | c :: rest => if c = '_' then none else (withoutUnderscores rest).map (c :: ·)

/-- The number that one or more digits of a base spell, underscores between them aside. -/
def digits? (base : Nat) (cs : List Char) : Option Nat :=
  if cs.isEmpty then none else (withoutUnderscores cs).bind (Text.digitsValue? base)

/-- The whole number of a literal in base ten, which has no zeros in front. -/
def decimal? : List Char → Option Nat
  | ['0'] => some 0
  | '0' :: _ => none
  | cs => digits? 10 cs

/-- The value of a literal without quotes. -/
def bareValue? : List Char → Option Value
  | ['t', 'r', 'u', 'e'] => some (.flag true)
  | ['f', 'a', 'l', 's', 'e'] => some (.flag false)
  | '0' :: 'x' :: cs => (digits? 16 cs).map .number
  | '0' :: 'o' :: cs => (digits? 8 cs).map .number
  | '0' :: 'b' :: cs => (digits? 2 cs).map .number
  | '+' :: cs => (decimal? cs).map .number
  | ['-', '0'] => some (.number 0)
  | cs => (decimal? cs).map .number

/-- The character may stand in a literal without quotes. -/
def isLiteral (c : Char) : Bool :=
  isBare c || c = '+' || c = '.' || c = ':'

/-- Reads a key, an equals sign and a value; `value` reads the value. -/
def readPair (value : List Char → Option (Value × List Char)) (cs : List Char) :
    Option ((List String × Value) × List Char) := do
  let (path, rest) ← readKey cs.length cs
  match skipSpace rest with
  | '=' :: rest =>
    let (v, rest) ← value (skipSpace rest)
    return ((path, v), rest)
  | _ => none

/-- Reads the pairs between braces from one key on, into the table so far. -/
def readPairs (value : List Char → Option (Value × List Char)) :
    Nat → Table → List Char → Option (Table × List Char)
  | 0, _, _ => none
  | steps + 1, t, cs =>
    match skipLines cs.length cs with
    | '\x7d' :: rest => some (t, rest)
    | cs =>
      match readPair value cs with
      | none => none
      | some ((path, v), rest) =>
        match t.add? path v, skipLines rest.length rest with
        | some t, '\x7d' :: rest => some (t, rest)
        | some t, ',' :: rest => readPairs value steps t rest
        | _, _ => none

/-- Reads a value. -/
def readValue : Nat → List Char → Option (Value × List Char)
  | 0, _ => none
  | steps + 1, cs =>
    match cs with
    | '[' :: rest =>
      match skipLines rest.length rest with
      | ']' :: rest => some (.emptyArray, rest)
      | _ => none
    | '\x7b' :: rest =>
      (readPairs (readValue steps) rest.length [] rest).map fun (t, rest) ↦
        (.table .braces t, rest)
    | '"' :: _ | '\'' :: _ =>
      (readString cs).map fun (s, rest) ↦ (.text (String.ofList s), rest)
    | cs => (bareValue? (cs.takeWhile isLiteral)).map fun v ↦ (v, cs.dropWhile isLiteral)

/-- Reads a header. -/
def readHeader (cs : List Char) : Option (List String × List Char) := do
  let cs := skipSpace cs
  match ← readKey cs.length cs with
  | (path, ']' :: rest) => return (path, rest)
  | _ => none

/-- The part of a document that was read: its table, and the header under which further keys fall.
-/
structure Draft where
  table : Table
  header : List String

/-- Reads what a line holds, if it holds more than blanks and a comment. -/
def readContent (draft : Draft) (cs : List Char) : Option (Draft × List Char) :=
  match cs with
  | '[' :: rest => do
    let (path, rest) ← readHeader rest
    let table ← draft.table.open? path
    return (⟨table, path⟩, rest)
  | _ => do
    let ((path, v), rest) ← readPair (readValue cs.length) cs
    let table ← draft.table.addUnder? draft.header path v
    return ({ draft with table }, rest)

/-- Reads the lines of a document. -/
def readLines : Nat → Draft → List Char → Option Table
  | 0, _, _ => none
  | steps + 1, draft, cs =>
    let cs := skipSpace cs
    let line : Option (Draft × List Char) :=
      match cs with
      | [] | '#' :: _ | '\n' :: _ | '\r' :: _ => some (draft, cs)
      | _ => readContent draft cs
    match line with
    | none => none
    | some (draft, rest) =>
      match skipComment (skipSpace rest) with
      | [] => some draft.table
      | rest =>
        match lineEnd? rest with
        | some rest => readLines steps draft rest
        | none => none

/-- The table that a document spells. A byte order mark in front does not count. -/
def ofText? (text : String) : Option Table :=
  let cs := match text.toList with
    | '\ufeff' :: rest => rest
    | cs => cs
  readLines (cs.length + 1) ⟨[], []⟩ cs

end Caching.Toml
