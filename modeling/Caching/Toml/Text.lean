import Caching.Text.Unsigned

/-!
# Text in TOML documents

Blanks, line ends, comments, and the four kinds of strings. Controls other than the tab are refused
everywhere. Each reader takes its part from the front of the characters, or fails; strings are read
within a number of steps, for which the number of characters suffices.
-/

namespace Caching.Toml

/-- The blanks within a line. -/
def isSpace (c : Char) : Bool :=
  c = ' ' || c = '\t'

/-- The character may stand in a comment or string. -/
def isPlain (c : Char) : Bool :=
  c = '\t' || (0x20 ≤ c.toNat && c.toNat ≠ 0x7F)

/-- Skips the blanks within a line. -/
def skipSpace (cs : List Char) : List Char :=
  cs.dropWhile isSpace

/-- Takes a line end. -/
def lineEnd? : List Char → Option (List Char)
  | '\n' :: rest => some rest
  | '\r' :: '\n' :: rest => some rest
  | _ => none

/-- Skips a comment, if there is one, up to its line end. -/
def skipComment : List Char → List Char
  | '#' :: rest => rest.dropWhile isPlain
  | cs => cs

/-- Skips blanks, comments and line ends. -/
def skipLines : Nat → List Char → List Char
  | 0, cs => cs
  | steps + 1, cs =>
    let cs := skipComment (skipSpace cs)
    match lineEnd? cs with
    | some rest => skipLines steps rest
    | none => cs

/-- The character with a number, unless it is a surrogate or too large. -/
def scalar? (n : Nat) : Option Char :=
  if n.isValidChar then some (Char.ofNat n) else none

/-- Takes the number of that many hexadecimal digits as a character. -/
def hexChar? (count : Nat) (cs : List Char) : Option (Char × List Char) :=
  if cs.length < count then none
  else do
    let n ← Text.digitsValue? 16 (cs.take count)
    return (← scalar? n, cs.drop count)

/-- Takes what follows the backslash of an escape. -/
def escape? : List Char → Option (Char × List Char)
  | 'b' :: rest => some ('\x08', rest)
  | 't' :: rest => some ('\t', rest)
  | 'n' :: rest => some ('\n', rest)
  | 'f' :: rest => some ('\x0c', rest)
  | 'r' :: rest => some ('\r', rest)
  | 'e' :: rest => some ('\x1b', rest)
  | '"' :: rest => some ('"', rest)
  | '\\' :: rest => some ('\\', rest)
  | 'x' :: rest => hexChar? 2 rest
  | 'u' :: rest => hexChar? 4 rest
  | 'U' :: rest => hexChar? 8 rest
  | _ => none

/-- Adds a character in front of a text that was read. -/
def cons (c : Char) (r : List Char × List Char) : List Char × List Char :=
  (c :: r.1, r.2)

/-- Reads a basic string of one line, up to its closing quote. -/
def readBasic : Nat → List Char → Option (List Char × List Char)
  | 0, _ => none
  | _, '"' :: rest => some ([], rest)
  | steps + 1, '\\' :: rest =>
    match escape? rest with
    | some (c, rest) => (readBasic steps rest).map (cons c)
    | none => none
  | steps + 1, c :: rest => if isPlain c then (readBasic steps rest).map (cons c) else none
  | _, [] => none

/-- Reads a literal string of one line, up to its closing quote. -/
def readLiteral : List Char → Option (List Char × List Char)
  | '\'' :: rest => some ([], rest)
  | c :: rest => if isPlain c then (readLiteral rest).map (cons c) else none
  | [] => none

/-- The end of a string of several lines, before which one or two more quotes may stand. -/
def closing? (quote : Char) (cs : List Char) : Option (List Char × List Char) :=
  let count := (cs.takeWhile (· == quote)).length
  if count < 3 then none
  else
    let extra := min (count - 3) 2
    some (List.replicate extra quote, cs.drop (3 + extra))

/-- Skips blanks and line ends. -/
def skipBlankLines : Nat → List Char → List Char
  | 0, cs => cs
  | steps + 1, cs =>
    let cs := skipSpace cs
    match lineEnd? cs with
    | some rest => skipBlankLines steps rest
    | none => cs

/-- Reads a string of several lines up to its closing quotes, escapes included unless it is literal.
-/
def readLong (quote : Char) : Nat → List Char → Option (List Char × List Char)
  | 0, _ => none
  | steps + 1, cs =>
    match closing? quote cs with
    | some r => some r
    | none =>
      match cs with
      | [] => none
      | c :: rest =>
        if c = '\\' ∧ quote = '"' then
          match escape? rest with
          | some (c, rest) => (readLong quote steps rest).map (cons c)
          | none =>
            match lineEnd? (skipSpace rest) with
            | some rest => readLong quote steps (skipBlankLines steps rest)
            | none => none
        else
          match lineEnd? (c :: rest) with
          | some rest => (readLong quote steps rest).map (cons '\n')
          | none => if isPlain c then (readLong quote steps rest).map (cons c) else none

/-- A line end right after the opening quotes does not count. -/
private def skipLineEnd (cs : List Char) : List Char :=
  (lineEnd? cs).getD cs

/-- Reads a string of any kind. -/
def readString (cs : List Char) : Option (List Char × List Char) :=
  match cs with
  | '"' :: '"' :: '"' :: rest => readLong '"' cs.length (skipLineEnd rest)
  | '\'' :: '\'' :: '\'' :: rest => readLong '\'' cs.length (skipLineEnd rest)
  | '"' :: rest => readBasic cs.length rest
  | '\'' :: rest => readLiteral rest
  | _ => none

end Caching.Toml
