import Caching.Json.Number
import Caching.Text.Unsigned

/-!
# Tokens of JSON documents

The marks, names, strings and numbers of a document from left to right, blanks left out. Where the
text is no JSON the tokens end in `malformed`, so that a reader meets every earlier problem first.
-/

namespace Caching.Json

/-- One token. -/
inductive Token where
  | openBrace
  | closeBrace
  | openBracket
  | closeBracket
  | comma
  | colon
  | null
  | flag (b : Bool)
  | text (s : String)
  | number (n : Number)
  | malformed
  deriving DecidableEq, Repr

/-- The blanks between tokens. -/
def isSpace (c : Char) : Bool :=
  c = ' ' || c = '\t' || c = '\n' || c = '\r'

/-- The number of four hexadecimal digits. -/
def hexWord? (a b c d : Char) : Option Nat :=
  Text.digitsValue? 16 [a, b, c, d]

/-- The character of a one-letter escape. -/
def escaped? : Char → Option Char
  | '"' => some '"'
  | '\\' => some '\\'
  | '/' => some '/'
  | 'b' => some '\x08'
  | 'f' => some '\x0c'
  | 'n' => some '\n'
  | 'r' => some '\r'
  | 't' => some '\t'
  | _ => none

/-- Adds a character in front of a text that was read. -/
def push (c : Char) (r : List Char × List Char) : List Char × List Char :=
  (c :: r.1, r.2)

/-- Reads a string up to its closing quote. A character outside the basic plane may be escaped as a
pair of surrogates; a surrogate alone is refused. -/
def readString : List Char → Option (List Char × List Char)
  | '"' :: rest => some ([], rest)
  | '\\' :: 'u' :: a :: b :: c :: d :: rest =>
    match hexWord? a b c d with
    | none => none
    | some high =>
      if 0xD800 ≤ high ∧ high < 0xDC00 then
        match rest with
        | '\\' :: 'u' :: e :: f :: g :: h :: rest =>
          match hexWord? e f g h with
          | none => none
          | some low =>
            if 0xDC00 ≤ low ∧ low < 0xE000 then
              (readString rest).map
                (push (Char.ofNat (0x10000 + 0x400 * (high - 0xD800) + (low - 0xDC00))))
            else none
        | _ => none
      else if 0xDC00 ≤ high ∧ high < 0xE000 then none
      else (readString rest).map (push (Char.ofNat high))
  | '\\' :: c :: rest =>
    match escaped? c with
    | some e => (readString rest).map (push e)
    | none => none
  | c :: rest => if c.toNat < 0x20 ∨ c = '\\' then none else (readString rest).map (push c)
  | [] => none

/-- Reads one token, whose first character is `c`. -/
def readToken (c : Char) (rest : List Char) : Option (Token × List Char) :=
  match c, rest with
  | '\x7b', r => some (.openBrace, r)
  | '\x7d', r => some (.closeBrace, r)
  | '[', r => some (.openBracket, r)
  | ']', r => some (.closeBracket, r)
  | ',', r => some (.comma, r)
  | ':', r => some (.colon, r)
  | '"', r => (readString r).map fun (s, r) ↦ (.text (String.ofList s), r)
  | 'n', 'u' :: 'l' :: 'l' :: r => some (.null, r)
  | 't', 'r' :: 'u' :: 'e' :: r => some (.flag true, r)
  | 'f', 'a' :: 'l' :: 's' :: 'e' :: r => some (.flag false, r)
  | '-', r => (readNumber true r).map fun (n, r) ↦ (.number n, r)
  | c, r => (readNumber false (c :: r)).map fun (n, r) ↦ (.number n, r)

/-- The first `count` tokens of a text. -/
def readTokens : Nat → List Char → List Token
  | 0, _ => []
  | count + 1, cs =>
    match cs.dropWhile isSpace with
    | [] => []
    | c :: rest =>
      match readToken c rest with
      | some (token, rest) => token :: readTokens count rest
      | none => [.malformed]

/-- The tokens of a text; there are no more of them than characters. -/
def tokens (cs : List Char) : List Token :=
  readTokens cs.length cs

end Caching.Json
