import Caching.Proofs.Text.Digits
import Caching.Toml.Reader

/-!
# The grammar of TOML lines

Documents whose lines are entries, blank or comments, with any blanks within a line. Keys of entries
are bare, and values are strings without escapes, numbers in base ten and truth values. Any other
key that TOML has on its own can be told too, escapes included.
-/

namespace Caching.Toml

/-! ### Keys and values -/

/-- The character stands for itself between double quotes. -/
def IsRaw (c : Char) : Prop :=
  isPlain c = true ∧ c ≠ '"' ∧ c ≠ '\\'

/-- The ways to write the values that a line may give. -/
inductive SpellsValue : Value → List Char → Prop where
  | text {s : String} (h : ∀ c ∈ s.toList, IsRaw c) :
      SpellsValue (.text s) ('"' :: s.toList ++ ['"'])
  | number (n : Nat) : SpellsValue (.number n) (Text.decimal n)
  | yes : SpellsValue (.flag true) ['t', 'r', 'u', 'e']
  | no : SpellsValue (.flag false) ['f', 'a', 'l', 's', 'e']

/-- One or more characters that need no quotes. -/
structure IsBareKey (cs : List Char) : Prop where
  nonempty : cs ≠ []
  bare : ∀ c ∈ cs, isBare c = true

/-- The letters that stand for a character behind a backslash. -/
def letters : List (Char × Char) :=
  [('b', '\x08'), ('t', '\t'), ('n', '\n'), ('f', '\x0c'), ('r', '\r'), ('e', '\x1b'), ('"', '"'),
    ('\\', '\\')]

/-- The letters behind which a number stands, and how many digits it has. -/
def numberings : List (Char × Nat) :=
  [('x', 2), ('u', 4), ('U', 8)]

/-- The ways to write a character between double quotes. -/
inductive SpellsChar : Char → List Char → Prop where
  | raw {c : Char} (h : IsRaw c) : SpellsChar c [c]
  | letter {c letter : Char} (h : (letter, c) ∈ letters) : SpellsChar c ['\\', letter]
  | number {c mark : Char} {digits : List Char} (hmark : (mark, digits.length) ∈ numberings)
      (hdigits : Text.digitsValue? 16 digits = some c.toNat) :
      SpellsChar c ('\\' :: mark :: digits)

/-- The ways to write a text between double quotes. -/
inductive SpellsText : List Char → List Char → Prop where
  | nil : SpellsText [] []
  | cons {c : Char} {cs spelled rest : List Char} (h : SpellsChar c spelled)
      (hrest : SpellsText cs rest) : SpellsText (c :: cs) (spelled ++ rest)

/-- The ways to write a key: bare, in single quotes and in double quotes. -/
inductive SpellsKey : String → List Char → Prop where
  | bare {key : String} (h : IsBareKey key.toList) : SpellsKey key key.toList
  | single {key : String} (h : ∀ c ∈ key.toList, isPlain c = true ∧ c ≠ '\'') :
      SpellsKey key ('\'' :: key.toList ++ ['\''])
  | double {key : String} {body : List Char} (h : SpellsText key.toList body) :
      SpellsKey key ('"' :: body ++ ['"'])

/-! ### Lines -/

/-- Blanks within a line. -/
def AreSpaces (cs : List Char) : Prop :=
  ∀ c ∈ cs, isSpace c = true

theorem AreSpaces.of_all {cs : List Char} (h : cs.all isSpace = true) : AreSpaces cs :=
  List.all_eq_true.mp h

/-- A comment up to the end of the line, or none. -/
def IsComment (cs : List Char) : Prop :=
  cs = [] ∨ ∃ body, cs = '#' :: body ∧ ∀ c ∈ body, isPlain c = true

/-- The end of a line. -/
def IsLineEnd (cs : List Char) : Prop :=
  cs = ['\n'] ∨ cs = ['\r', '\n']

/-- A key and its value. -/
abbrev Entry := String × Value

/-- The ways to write a line without its end: an entry or none, and perhaps a comment. -/
inductive Line : Option Entry → List Char → Prop where
  | empty {blanks comment : List Char} (hblanks : AreSpaces blanks)
      (hcomment : IsComment comment) : Line none (blanks ++ comment)
  | entry {key : String} {v : Value} {body first second third fourth comment : List Char}
      (hkey : IsBareKey key.toList) (hvalue : SpellsValue v body) (hfirst : AreSpaces first)
      (hsecond : AreSpaces second) (hthird : AreSpaces third) (hfourth : AreSpaces fourth)
      (hcomment : IsComment comment) :
      Line (some (key, v))
        (first ++ key.toList ++ second ++ '=' :: (third ++ body ++ fourth ++ comment))

/-- The ways to write lines with their ends, which have these entries in this order. -/
inductive Lines : List Entry → List Char → Prop where
  | nil : Lines [] []
  | cons {entry : Option Entry} {text ending rest : List Char} {entries : List Entry}
      (hline : Line entry text) (hending : IsLineEnd ending) (hrest : Lines entries rest) :
      Lines (entry.toList ++ entries) (text ++ ending ++ rest)

/-- The ways to write a document with these entries: lines, the last of which has no end. -/
inductive IsDocument : List Entry → List Char → Prop where
  | intro {entries : List Entry} {last : Option Entry} {lines text : List Char}
      (hlines : Lines entries lines) (hlast : Line last text) :
      IsDocument (entries ++ last.toList) (lines ++ text)

end Caching.Toml
