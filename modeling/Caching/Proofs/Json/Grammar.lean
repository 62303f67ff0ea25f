import Caching.Json.Token
import Caching.Proofs.Text.Digits

/-!
# The grammar of JSON

Values of JSON and all texts that spell them. A value is first a sequence of lexemes, which may then
be laid out with any blanks between them. Strings may escape any character, and numbers are literals
of any length.
-/

namespace Caching.Json

open Text (IsNumeral IsUnpadded)

/-! ### Numbers -/

/-- A number literal: an optional minus sign, a whole part without zeros in front, and optionally a
fraction and an exponent. -/
structure Literal where
  negative : Bool
  whole : List Char
  fraction : List Char
  exponent : List Char
  isNumeral_whole : IsNumeral whole
  isUnpadded_whole : IsUnpadded whole
  fraction_form : fraction = [] ∨ ∃ digits, fraction = '.' :: digits ∧ IsNumeral digits
  exponent_form : exponent = [] ∨ ∃ mark sign digits, exponent = mark :: (sign ++ digits) ∧
    (mark = 'e' ∨ mark = 'E') ∧ (sign = [] ∨ sign = ['+'] ∨ sign = ['-']) ∧ IsNumeral digits

namespace Literal

/-- The characters of a literal without its sign. -/
def magnitude (l : Literal) : List Char :=
  l.whole ++ l.fraction ++ l.exponent

/-- The characters of a literal. -/
def text (l : Literal) : List Char :=
  if l.negative then '-' :: l.magnitude else l.magnitude

/-- The literal is a plain non-negative integer, and the number is its value. -/
structure IsWord (l : Literal) (n : UInt64) : Prop where
  unsigned : l.negative = false
  fraction : l.fraction = []
  exponent : l.exponent = []
  value : Text.valueOf l.whole = n.toNat

/-- The literal that is written for a number. -/
def ofNat (n : Nat) : Literal where
  negative := false
  whole := Text.decimal n
  fraction := []
  exponent := []
  isNumeral_whole := Text.isNumeral_decimal n
  isUnpadded_whole := Text.isUnpadded_decimal n
  fraction_form := .inl rfl
  exponent_form := .inl rfl

end Literal

/-! ### Strings -/

/-- A hexadecimal digit in either case. -/
def IsHexDigit (n : Nat) (c : Char) : Prop :=
  n < 16 ∧ (c = n.digitChar ∨ c = n.digitChar.toUpper)

/-- Four hexadecimal digits behind `\u`. -/
def IsUnit (n : Nat) (cs : List Char) : Prop :=
  ∃ w x y z a b c d, IsHexDigit w a ∧ IsHexDigit x b ∧ IsHexDigit y c ∧ IsHexDigit z d ∧
    n = ((w * 16 + x) * 16 + y) * 16 + z ∧ cs = ['\\', 'u', a, b, c, d]

/-- The letters that stand for a character behind a backslash. -/
def letters : List (Char × Char) :=
  [('"', '"'), ('\\', '\\'), ('/', '/'), ('b', '\x08'), ('f', '\x0c'), ('n', '\n'), ('r', '\r'),
    ('t', '\t')]

/-- The ways to write a character in a string: as it is, unless it is a quote, a backslash or a
control; behind a backslash, if it has a letter; by its number; or, beyond the basic plane, by the
numbers of two surrogates. -/
inductive SpellsChar : Char → List Char → Prop where
  | raw {c : Char} (hcontrol : 0x20 ≤ c.toNat) (hquote : c ≠ '"') (hslash : c ≠ '\\') :
      SpellsChar c [c]
  | letter {c letter : Char} (h : (letter, c) ∈ letters) : SpellsChar c ['\\', letter]
  | unit {c : Char} {cs : List Char} (h : IsUnit c.toNat cs) : SpellsChar c cs
  | pair {c : Char} {high low : List Char} (hplane : 0x10000 ≤ c.toNat)
      (hhigh : IsUnit (0xD800 + (c.toNat - 0x10000) / 0x400) high)
      (hlow : IsUnit (0xDC00 + (c.toNat - 0x10000) % 0x400) low) : SpellsChar c (high ++ low)

/-- The ways to write a text between quotes. -/
inductive SpellsText : List Char → List Char → Prop where
  | nil : SpellsText [] []
  | cons {c : Char} {cs spelled rest : List Char} (h : SpellsChar c spelled)
      (hrest : SpellsText cs rest) : SpellsText (c :: cs) (spelled ++ rest)

/-! ### Lexemes and blanks -/

/-- What stands between blanks. -/
inductive Lexeme where
  | openBrace
  | closeBrace
  | openBracket
  | closeBracket
  | comma
  | colon
  | null
  | flag (b : Bool)
  | text (s : String)
  | number (l : Literal)

/-- The ways to write a lexeme. -/
inductive Lexeme.Spells : Lexeme → List Char → Prop where
  | openBrace : Spells .openBrace ['\x7b']
  | closeBrace : Spells .closeBrace ['\x7d']
  | openBracket : Spells .openBracket ['[']
  | closeBracket : Spells .closeBracket [']']
  | comma : Spells .comma [',']
  | colon : Spells .colon [':']
  | null : Spells .null ['n', 'u', 'l', 'l']
  | yes : Spells (.flag true) ['t', 'r', 'u', 'e']
  | no : Spells (.flag false) ['f', 'a', 'l', 's', 'e']
  | text {s : String} {body : List Char} (h : SpellsText s.toList body) :
      Spells (.text s) ('"' :: body ++ ['"'])
  | number (l : Literal) : Spells (.number l) l.text

/-- The text has the lexemes in their order, and nothing but blanks beside them. -/
inductive Layout : List Lexeme → List Char → Prop where
  | done {blanks : List Char} (hblanks : ∀ c ∈ blanks, isSpace c = true) : Layout [] blanks
  | next {blanks body text : List Char} {lexeme : Lexeme} {rest : List Lexeme}
      (hblanks : ∀ c ∈ blanks, isSpace c = true) (hbody : lexeme.Spells body)
      (hrest : Layout rest text) : Layout (lexeme :: rest) (blanks ++ body ++ text)

/-- Characters that need no escape stand for themselves. -/
theorem spellsText_self {cs : List Char}
    (h : ∀ c ∈ cs, 0x20 ≤ c.toNat ∧ c ≠ '"' ∧ c ≠ '\\') : SpellsText cs cs := by
  induction cs with
  | nil => exact .nil
  | cons c cs ih =>
    obtain ⟨hcontrol, hquote, hslash⟩ := h c List.mem_cons_self
    exact .cons (.raw hcontrol hquote hslash) (ih fun d hd ↦ h d (List.mem_cons_of_mem c hd))

/-- A lexeme alone. -/
theorem Lexeme.Spells.layout {lexeme : Lexeme} {body : List Char} (h : lexeme.Spells body) :
    Layout [lexeme] body := by
  have hdone : Layout [] [] := .done nofun
  simpa using @Layout.next [] body [] lexeme [] nofun h hdone

/-- More blanks in front. -/
theorem Layout.blanks_append {lexemes : List Lexeme} {blanks text : List Char}
    (hblanks : ∀ c ∈ blanks, isSpace c = true) (h : Layout lexemes text) :
    Layout lexemes (blanks ++ text) := by
  cases h with
  | done hmore => exact .done (List.forall_mem_append.mpr ⟨hblanks, hmore⟩)
  | next hmore hbody hrest =>
    rw [← List.append_assoc, ← List.append_assoc]
    exact .next (List.forall_mem_append.mpr ⟨hblanks, hmore⟩) hbody hrest

/-- One layout behind another. -/
theorem Layout.append {front back : List Lexeme} {text more : List Char} (h : Layout front text)
    (hback : Layout back more) : Layout (front ++ back) (text ++ more) := by
  induction h with
  | done hblanks => exact hback.blanks_append hblanks
  | next hblanks hbody _ ih =>
    rw [List.append_assoc]
    exact .next hblanks hbody ih

/-! ### Values -/

/-- A value of JSON. -/
inductive Value where
  | null
  | flag (b : Bool)
  | text (s : String)
  | number (l : Literal)
  | array (elements : List Value)
  | object (members : List (String × Value))

mutual

/-- The lexemes of a value. -/
def Value.lexemes : Value → List Lexeme
  | .null => [.null]
  | .flag b => [.flag b]
  | .text s => [.text s]
  | .number l => [.number l]
  | .array elements => .openBracket :: elementLexemes elements ++ [.closeBracket]
  | .object members => .openBrace :: memberLexemes members ++ [.closeBrace]

/-- The lexemes of elements, with commas between them. -/
def elementLexemes : List Value → List Lexeme
  | [] => []
  | [v] => v.lexemes
  | v :: w :: rest => v.lexemes ++ .comma :: elementLexemes (w :: rest)

/-- The lexemes of members, with commas between them. -/
def memberLexemes : List (String × Value) → List Lexeme
  | [] => []
  | [(key, v)] => .text key :: .colon :: v.lexemes
  | (key, v) :: m :: rest => .text key :: .colon :: v.lexemes ++ .comma :: memberLexemes (m :: rest)

end

/-- The text spells the value. -/
def Value.Spells (v : Value) (text : List Char) : Prop :=
  Layout v.lexemes text

end Caching.Json
