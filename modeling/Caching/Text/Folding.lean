import Caching.Text.CaseTable

/-!
# Folding of text

What a name is read by, once folded: its text without the blanks at its ends, in lowercase.

Blank are the characters with the `White_Space` property. Lowercase is the full mapping: characters
map one by one, with two exceptions: `İ` becomes two characters, and `Σ` becomes `ς` at the end of
a word and `σ` elsewhere.
-/

namespace Caching.Text

/-! ## Blanks at the ends -/

/-- The character has the `White_Space` property. -/
def isBlank (c : Char) : Bool :=
  let n := c.toNat
  (9 ≤ n && n ≤ 13) || n == 0x20 || n == 0x85 || n == 0xA0 || n == 0x1680 ||
    (0x2000 ≤ n && n ≤ 0x200A) || n == 0x2028 || n == 0x2029 || n == 0x202F || n == 0x205F ||
    n == 0x3000

/-- The text without the blanks at its end. -/
def trimEnd (cs : List Char) : List Char :=
  (cs.reverse.dropWhile isBlank).reverse

/-- The text without the blanks at both ends. -/
def trimBlank (cs : List Char) : List Char :=
  trimEnd (cs.dropWhile isBlank)

/-- Nothing is cut from a text whose ends are not blank. -/
theorem trimBlank_eq_self {cs : List Char} (hfirst : ∀ c ∈ cs.head?, isBlank c = false)
    (hlast : ∀ c ∈ cs.getLast?, isBlank c = false) : trimBlank cs = cs := by
  have hdrop : ∀ {xs : List Char}, (∀ c ∈ xs.head?, isBlank c = false) →
      xs.dropWhile isBlank = xs := by
    intro xs h
    cases xs with
    | nil => rfl
    | cons c r => simp [h c (by simp)]
  unfold trimBlank trimEnd
  rw [hdrop hfirst, hdrop (by simpa using hlast), List.reverse_reverse]

/-! ## Lowercase -/

/-- The run of capitals that the code point belongs to. -/
private def caseRun? (code : Nat) : Option CaseRun :=
  caseRuns.find? fun run ↦
    run.first ≤ code && code ≤ run.last && (code - run.first) % run.step == 0

/-- The lowercase form of a character on its own. -/
def lowercaseChar (c : Char) : List Char :=
  if c = 'İ' then ['i', '\u0307'] else
  match caseRun? c.toNat with
  | some run => [Char.ofNat (c.toNat + run.shift).toNat]
  | none => [c]

/-- The first character that matters for the end of a word has case. -/
def meetsCased (cs : List Char) : Bool :=
  match cs.dropWhile (fun c ↦ inRanges caseIgnorableRanges c.toNat) with
  | [] => false
  | c :: _ => inRanges casedRanges c.toNat

/-- Lowercase of `cs`, which stands after the characters `before`, nearest first. -/
def lowercaseFrom (before : List Char) : List Char → List Char
  | [] => []
  | c :: rest =>
    (if c = 'Σ' then [if meetsCased before && !meetsCased rest then 'ς' else 'σ']
      else lowercaseChar c) ++ lowercaseFrom (c :: before) rest

/-- The text in lowercase. -/
def lowercase (cs : List Char) : List Char :=
  lowercaseFrom [] cs

end Caching.Text
