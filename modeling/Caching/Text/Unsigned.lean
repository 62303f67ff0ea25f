/-!
# Unsigned numbers in text

Decimal digits with an optional plus sign, for numbers of 64 bits. A text that is not such a number
is refused at its first fault. Digits of other bases, up to hexadecimal ones, have values as well.
-/

namespace Caching.Text

/-- Numbers of 64 bits lie below this bound. -/
def wordBound : Nat := UInt64.size

/-- Why a text is not a number of 64 bits. -/
inductive NumberFault where
  | empty
  | digit
  | tooLarge
  deriving DecidableEq, Repr

namespace NumberFault

/-- The wording of the fault. -/
def message : NumberFault → String
  | empty => "cannot parse integer from empty string"
  | digit => "invalid digit found in string"
  | tooLarge => "number too large to fit in target type"

end NumberFault

/-- The value of an ASCII digit. -/
def digitValue (c : Char) : Nat :=
  c.toNat - '0'.toNat

/-- Appends the digits `cs` to the number `acc`. -/
def readDigits (acc : Nat) : List Char → Except NumberFault Nat
  | [] => .ok acc
  | c :: rest =>
    if !c.isDigit then .error .digit
    else
      let next := 10 * acc + digitValue c
      if next < wordBound then readDigits next rest else .error .tooLarge

/-- The number that the text spells. -/
def readUnsigned : List Char → Except NumberFault Nat
  | [] => .error .empty
  | ['+'] => .error .digit
  | '+' :: digits => readDigits 0 digits
  | digits => readDigits 0 digits

/-- The decimal digits of a number. -/
def decimal (n : Nat) : List Char :=
  Nat.toDigits 10 n

/-- The value of a hexadecimal digit. -/
def hexValue? (c : Char) : Option Nat :=
  if '0' ≤ c ∧ c ≤ '9' then some (c.toNat - '0'.toNat)
  else if 'a' ≤ c ∧ c ≤ 'f' then some (c.toNat - 'a'.toNat + 10)
  else if 'A' ≤ c ∧ c ≤ 'F' then some (c.toNat - 'A'.toNat + 10)
  else none

/-- The number that digits of a base spell; a character that is no digit of the base spells none. -/
def digitsValue? (base : Nat) (digits : List Char) : Option Nat :=
  digits.foldlM (fun n c ↦
    (hexValue? c).bind fun d ↦ if d < base then some (base * n + d) else none) 0

end Caching.Text
