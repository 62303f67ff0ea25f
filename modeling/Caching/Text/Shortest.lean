/-!
# Shortest decimal of a binary number

Among the decimals that round to a given binary floating-point number, the one with the fewest
digits, and of those the one nearest to the number. The number is `mantissa * 2 ^ exponent`; the
decimals that round to it reach half way to its neighbours, ends included for an even mantissa.
-/

namespace Caching.Text

/-- A positive decimal, `digits * 10 ^ exponent`. -/
structure Decimal where
  digits : Nat
  exponent : Int
  deriving DecidableEq, Repr

/-- A positive binary number with 53 bits at most, `mantissa * 2 ^ exponent`. `narrow` marks the
least mantissa of a binade, whose lower neighbour is only half as far away. -/
structure Binary where
  mantissa : Nat
  exponent : Int
  narrow : Bool
  deriving DecidableEq, Repr

namespace Binary

/-- `n * 2 ^ k` as a fraction. -/
private def scaled (n : Nat) (k : Int) : Nat × Nat :=
  (n <<< k.toNat, 1 <<< (-k).toNat)

/-- The number itself as a fraction. -/
def value (b : Binary) : Nat × Nat :=
  scaled (4 * b.mantissa) (b.exponent - 2)

/-- Lower end of the numbers that round to this one. -/
def lower (b : Binary) : Nat × Nat :=
  scaled (4 * b.mantissa - if b.narrow then 1 else 2) (b.exponent - 2)

/-- Upper end of the numbers that round to this one. -/
def upper (b : Binary) : Nat × Nat :=
  scaled (4 * b.mantissa + 2) (b.exponent - 2)

end Binary

/-- The power of ten with an exponent. -/
private def tens (n : Nat) : Nat :=
  Nat.pow 10 n

/-- `d * 10 ^ e` as a fraction. -/
def Decimal.value (d : Decimal) : Nat × Nat :=
  (d.digits * tens d.exponent.toNat, tens (-d.exponent).toNat)

/-- One fraction is below another. -/
private def below (x y : Nat × Nat) : Bool :=
  x.1 * y.2 < y.1 * x.2

/-- The decimal rounds to the binary number. -/
def Binary.rounds (b : Binary) (d : Decimal) : Bool :=
  if b.mantissa % 2 == 0 then !below d.value b.lower && !below b.upper d.value
  else below b.lower d.value && below d.value b.upper

/-- The position of the leading decimal digit of a positive fraction. -/
private def leadingPosition (x : Nat × Nat) : Int :=
  if x.2 ≤ x.1 then ((Nat.toDigits 10 (x.1 / x.2)).length : Int) - 1
  else
    match (List.range 400).find? (fun j ↦ decide (x.2 ≤ x.1 * tens j)) with
    | some j => -(j : Int)
    | none => -400

/-- The distance of a decimal from a fraction, over the common denominator. -/
private def distance (x : Nat × Nat) (d : Decimal) : Nat :=
  let y := d.value
  (x.1 * y.2 - y.1 * x.2) + (y.1 * x.2 - x.1 * y.2)

/-- The neighbours of the number on the grid of `count` digits that round to it, nearest first. -/
private def hits (b : Binary) (count : Nat) : Option Decimal :=
  let v := b.value
  let position := leadingPosition v - count + 1
  let floor := v.1 * tens (-position).toNat / (v.2 * tens position.toNat)
  let near : Decimal := ⟨floor, position⟩
  let far : Decimal := ⟨floor + 1, position⟩
  match b.rounds near, b.rounds far with
  | true, true =>
    if distance v near < distance v far then some near
    else if distance v far < distance v near then some far
    else some (if floor % 2 == 0 then near else far)
  | true, false => some near
  | false, true => some far
  | false, false => none

/-- Drops zeros at the end of the digits; `fuel` bounds their number. -/
private def stripZeros : Nat → Decimal → Decimal
  | 0, d => d
  | fuel + 1, d =>
    if d.digits != 0 && d.digits % 10 == 0 then stripZeros fuel ⟨d.digits / 10, d.exponent + 1⟩
    else d

/-- The shortest decimal that rounds to the number; seventeen digits always suffice. -/
def shortest (b : Binary) : Decimal :=
  match (List.range 17).findSome? (fun n ↦ hits b (n + 1)) with
  | some d => stripZeros 20 d
  | none => ⟨0, 0⟩

end Caching.Text
