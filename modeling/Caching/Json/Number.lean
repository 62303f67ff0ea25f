import Caching.Text.Shortest
import Caching.Text.Unsigned

/-!
# Numbers of JSON documents

A literal without fraction and exponent is an exact number as long as it fits 64 bits; every other
literal stands for a floating-point number, which documents of this library only name in refusals.
A literal too large for one is no number.
-/

namespace Caching.Json

/-- The value of a number literal. -/
inductive Number where
  /-- A number from zero to `2 ^ 64 - 1`. -/
  | whole (n : UInt64)
  /-- The negative of a number from one to `2 ^ 63`. -/
  | minus (n : Nat)
  /-- A floating-point number, by its shortest text. -/
  | float (text : String)
  deriving DecidableEq, Repr

/-- `n` zeros. -/
private def zeros (n : Nat) : List Char :=
  List.replicate n '0'

/-- The text of a positive decimal: positional from `1e-5` up to below `1e16`, with at least one
digit on each side of the point, and scientific otherwise. -/
def decimalText (d : Text.Decimal) : List Char :=
  let digits := Text.decimal d.digits
  let point : Int := digits.length + d.exponent
  if 0 ≤ d.exponent ∧ point ≤ 16 then digits ++ zeros d.exponent.toNat ++ ['.', '0']
  else if 0 < point ∧ point ≤ 16 then
    digits.take point.toNat ++ '.' :: digits.drop point.toNat
  else if -5 < point ∧ point ≤ 0 then
    ['0', '.'] ++ zeros (-point).toNat ++ digits
  else
    let fraction := if digits.length ≤ 1 then [] else '.' :: digits.drop 1
    let power := point - 1
    digits.take 1 ++ fraction ++ ['e', if power < 0 then '-' else '+'] ++
      Text.decimal power.natAbs

/-- The finite number of 64 bits whose bits are `bits`, sign aside; `none` for zero. -/
private def binary? (bits : Nat) : Option Text.Binary :=
  let field : Nat := (bits >>> 52) % (1 <<< 11)
  let fraction : Nat := bits % (1 <<< 52)
  if field = 0 then
    if fraction = 0 then none else some ⟨fraction, -1074, false⟩
  else some ⟨(1 <<< 52) + fraction, (field : Int) - 1075, fraction == 0 && field != 1⟩

/-- The shortest text of a finite floating-point number. -/
def floatText (x : Float) : String :=
  let bits := x.toBits.toNat
  let sign := if 1 <<< 63 ≤ bits then ['-'] else []
  let body := match binary? bits with
    | some b => decimalText (Text.shortest b)
    | none => ['0', '.', '0']
  String.ofList (sign ++ body)

/-- `significand * 10 ^ power`, rounded once for the significand and once for each step of scaling;
`none` when the result is too large. Powers beyond `308` are applied in steps. -/
def scaleFloat : Nat → Float → Int → Option Float
  | 0, x, _ => some x
  | fuel + 1, x, power =>
    if power.natAbs ≤ 308 then
      let scale := Float.ofScientific 1 false power.natAbs
      if 0 ≤ power then
        let y := x * scale
        if y.isInf then none else some y
      else some (x / scale)
    else if x == 0.0 then some x
    else if 0 ≤ power then none
    else scaleFloat fuel (x / Float.ofScientific 1 false 308) (power + 308)

/-- The floating-point number of a literal's parts. -/
def floatOf (negative : Bool) (significand : Nat) (power : Int) : Option Number := do
  let x ← scaleFloat (power.natAbs / 308 + 2) (UInt64.ofNat significand).toFloat power
  return .float (floatText (if negative then -x else x))

/-- Reads on in the significand of a literal as long as it fits 64 bits. Gives the significand, the
number of digits taken and of digits left out, and the rest. -/
def readSignificand (significand taken left : Nat) : List Char → Nat × Nat × Nat × List Char
  | [] => (significand, taken, left, [])
  | c :: rest =>
    if !c.isDigit then (significand, taken, left, c :: rest)
    else
      let next := 10 * significand + Text.digitValue c
      if left = 0 ∧ next < Text.wordBound then readSignificand next (taken + 1) 0 rest
      else readSignificand significand taken (left + 1) rest

/-- The exponent part of a literal, whose other parts are given. The power of ten is kept within
32 bits; a power beyond them is out of range, or without effect on a zero significand. -/
def readExponent (negative : Bool) (significand : Nat) (power : Int) (cs : List Char) :
    Option (Number × List Char) := do
  let (down, cs) := match cs with
    | '+' :: r => (false, r)
    | '-' :: r => (true, r)
    | r => (false, r)
  let digits := cs.takeWhile Char.isDigit
  let rest := cs.dropWhile Char.isDigit
  if digits.isEmpty then none
  else
    let exponent := digits.foldl (fun n c ↦ 10 * n + Text.digitValue c) 0
    if 1 <<< 31 ≤ exponent then
      if significand ≠ 0 ∧ !down then none
      else return (.float (if negative then "-0.0" else "0.0"), rest)
    else
      let shifted : Int := if down then power - exponent else power + exponent
      let clamped := max Int32.minValue.toInt (min Int32.maxValue.toInt shifted)
      return (← floatOf negative significand clamped, rest)

/-- What follows the whole part of a literal when that part is no exact number by itself. -/
def readTail (negative : Bool) (significand : Nat) (power : Int) (cs : List Char) :
    Option (Number × List Char) := do
  match cs with
  | '.' :: rest =>
    let (full, taken, left, rest) := readSignificand significand 0 0 rest
    if taken + left = 0 then none
    else
      let power := power - taken
      match rest with
      | 'e' :: rest | 'E' :: rest => readExponent negative full power rest
      | _ => return (← floatOf negative full power, rest)
  | 'e' :: rest | 'E' :: rest => readExponent negative significand power rest
  | rest => return (← floatOf negative significand power, rest)

/-- The literal continues after its whole part. -/
def continues : List Char → Bool
  | '.' :: _ | 'e' :: _ | 'E' :: _ => true
  | _ => false

/-- Reads an unsigned literal, marked negative if a minus sign stands before it. -/
def readNumber (negative : Bool) (cs : List Char) : Option (Number × List Char) :=
  match cs with
  | [] => none
  | '0' :: c :: rest =>
    if c.isDigit then none
    else if continues (c :: rest) then readTail negative 0 0 (c :: rest)
    else some (if negative then .float "-0.0" else .whole 0, c :: rest)
  | c :: _ =>
    if !c.isDigit then none
    else
      let (significand, _, left, rest) := readSignificand 0 0 0 cs
      if left ≠ 0 ∨ continues rest then readTail negative significand left rest
      else if !negative then some (.whole (UInt64.ofNat significand), rest)
      else if significand = 0 ∨ 1 <<< 63 < significand then readTail true significand 0 rest
      else some (.minus significand, rest)

end Caching.Json
