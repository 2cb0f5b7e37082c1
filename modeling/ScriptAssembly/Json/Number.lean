import ScriptAssembly.Decimal.Shortest

/-!
# Numbers of a JSON text

A number is a natural number or a negative integer of 64 bits where it is written as such and fits,
and a floating point number otherwise.  The value of a floating point number is its first digits
that fit 64 bits, divided or multiplied by one power of ten.
-/

namespace ScriptAssembly.Json

/-- A number that was read from a JSON text. -/
inductive Number where
  /-- An integer that is not negative. -/
  | natural (value : UInt64)
  /-- A negative integer. -/
  | negative (value : Int64)
  /-- Any other number. -/
  | float (value : Float)

/-- How a floating point number is written: digits that determine it, positional between `10⁻⁵` and
`10¹⁶` with one decimal at least, otherwise with a signed exponent of two digits at least. -/
def floatText (x : Float) : String :=
  let sign := if x.toBits.toNat >>> 63 = 1 then "-" else ""
  let magnitude := x.toBits.toNat % 0x8000000000000000
  if magnitude = 0 then sign ++ "0.0"
  else
    let (value, lastExponent) := (Decimal.Binary.ofBits magnitude).shortest
    let digits := (Nat.toDigits 10 value)
    let significant := (digits.reverse.dropWhile (· = '0')).reverse
    let exponent : Int := lastExponent + digits.length - 1
    let body : List Char :=
      if exponent < -4 ∨ 15 < exponent then
        let fraction := significant.tail
        let mantissa := significant.take 1 ++ if fraction = [] then [] else '.' :: fraction
        let power := Nat.toDigits 10 exponent.natAbs
        mantissa ++ 'e' :: (if exponent < 0 then '-' else '+') ::
          (List.replicate (2 - power.length) '0' ++ power)
      else if exponent < 0 then
        '0' :: '.' :: (List.replicate (exponent.natAbs - 1) '0' ++ significant)
      else
        let whole := exponent.toNat + 1
        let padded := significant ++ List.replicate (whole - significant.length) '0'
        let fraction := padded.drop whole
        padded.take whole ++ '.' :: (if fraction = [] then ['0'] else fraction)
    sign ++ .ofList body

/-- The written form of a number. -/
def Number.text : Number → String
  | .natural value => toString value.toNat
  | .negative value => toString value.toInt
  | .float value => floatText value

/-- A decimal significand of 64 bits and the exponent of ten it carries. -/
structure Decimal where
  /-- The digits that fit. -/
  significand : UInt64
  /-- The exponent of ten. -/
  exponent : Int

namespace Decimal

/-- One more digit fits 64 bits. -/
def fits (significand : UInt64) (digit : Nat) : Bool :=
  significand.toNat * 10 + digit < UInt64.size

/-- One more digit at the end. -/
def push (significand : UInt64) (digit : Nat) : UInt64 := .ofNat (significand.toNat * 10 + digit)

/-- The digits of an integer: from the first one that does not fit, each raises the exponent. -/
def takeInteger : List Nat → UInt64 → Decimal
  | [], significand => ⟨significand, 0⟩
  | digit :: rest, significand =>
    if fits significand digit then takeInteger rest (push significand digit)
    else ⟨significand, rest.length + 1⟩

/-- The digits behind a point: each lowers the exponent until one does not fit, and what follows is
dropped. -/
def takeFraction : List Nat → Decimal → Decimal
  | [], decimal => decimal
  | digit :: rest, decimal =>
    if fits decimal.significand digit then
      takeFraction rest ⟨push decimal.significand digit, decimal.exponent - 1⟩
    else decimal

/-- The significand times its power of ten, by factors of at most `10³⁰⁸`; nothing if the result is
too large. -/
def scale? : Nat → Float → Int → Option Float
  | 0, x, _ => some x
  | steps + 1, x, exponent =>
    if exponent.natAbs ≤ 308 then
      let power := Float.ofScientific 1 false exponent.natAbs
      if exponent < 0 then some (x / power)
      else if (x * power).isInf then none
      else some (x * power)
    else if x == 0 then some x
    else if exponent < 0 then scale? steps (x / 1e308) (exponent + 308)
    else none

/-- The value of a decimal; nothing if it is too large.  Four divisions by `10³⁰⁸` take every
significand to zero. -/
def value? (decimal : Decimal) : Option Float :=
  scale? 5 decimal.significand.toFloat decimal.exponent

end Decimal

/-- The parts of a number as it is written. -/
structure Numeral where
  /-- A minus sign stands in front. -/
  negative : Bool
  /-- The digits before the point. -/
  whole : List Nat
  /-- The digits behind the point, if there is one. -/
  fraction : Option (List Nat)
  /-- The sign and the digits of the exponent, if there is one. -/
  exponent : Option (Bool × List Nat)

namespace Numeral

/-- The largest magnitude of an exponent that is taken at its value. -/
def exponentLimit : Nat := 2147483647

/-- The integer closest to `e` whose magnitude is within the limit. -/
def clamp (e : Int) : Int := max (-(exponentLimit : Int) - 1) (min e exponentLimit)

/-- The digits as one number. -/
def digitsValue (digits : List Nat) : Nat := digits.foldl (fun n digit => n * 10 + digit) 0

/-- The number that an integer numeral stands for: minus zero and whatever does not fit 64 bits are
floating point numbers. -/
def integer (negative : Bool) (significand : UInt64) : Number :=
  if !negative then .natural significand
  else if significand.toNat = 0 ∨ 0x8000000000000000 < significand.toNat then .float (-significand.toFloat)
  else .negative (.ofInt (-(significand.toNat : Int)))

/-- The number that a numeral stands for; nothing if it is too large. -/
def value? (n : Numeral) : Option Number :=
  let signed := fun (x : Float) => Number.float (if n.negative then -x else x)
  let whole := Decimal.takeInteger n.whole 0
  match n.fraction, n.exponent with
  | none, none =>
    if whole.exponent = 0 then some (integer n.negative whole.significand)
    else whole.value?.map signed
  | fraction, exponent =>
    let decimal := Decimal.takeFraction (fraction.getD []) whole
    match exponent with
    | none => decimal.value?.map signed
    | some (negative, digits) =>
      let power := digitsValue digits
      if power ≤ exponentLimit then
        let total := decimal.exponent + if negative then -(power : Int) else power
        (Decimal.value? ⟨decimal.significand, clamp total⟩).map signed
      else if negative || decimal.significand = 0 then some (signed 0)
      else none

end Numeral

end ScriptAssembly.Json
