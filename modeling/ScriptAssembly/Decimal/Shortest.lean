/-!
# Shortest decimal digits

The fewest decimal digits that determine a binary floating point number: for one digit, two digits
and so on, the two neighbours of the number on the decimal grid are tried, and the first grid with
a point that rounds to the number wins.  All arithmetic is on natural numbers.
-/

namespace ScriptAssembly.Decimal

/-- A positive number `numerator / denominator`. -/
structure Ratio where
  numerator : Nat
  denominator : Nat

/-- The ratio times a power of ten, the power given as `up - down`. -/
def Ratio.scale (r : Ratio) (up down : Nat) : Ratio :=
  ⟨r.numerator * Nat.pow 10 up, r.denominator * Nat.pow 10 down⟩

/-- A finite positive binary number with the interval of reals that round to it. -/
structure Binary where
  /-- The significand. -/
  significand : Nat
  /-- The exponent of two, moved up by 1074 so that it is not negative. -/
  shifted : Nat
  /-- The gap to the next lower number is half the gap to the next higher one. -/
  narrowBelow : Bool

/-- The number `quarters / 4` times the power of two of `b`. -/
def Binary.quarters (b : Binary) (quarters : Nat) : Ratio :=
  ⟨quarters <<< b.shifted, 4 <<< 1074⟩

/-- The number itself. -/
def Binary.value (b : Binary) : Ratio := b.quarters (4 * b.significand)

/-- The point `digits · 10 ^ (up - down)` rounds to `b`; the ends of the interval belong to it
exactly when the significand is even. -/
def Binary.reads (b : Binary) (digits up down : Nat) : Bool :=
  let point : Ratio := ⟨digits * Nat.pow 10 up, Nat.pow 10 down⟩
  let low := b.quarters (4 * b.significand - if b.narrowBelow then 1 else 2)
  let high := b.quarters (4 * b.significand + 2)
  let below := compare (low.numerator * point.denominator) (point.numerator * low.denominator)
  let above := compare (point.numerator * high.denominator) (high.numerator * point.denominator)
  if b.significand % 2 = 0 then below != .gt && above != .gt else below == .lt && above == .lt

/-- The neighbours of `b` on the grid of multiples of `10 ^ (up - down)` that round to `b`, the
nearer one first. -/
def Binary.candidates (b : Binary) (up down : Nat) : List Nat :=
  let scaled := b.value.scale down up
  let floor := scaled.numerator / scaled.denominator
  let remainder := scaled.numerator % scaled.denominator
  let order :=
    if 2 * remainder < scaled.denominator ∨ (2 * remainder = scaled.denominator ∧ floor % 2 = 0)
    then [floor, floor + 1] else [floor + 1, floor]
  order.filter fun digits => digits ≠ 0 ∧ b.reads digits up down

/-- The largest `e` with `10 ^ (e - 400) ≤ b`, searched downwards. -/
def Binary.magnitudeFrom (b : Binary) : Nat → Nat
  | 0 => 0
  | e + 1 =>
    let scaled := b.value.scale 400 (e + 1)
    if scaled.denominator ≤ scaled.numerator then e + 1 else b.magnitudeFrom e

/-- The shortest digits of `b` with `count` digits or more and the exponent of ten of the last one,
`steps` counts being tried. -/
def Binary.shortestFrom (b : Binary) (magnitude count : Nat) : Nat → Nat × Int
  | 0 => (0, 0)
  | steps + 1 =>
    let exponent : Int := (magnitude : Int) - 400 - (count : Int) + 1
    match b.candidates exponent.toNat (-exponent).toNat with
    | digits :: _ => (digits, exponent)
    | [] => b.shortestFrom magnitude (count + 1) steps

/-- The shortest digits of `b` and the exponent of ten of the last one. -/
def Binary.shortest (b : Binary) : Nat × Int := b.shortestFrom (b.magnitudeFrom 720) 1 17

/-- The binary number with the given magnitude bits: the exponent field and the fraction field. -/
def Binary.ofBits (bits : Nat) : Binary :=
  let field := (bits >>> 52) % 2048
  let fraction := bits % 0x10000000000000
  if field = 0 then ⟨fraction, 0, false⟩
  else ⟨0x10000000000000 + fraction, field - 1, fraction = 0 ∧ 1 < field⟩

end ScriptAssembly.Decimal
