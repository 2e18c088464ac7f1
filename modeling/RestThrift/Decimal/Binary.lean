/-!
# Binary floating-point numbers as exact values

A double is read from its bits as `± mantissa · 2 ^ exponent`, and a quotient of naturals is
rounded to the nearest double, a tie to the even mantissa. All arithmetic is on naturals.
-/
namespace RestThrift.Decimal

inductive Binary
  | finite (negative : Bool) (mantissa : Nat) (exponent : Int)
  | infinite (negative : Bool)
  | undefined
  deriving DecidableEq, Repr

/-- The unit of the mantissa field: `2 ^ 52`. -/
def hidden : Nat := Nat.pow 2 52

def Binary.ofBits (bits : Nat) : Binary :=
  let negative := bits / Nat.pow 2 63 % 2 == 1
  let biased := bits / hidden % 2048
  let fraction := bits % hidden
  if biased = 2047 then
    if fraction = 0 then .infinite negative else .undefined
  else if biased = 0 then .finite negative fraction (-1074)
  else .finite negative (hidden + fraction) ((biased : Int) - 1075)

def Binary.ofFloat (x : Float) : Binary := .ofBits x.toBits.toNat

def Binary.isFinite : Binary → Bool
  | .finite .. => true
  | _ => false

/-- `numerator · 2 ^ exponent` as a quotient of naturals. -/
def scale (numerator : Nat) (exponent : Int) : Nat × Nat :=
  if 0 ≤ exponent then (numerator * Nat.pow 2 exponent.toNat, 1)
  else (numerator, Nat.pow 2 (-exponent).toNat)

/-- The greatest integer that is not above the number; special values have none. -/
def Binary.floor? : Binary → Option Int
  | .finite negative mantissa exponent =>
    let (numerator, denominator) := scale mantissa exponent
    some (if negative then Int.fdiv (-(numerator : Int)) denominator
      else Int.fdiv numerator denominator)
  | _ => none

def Binary.isIntegral : Binary → Bool
  | .finite _ mantissa exponent =>
    let (numerator, denominator) := scale mantissa exponent
    numerator % denominator == 0
  | _ => false

/-- Nearest natural to a quotient, a tie to the even one. -/
def roundEven (numerator denominator : Nat) : Nat :=
  let below := numerator / denominator
  let rest := 2 * (numerator % denominator)
  if rest < denominator then below
  else if denominator < rest then below + 1
  else if below % 2 = 0 then below else below + 1

/-- Bits of the positive double nearest to a positive quotient. A mantissa that rounds up to
`2 ^ 53` carries into the exponent field, and past the largest exponent the result is infinite. -/
def nearestBits (numerator denominator : Nat) : Nat :=
  let magnitude := (numerator.log2 : Int) - denominator.log2
  let least := max (-1074) (magnitude - 53)
  let quotient (exponent : Int) : Nat × Nat :=
    if 0 ≤ exponent then (numerator, denominator * Nat.pow 2 exponent.toNat)
    else (numerator * Nat.pow 2 (-exponent).toNat, denominator)
  let (n, d) := quotient least
  let exponent := if n / d < 2 * hidden then least else least + 1
  let (n, d) := quotient exponent
  let mantissa := roundEven n d
  let bits :=
    if mantissa < hidden then mantissa
    else (exponent + 1075).toNat * hidden + (mantissa - hidden)
  min bits (2047 * hidden)

/-- The double nearest to `± digits · 10 ^ exponent`. Exponents far outside the range of doubles
are answered without building the power. -/
def ofDecimal (negative : Bool) (digits : Nat) (exponent : Int) : Float :=
  let count : Int := (Nat.toDigits 10 digits).length
  let bits :=
    if digits = 0 ∨ exponent + count < -330 then 0
    else if 310 < exponent + count then 2047 * hidden
    else if 0 ≤ exponent then nearestBits (digits * Nat.pow 10 exponent.toNat) 1
    else nearestBits digits (Nat.pow 10 (-exponent).toNat)
  Float.ofBits (UInt64.ofNat (bits + if negative then Nat.pow 2 63 else 0))

end RestThrift.Decimal
