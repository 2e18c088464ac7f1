import RestThrift.Decimal.Binary

/-!
# Shortest decimals

The fewest decimal digits that read back as a given double. The reals that round to
`mantissa · 2 ^ exponent` form an interval, closed iff the mantissa is even. On the grid of `n`
significant digits only the two neighbours of the value can lie inside, so the first grid with a
hit is the shortest, and of two hits the nearer one is taken.
-/
namespace RestThrift.Decimal

/-- Which way an exact tie between two equally short decimals goes. -/
inductive Tie
  | up
  | even
  deriving DecidableEq, Repr

/-- The decimal `digits · 10 ^ exponent`. -/
structure Digits where
  digits : Nat
  exponent : Int
  deriving DecidableEq, Repr

/-- Numerators, over one denominator, of a value and of the ends of its rounding interval. -/
structure Interval where
  value : Nat
  low : Nat
  high : Nat
  unit : Nat
  closed : Bool

/-- The interval below a power of two is half as wide as above it, except at the least exponent. -/
def Interval.of (mantissa : Nat) (exponent : Int) : Interval :=
  let (value, unit) := scale (4 * mantissa) exponent
  let (quarter, _) := scale 1 exponent
  let narrow := mantissa == hidden && exponent != -1074
  { value, low := value - (if narrow then quarter else 2 * quarter), high := value + 2 * quarter
    unit := 4 * unit, closed := mantissa % 2 == 0 }

/-- The quotient `numerator / unit` is below `10 ^ exponent`. -/
def below (numerator unit : Nat) (exponent : Int) : Bool :=
  if 0 ≤ exponent then numerator < unit * Nat.pow 10 exponent.toNat
  else numerator * Nat.pow 10 (-exponent).toNat < unit

/-- The least `k ≥ start` with the quotient below `10 ^ k`, within `steps` steps. -/
def magnitudeFrom (numerator unit : Nat) : Nat → Int → Int
  | 0, start => start
  | steps + 1, start =>
    if below numerator unit start then start else magnitudeFrom numerator unit steps (start + 1)

def Interval.contains (i : Interval) (n d : Nat) : Bool :=
  if i.closed then i.low * d ≤ n * i.unit && n * i.unit ≤ i.high * d
  else i.low * d < n * i.unit && n * i.unit < i.high * d

/-- The grid point chosen among the neighbours of the value on the grid of `10 ^ exponent`. -/
def Interval.onGrid (tie : Tie) (i : Interval) (exponent : Int) : Option Nat :=
  let up : Nat := if 0 ≤ exponent then Nat.pow 10 exponent.toNat else 1
  let down : Nat := if 0 ≤ exponent then 1 else Nat.pow 10 (-exponent).toNat
  let floor := i.value * down / (i.unit * up)
  let beneath := i.contains (floor * up) down && floor != 0
  let above := i.contains ((floor + 1) * up) down
  let rest := 2 * (i.value * down % (i.unit * up))
  let nearer :=
    if rest < i.unit * up then floor
    else if i.unit * up < rest then floor + 1
    else match tie with
      | .up => floor + 1
      | .even => if floor % 2 = 0 then floor else floor + 1
  match beneath, above with
  | true, true => some nearer
  | true, false => some floor
  | false, true => some (floor + 1)
  | false, false => none

/-- Try the grids of `count`, `count + 1`, … significant digits. -/
def Interval.firstHit (tie : Tie) (i : Interval) (magnitude : Int) : Nat → Nat → Digits
  | 0, _ => ⟨0, 0⟩
  | steps + 1, count =>
    let exponent := magnitude - count
    match i.onGrid tie exponent with
    | some digits => ⟨digits, exponent⟩
    | none => i.firstHit tie magnitude steps (count + 1)

/-- Move trailing zeros into the exponent. -/
def Digits.strip : Nat → Digits → Digits
  | 0, d => d
  | steps + 1, d =>
    if d.digits ≠ 0 ∧ d.digits % 10 = 0 then Digits.strip steps ⟨d.digits / 10, d.exponent + 1⟩
    else d

/-- Seventeen digits suffice for every double. -/
def shortest (tie : Tie) (mantissa : Nat) (exponent : Int) : Digits :=
  if mantissa = 0 then ⟨0, 0⟩
  else
    let i := Interval.of mantissa exponent
    let magnitude := magnitudeFrom i.value i.unit 700 (-330)
    (i.firstHit tie magnitude 18 1).strip 20

end RestThrift.Decimal
