import RestThrift.Decimal.Shortest

/-!
# Decimal notation

How the digits of a double are laid out. A `Layout` records the decisions of one written form;
the forms themselves are chosen where the output is produced.
-/
namespace RestThrift.Decimal

structure Layout where
  /-- Exact ties between two shortest decimals. -/
  tie : Tie
  /-- Positions of the decimal point, counted from the first digit, that are written without an
  exponent; `none` for all. -/
  positional : Option (Int × Int)
  /-- Integral values keep `.0`. -/
  keepsPoint : Bool
  /-- Texts of the special values. -/
  undefined : String
  infinite : String
  minusInfinite : String

def zeros (count : Nat) : List Char := List.replicate count '0'

/-- Digits with the point after the first `point` of them. -/
def layPositional (keepsPoint : Bool) (digits : List Char) (point : Int) : List Char :=
  if point ≤ 0 then '0' :: '.' :: (zeros (-point).toNat ++ digits)
  else if (digits.length : Int) ≤ point then
    digits ++ zeros (point - digits.length).toNat ++ (if keepsPoint then ['.', '0'] else [])
  else digits.take point.toNat ++ '.' :: digits.drop point.toNat

def layExponent (digits : List Char) (point : Int) : List Char :=
  let fraction := digits.drop 1
  digits.take 1 ++ (if fraction.isEmpty then [] else '.' :: fraction) ++
    'e' :: (toString (point - 1)).toList

def Layout.lay (layout : Layout) (d : Digits) : List Char :=
  let digits := Nat.toDigits 10 d.digits
  let point : Int := if d.digits = 0 then 1 else digits.length + d.exponent
  let plain := match layout.positional with
    | none => true
    | some (least, greatest) => least ≤ point && point ≤ greatest
  if plain then layPositional layout.keepsPoint digits point else layExponent digits point

def Layout.text (layout : Layout) (x : Float) : String :=
  match Binary.ofFloat x with
  | .undefined => layout.undefined
  | .infinite false => layout.infinite
  | .infinite true => layout.minusInfinite
  | .finite negative mantissa exponent =>
    let body := layout.lay (shortest layout.tie mantissa exponent)
    String.ofList (if negative then '-' :: body else body)

/-- Never an exponent, and no point for an integral value. -/
def plain : Layout :=
  { tie := .up, positional := none, keepsPoint := false
    undefined := "NaN", infinite := "inf", minusInfinite := "-inf" }

/-- Positional from `1e-4` up to `1e16`, and a point in every positional text. -/
def marked : Layout :=
  { tie := .up, positional := some (-3, 16), keepsPoint := true
    undefined := "NaN", infinite := "inf", minusInfinite := "-inf" }

end RestThrift.Decimal
