import RestThrift.Yaml.Value

/-!
# Values of an enumeration

A schema lists the values that its instances may take. An integer beyond 64 signed bits is a
double.
-/
namespace RestThrift.Api

inductive Choice
  | text (s : String)
  | int (n : Int)
  | float (x : Float)
  | bool (b : Bool)
  | null
  deriving Inhabited

namespace Choice

/-- The value as it becomes part of a name. -/
def label : Choice → String
  | .text s => s
  | .int n => toString n
  | .float x => Decimal.plain.text x
  | .bool b => if b then "true" else "false"
  | .null => "null"

def least64 : Int := -(Nat.pow 2 63 : Int)

def greatest64 : Int := (Nat.pow 2 63 : Int) - 1

def isSigned64 (n : Int) : Bool := least64 ≤ n && n ≤ greatest64

def clamp64 (n : Int) : Int :=
  if n < least64 then least64 else if greatest64 < n then greatest64 else n

def floatOfInt (n : Int) : Float := Decimal.ofDecimal (n < 0) n.natAbs 0

def ofInt (n : Int) : Choice := if isSigned64 n then .int n else .float (floatOfInt n)

/-- The greatest integer that is not above a double, within 64 signed bits. The undefined double
counts as zero. -/
def floor64 (x : Float) : Int :=
  match Decimal.Binary.ofFloat x with
  | .undefined => 0
  | .infinite negative => if negative then least64 else greatest64
  | finite => clamp64 (finite.floor?.getD 0)

/-- The number of the member that stands for a value: an integer itself, a double its floor,
anything else its position in the list. -/
def code (position : Nat) : Choice → Int
  | .int n => n
  | .float x => floor64 x
  | _ => position

/-- A value of the document is this value of the enumeration. -/
def accepts : Choice → Yaml.Value → Bool
  | .text a, .text b => a == b
  | .int a, .number (.int b) => a == b
  | .float a, .number (.int b) => floatOfInt b == a
  | .float a, .number (.float b) => b == a
  | .bool a, .bool b => a == b
  | _, _ => false

end Choice

end RestThrift.Api
