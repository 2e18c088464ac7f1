import RestThrift.Decimal.Notation
import RestThrift.Text.Escaped
import RestThrift.Text.Quoted

/-!
# Literals

Values of constants, defaults and annotations. A text literal holds what is printed: a quoted
string or a bare identifier such as an enum member.
-/
namespace RestThrift

inductive Literal
  | bool (b : Bool)
  | int (n : Int)
  | float (x : Float)
  | text (written : String)
  | list (items : List Literal)
  | map (entries : List (Literal × Literal))
  deriving Inhabited

namespace Literal

mutual
/-- Numbers are compared as numbers: no literal with an undefined double equals itself. -/
def same : Literal → Literal → Bool
  | .bool a, .bool b => a == b
  | .int a, .int b => a == b
  | .float a, .float b => a == b
  | .text a, .text b => a == b
  | .list a, .list b => sameItems a b
  | .map a, .map b => sameEntries a b
  | _, _ => false

def sameItems : List Literal → List Literal → Bool
  | [], [] => true
  | a :: as, b :: bs => same a b && sameItems as bs
  | _, _ => false

def sameEntries : List (Literal × Literal) → List (Literal × Literal) → Bool
  | [], [] => true
  | (k, v) :: as, (l, w) :: bs => same k l && same v w && sameEntries as bs
  | _, _ => false
end

instance : BEq Literal := ⟨same⟩

/-- Integral doubles below `1e15` keep `.0`, so that they still read as doubles; no other text has
an exponent or a point it does not need. -/
def floatText (x : Float) : String :=
  let whole := (Decimal.Binary.ofFloat x).isIntegral
  if whole && x.abs < 1e15 then Decimal.plain.text x ++ ".0" else Decimal.plain.text x

mutual
/-- The literal as it stands in a Thrift file. -/
def emit : Literal → String
  | .bool b => if b then "true" else "false"
  | .int n => toString n
  | .float x => floatText x
  | .text written => written
  | .list items => "[" ++ emitItems items ++ "]"
  | .map entries => "\x7b" ++ emitEntries entries ++ "\x7d"

def emitItems : List Literal → String
  | [] => ""
  | [item] => emit item
  | item :: rest => emit item ++ ", " ++ emitItems rest

def emitEntries : List (Literal × Literal) → String
  | [] => ""
  | [(key, value)] => emit key ++ ": " ++ emit value
  | (key, value) :: rest => emit key ++ ": " ++ emit value ++ ", " ++ emitEntries rest
end

def entryText (key value : String) : String :=
  "ConstantEntry \x7b key: " ++ key ++ ", value: " ++ value ++ " \x7d"

mutual
/-- The literal with its constructors spelled out, as diagnostics show it. -/
def describe : Literal → String
  | .bool b => "Bool(" ++ (if b then "true" else "false") ++ ")"
  | .int n => "Int(" ++ toString n ++ ")"
  | .float x => "Float(" ++ Decimal.marked.text x ++ ")"
  | .text written => "Text(" ++ Text.escaped written ++ ")"
  | .list items => "List([" ++ describeItems items ++ "])"
  | .map entries => "Map \x7b entries: [" ++ describeEntries entries ++ "] \x7d"

def describeItems : List Literal → String
  | [] => ""
  | [item] => describe item
  | item :: rest => describe item ++ ", " ++ describeItems rest

def describeEntries : List (Literal × Literal) → String
  | [] => ""
  | [(key, value)] => entryText (describe key) (describe value)
  | (key, value) :: rest =>
    entryText (describe key) (describe value) ++ ", " ++ describeEntries rest
end

def quoted (raw : String) : Literal := .text (String.ofList (Text.quote raw.toList))

end Literal

/-- Why a value cannot be used as the literal that is asked for. -/
inductive LiteralError
  | notQuoted (literal : Literal)
  | unsupported (what : String)

def LiteralError.message : LiteralError → String
  | .notQuoted literal => "constant value is not a quoted string: " ++ literal.describe
  | .unsupported what => "unsupported constant value: " ++ what

/-- The content of a quoted string literal. -/
def Literal.stringValue : Literal → Except LiteralError String
  | .text written =>
    match Text.unquote? written.toList with
    | some raw => .ok (String.ofList raw)
    | none => .error (.notQuoted (.text written))
  | other => .error (.notQuoted other)

end RestThrift
