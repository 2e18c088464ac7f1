import RestThrift.Decimal.Notation
import RestThrift.Text.Escaped

/-!
# YAML values

What a document stands for. Integers have at most 64 bits. A tag is kept only if it is local; its
text comes without the exclamation mark in front, unless that is all of it.
-/
namespace RestThrift.Yaml

inductive Number
  | int (n : Int)
  | float (x : Float)
  deriving Inhabited

inductive Value
  | null
  | bool (b : Bool)
  | number (n : Number)
  | text (s : String)
  | sequence (items : List Value)
  | mapping (entries : List (Value × Value))
  | tagged (tag : String) (value : Value)
  deriving Inhabited

namespace Number

/-- Positional from `1e-5` up to `1e16`; of two equally short decimals the even one. -/
def layout : Decimal.Layout :=
  { tie := .even, positional := some (-4, 16), keepsPoint := true
    undefined := ".nan", infinite := ".inf", minusInfinite := "-.inf" }

def render : Number → String
  | .int n => toString n
  | .float x => layout.text x

/-- An integer never equals a double, and the undefined double equals itself. -/
def same : Number → Number → Bool
  | .int a, .int b => a == b
  | .float a, .float b => a == b || (a.isNaN && b.isNaN)
  | _, _ => false

end Number

namespace Value

mutual
/-- Equality of values, where the entries of a mapping have no order. -/
def same : Value → Value → Bool
  | .null, .null => true
  | .bool a, .bool b => a == b
  | .number a, .number b => a.same b
  | .text a, .text b => a == b
  | .sequence as, .sequence bs => sameItems as bs
  | .mapping as, .mapping bs => as.length == bs.length && within as bs
  | .tagged t a, .tagged u b => t == u && same a b
  | _, _ => false

def sameItems : List Value → List Value → Bool
  | [], [] => true
  | a :: as, b :: bs => same a b && sameItems as bs
  | _, _ => false

/-- Each entry of the first list equals one of the second. -/
def within : List (Value × Value) → List (Value × Value) → Bool
  | [], _ => true
  | (k, v) :: as, bs => bs.any (fun entry => same k entry.1 && same v entry.2) && within as bs
end

/-- The text of a value that stands alone as a key. -/
def keyText? : Value → Option String
  | .bool b => some (if b then "true" else "false")
  | .number n => some n.render
  | .text s => some (Text.escaped s)
  | _ => none

mutual
/-- The value with its kinds spelled out, as diagnostics show it. -/
def describe : Value → String
  | .null => "Null"
  | .bool b => "Bool(" ++ (if b then "true" else "false") ++ ")"
  | .number n => "Number(" ++ n.render ++ ")"
  | .text s => "String(" ++ Text.escaped s ++ ")"
  | .sequence items => "Sequence [" ++ describeItems items ++ "]"
  | .mapping entries => "Mapping \x7b" ++ describeEntries entries ++ "\x7d"
  | .tagged tag value =>
    "TaggedValue \x7b tag: !" ++ tag ++ ", value: " ++ describe value ++ " \x7d"

def describeItems : List Value → String
  | [] => ""
  | [item] => describe item
  | item :: rest => describe item ++ ", " ++ describeItems rest

def describeEntries : List (Value × Value) → String
  | [] => ""
  | [(key, value)] => (key.keyText?.getD (describe key)) ++ ": " ++ describe value
  | (key, value) :: rest =>
    (key.keyText?.getD (describe key)) ++ ": " ++ describe value ++ ", " ++ describeEntries rest
end

/-- The value below its tags. -/
def untagged : Value → Value
  | .tagged _ value => untagged value
  | value => value

mutual
/-- Some value inside has a tag. -/
def hasTag : Value → Bool
  | .tagged _ _ => true
  | .sequence items => hasTagItems items
  | .mapping entries => hasTagEntries entries
  | _ => false

def hasTagItems : List Value → Bool
  | [] => false
  | item :: rest => hasTag item || hasTagItems rest

def hasTagEntries : List (Value × Value) → Bool
  | [] => false
  | (key, value) :: rest => hasTag key || hasTag value || hasTagEntries rest
end

mutual
/-- Length of the longest chain of nested values, keys left aside. -/
def depth : Value → Nat
  | .sequence items => depthItems items + 1
  | .mapping entries => depthEntries entries + 1
  | .tagged _ value => depth value + 1
  | _ => 1

def depthItems : List Value → Nat
  | [] => 0
  | item :: rest => max (depth item) (depthItems rest)

def depthEntries : List (Value × Value) → Nat
  | [] => 0
  | (_, value) :: rest => max (depth value) (depthEntries rest)
end

end Value

end RestThrift.Yaml
