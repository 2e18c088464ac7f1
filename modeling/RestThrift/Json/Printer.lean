import RestThrift.Json.Value
import RestThrift.Decimal.Notation

/-!
# JSON text

Compact output: members in their order, only quotes, backslashes and control characters escaped.
Doubles are written with the fewest digits that read back; special values are written as null.
-/
namespace RestThrift.Json

/-- Positional from `1e-5` up to `1e16`; of two equally short decimals the even one. -/
def numbers : Decimal.Layout :=
  { tie := .even, positional := some (-4, 16), keepsPoint := true
    undefined := "null", infinite := "null", minusInfinite := "null" }

def hexDigit (n : Nat) : Char := if n < 10 then Char.ofNat (48 + n) else Char.ofNat (87 + n)

def escapeChar (c : Char) : List Char :=
  if c = '"' then ['\\', '"']
  else if c = '\\' then ['\\', '\\']
  else if c = '\n' then ['\\', 'n']
  else if c = '\r' then ['\\', 'r']
  else if c = '\t' then ['\\', 't']
  else if c.toNat < 32 then
    ['\\', 'u', '0', '0', hexDigit (c.toNat / 16), hexDigit (c.toNat % 16)]
  else [c]

def printText (text : String) : List Char := '"' :: (text.toList.flatMap escapeChar ++ ['"'])

mutual
def print : Json → List Char
  | .null => "null".toList
  | .bool b => (if b then "true" else "false").toList
  | .int n => (toString n).toList
  | .float x => (numbers.text x).toList
  | .str text => printText text
  | .arr items => '[' :: (printItems items ++ [']'])
  | .obj members => '{' :: (printMembers members ++ ['}'])

def printItems : List Json → List Char
  | [] => []
  | [item] => print item
  | item :: rest => print item ++ ',' :: printItems rest

def printMembers : List (String × Json) → List Char
  | [] => []
  | [(name, value)] => printText name ++ ':' :: print value
  | (name, value) :: rest => printText name ++ ':' :: (print value ++ ',' :: printMembers rest)
end

def render (value : Json) : String := String.ofList value.print

end RestThrift.Json
