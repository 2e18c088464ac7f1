import RestThrift.Json.Value
import RestThrift.Decimal.Binary

/-!
# Reading JSON

Reading consumes characters from the front of a list and returns what follows. A value needs no
more steps than the text has characters, so the length of the text bounds the recursion. Among
members of one name the last one counts.
-/
namespace RestThrift.Json

def isSpace (c : Char) : Bool := c = ' ' || c = '\n' || c = '\r' || c = '\t'

def skipSpace (text : List Char) : List Char := text.dropWhile isSpace

def hexValue? (c : Char) : Option Nat :=
  let n := c.toNat
  if 48 ≤ n ∧ n ≤ 57 then some (n - 48)
  else if 97 ≤ n ∧ n ≤ 102 then some (n - 87)
  else if 65 ≤ n ∧ n ≤ 70 then some (n - 55)
  else none

def hex4? : List Char → Option (Nat × List Char)
  | a :: b :: c :: d :: rest => do
    let a ← hexValue? a
    let b ← hexValue? b
    let c ← hexValue? c
    let d ← hexValue? d
    some (((a * 16 + b) * 16 + c) * 16 + d, rest)
  | _ => none

/-- The character of a `\u` escape; two surrogates make one character. -/
def readEscape? (rest : List Char) : Option (Char × List Char) := do
  let (unit, rest) ← hex4? rest
  if 0xD800 ≤ unit ∧ unit ≤ 0xDBFF then
    match rest with
    | '\\' :: 'u' :: rest =>
      let (low, rest) ← hex4? rest
      if 0xDC00 ≤ low ∧ low ≤ 0xDFFF then
        some (Char.ofNat (0x10000 + (unit - 0xD800) * 1024 + (low - 0xDC00)), rest)
      else none
    | _ => none
  else if 0xDC00 ≤ unit ∧ unit ≤ 0xDFFF then none
  else some (Char.ofNat unit, rest)

/-- The rest of a string after its opening quote, collected in reverse. -/
def readText? : Nat → List Char → List Char → Option (String × List Char)
  | 0, _, _ => none
  | steps + 1, acc, text =>
    match text with
    | [] => none
    | '"' :: rest => some (String.ofList acc.reverse, rest)
    | '\\' :: 'u' :: rest =>
      match readEscape? rest with
      | some (c, rest) => readText? steps (c :: acc) rest
      | none => none
    | '\\' :: e :: rest =>
      let plain := if e = 'b' then some '\x08' else if e = 'f' then some '\x0c'
        else if e = 'n' then some '\n' else if e = 'r' then some '\r' else if e = 't' then some '\t'
        else if e = '"' ∨ e = '\\' ∨ e = '/' then some e else none
      match plain with
      | some c => readText? steps (c :: acc) rest
      | none => none
    | c :: rest => if c.toNat < 32 then none else readText? steps (c :: acc) rest

def digitsValue (digits : List Char) : Nat :=
  digits.foldl (fun value c => value * 10 + (c.toNat - 48)) 0

def isDigit (c : Char) : Bool := 48 ≤ c.toNat && c.toNat ≤ 57

/-- Integers of 64 bits, signed or unsigned, stay integers; all other numbers are doubles, and so
is a negative zero. -/
def number (negative : Bool) (whole : List Char) (fraction : Option (List Char))
    (exponent : Option Int) : Json :=
  match fraction, exponent with
  | none, none =>
    let n := digitsValue whole
    if negative then
      if n ≠ 0 ∧ n ≤ Nat.pow 2 63 then .int (-(n : Int)) else .float (Decimal.ofDecimal true n 0)
    else if n < Nat.pow 2 64 then .int n else .float (Decimal.ofDecimal false n 0)
  | fraction, exponent =>
    let places := fraction.getD []
    .float (Decimal.ofDecimal negative (digitsValue (whole ++ places))
      (exponent.getD 0 - places.length))

/-- An exponent after `e`: an optional sign and at least one digit. -/
def readExponent? (text : List Char) : Option (Int × List Char) :=
  let (negative, text) := match text with
    | '-' :: rest => (true, rest)
    | '+' :: rest => (false, rest)
    | _ => (false, text)
  let digits := text.takeWhile isDigit
  if digits.isEmpty then none
  else
    let n : Int := digitsValue digits
    some (if negative then -n else n, text.dropWhile isDigit)

def readNumber? (text : List Char) : Option (Json × List Char) :=
  let (negative, text) := match text with
    | '-' :: rest => (true, rest)
    | _ => (false, text)
  let whole := text.takeWhile isDigit
  let text := text.dropWhile isDigit
  if whole.isEmpty ∨ (whole.length > 1 ∧ whole.head? = some '0') then none
  else do
    let (fraction, text) ← match text with
      | '.' :: rest =>
        let places := rest.takeWhile isDigit
        if places.isEmpty then none else some (some places, rest.dropWhile isDigit)
      | _ => some (none, text)
    let (exponent, text) ← match text with
      | c :: rest =>
        if c = 'e' ∨ c = 'E' then (readExponent? rest).map fun (e, rest) => (some e, rest)
        else some (none, text)
      | [] => some (none, text)
    some (number negative whole fraction exponent, text)

/-- Set a member: an earlier one of that name is replaced. -/
def setMember (name : String) (value : Json) : List (String × Json) → List (String × Json)
  | [] => [(name, value)]
  | (key, old) :: rest =>
    if key = name then (key, value) :: rest else (key, old) :: setMember name value rest

mutual
def readValue? : Nat → List Char → Option (Json × List Char)
  | 0, _ => none
  | steps + 1, text =>
    match skipSpace text with
    | 'n' :: 'u' :: 'l' :: 'l' :: rest => some (.null, rest)
    | 't' :: 'r' :: 'u' :: 'e' :: rest => some (.bool true, rest)
    | 'f' :: 'a' :: 'l' :: 's' :: 'e' :: rest => some (.bool false, rest)
    | '"' :: rest => (readText? steps [] rest).map fun (text, rest) => (.str text, rest)
    | '[' :: rest =>
      match skipSpace rest with
      | ']' :: rest => some (.arr [], rest)
      | rest => (readItems? steps rest).map fun (items, rest) => (.arr items, rest)
    | '{' :: rest =>
      match skipSpace rest with
      | '}' :: rest => some (.obj [], rest)
      | rest => (readMembers? steps [] rest).map fun (members, rest) => (.obj members, rest)
    | text => readNumber? text

def readItems? : Nat → List Char → Option (List Json × List Char)
  | 0, _ => none
  | steps + 1, text => do
    let (item, rest) ← readValue? steps text
    match skipSpace rest with
    | ']' :: rest => some ([item], rest)
    | ',' :: rest =>
      let (items, rest) ← readItems? steps rest
      some (item :: items, rest)
    | _ => none

def readMembers? :
    Nat → List (String × Json) → List Char → Option (List (String × Json) × List Char)
  | 0, _, _ => none
  | steps + 1, members, text =>
    match skipSpace text with
    | '"' :: rest => do
      let (name, rest) ← readText? steps [] rest
      match skipSpace rest with
      | ':' :: rest =>
        let (value, rest) ← readValue? steps rest
        let members := setMember name value members
        match skipSpace rest with
        | '}' :: rest => some (members, rest)
        | ',' :: rest => readMembers? steps members rest
        | _ => none
      | _ => none
    | _ => none
end

def parse? (text : String) : Option Json := do
  let (value, rest) ← readValue? (text.length + 1) text.toList
  if (skipSpace rest).isEmpty then some value else none

end RestThrift.Json
