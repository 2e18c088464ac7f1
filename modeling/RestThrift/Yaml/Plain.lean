import RestThrift.Decimal.Binary
import RestThrift.Yaml.Value

/-!
# Plain scalars

What an unquoted text stands for: null, a truth value, a number, or itself. Integers may be written
with a base; digits behind a leading zero are text. An integer that needs more than 64 bits is a
fault as long as it fits in 128 bits.
-/
namespace RestThrift.Yaml.Plain

def isDecimal (c : Char) : Bool := 48 ≤ c.toNat && c.toNat ≤ 57

def digit? (base : Nat) (c : Char) : Option Nat :=
  let n := c.toNat
  let value? :=
    if 48 ≤ n ∧ n ≤ 57 then some (n - 48)
    else if 97 ≤ n ∧ n ≤ 102 then some (n - 87)
    else if 65 ≤ n ∧ n ≤ 70 then some (n - 55)
    else none
  value?.filter (· < base)

def natural? (base : Nat) (digits : List Char) : Option Nat :=
  if digits.isEmpty then none
  else digits.foldlM (fun value c => (digit? base c).map (value * base + ·)) 0

/-- An integer behind its sign: `0x`, `0o` and `0b` give a base, and a decimal has no leading zero
before other digits. -/
def magnitude? : List Char → Option Nat
  | '0' :: 'x' :: digits => natural? 16 digits
  | '0' :: 'o' :: digits => natural? 8 digits
  | '0' :: 'b' :: digits => natural? 2 digits
  | ['0'] => some 0
  | '0' :: _ => none
  | digits => natural? 10 digits

def integer? : List Char → Option Int
  | '-' :: rest => (magnitude? rest).map fun n => -(n : Int)
  | '+' :: rest => (magnitude? rest).map fun n => (n : Int)
  | rest => (magnitude? rest).map fun n => (n : Int)

/-- Digits behind a leading zero. -/
def isZeroPadded (text : List Char) : Bool :=
  let digits := match text with
    | '-' :: rest => rest
    | '+' :: rest => rest
    | _ => text
  1 < digits.length && digits.head? == some '0' && digits.all isDecimal

def exponent? (text : List Char) : Option Int :=
  let (negative, digits) := match text with
    | '-' :: rest => (true, rest)
    | '+' :: rest => (false, rest)
    | _ => (false, text)
  if digits.all isDecimal then
    (natural? 10 digits).map fun n => if negative then -(n : Int) else n
  else none

/-- Digits with at most one point, and at least one digit, possibly with an exponent. -/
def decimal? (negative : Bool) (text : List Char) : Option Float :=
  let whole := text.takeWhile isDecimal
  let text := text.dropWhile isDecimal
  let (places, text) := match text with
    | '.' :: rest => (rest.takeWhile isDecimal, rest.dropWhile isDecimal)
    | _ => ([], text)
  let exponent := match text with
    | [] => some 0
    | e :: rest => if e = 'e' ∨ e = 'E' then exponent? rest else none
  match natural? 10 (whole ++ places), exponent with
  | some digits, some exponent =>
    some (Decimal.ofDecimal negative digits (exponent - places.length))
  | _, _ => none

/-- A double: a finite decimal or one of the special values. -/
def float? (text : List Char) : Option Float :=
  let (negative, body) := match text with
    | '-' :: rest => (true, rest)
    | '+' :: rest => (false, rest)
    | _ => (false, text)
  if [".inf", ".Inf", ".INF"].contains (String.ofList body) then
    some (if negative then -1.0 / 0.0 else 1.0 / 0.0)
  else if [".nan", ".NaN", ".NAN"].contains (String.ofList text) then some (0.0 / 0.0)
  else (decimal? negative body).filter fun x => (Decimal.Binary.ofFloat x).isFinite

def isNull (text : List Char) : Bool := ["null", "Null", "NULL", "~"].contains (String.ofList text)

def bool? (text : List Char) : Option Bool :=
  if ["true", "True", "TRUE"].contains (String.ofList text) then some true
  else if ["false", "False", "FALSE"].contains (String.ofList text) then some false
  else none

/-- An integer between the least signed and the greatest unsigned number of 64 bits. -/
def fits64 (n : Int) : Bool :=
  -(Nat.pow 2 63 : Int) ≤ n && n < (Nat.pow 2 64 : Int)

def fits128 (n : Int) : Bool :=
  -(Nat.pow 2 127 : Int) ≤ n && n < (Nat.pow 2 128 : Int)

/-- The integer that a text is, if it is one and is not too large for that. -/
def sized? (text : List Char) : Option Int := (integer? text).filter fits128

def ofInteger? (n : Int) : Option Value := if fits64 n then some (.number (.int n)) else none

def value? (text : List Char) : Option Value :=
  if text.isEmpty || isNull text then some .null
  else
    match bool? text with
    | some b => some (.bool b)
    | none =>
      match sized? text with
      | some n => ofInteger? n
      | none =>
        match if isZeroPadded text then none else float? text with
        | some x => some (.number (.float x))
        | none => some (.text (String.ofList text))

end RestThrift.Yaml.Plain
