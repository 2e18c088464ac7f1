import RestThrift.Decimal.Binary
import RestThrift.Toml.Item

/-!
# Scalars of a TOML document

Strings, numbers, truth values and dates, each read from the front of a text; what follows comes
along. Between digits single underscores may stand.
-/
namespace RestThrift.Toml

def isBlank (c : Char) : Bool := c = ' ' || c = '\t'

def skipBlanks (text : List Char) : List Char := text.dropWhile isBlank

/-- Characters other than line ends that may stand in a comment or a string. -/
def isVisible (c : Char) : Bool :=
  c = '\t' || (0x20 ≤ c.toNat && c.toNat ≤ 0x7E) || 0x80 ≤ c.toNat

/-- What follows a line feed, alone or behind a carriage return. -/
def newline? : List Char → Option (List Char)
  | '\n' :: rest => some rest
  | '\r' :: '\n' :: rest => some rest
  | _ => none

def isDigit (c : Char) : Bool := 48 ≤ c.toNat && c.toNat ≤ 57

def hexDigit? (c : Char) : Option Nat :=
  let n := c.toNat
  if 48 ≤ n ∧ n ≤ 57 then some (n - 48)
  else if 97 ≤ n ∧ n ≤ 102 then some (n - 87)
  else if 65 ≤ n ∧ n ≤ 70 then some (n - 55)
  else none

def natural? (base : Nat) (digits : List Char) : Option Nat :=
  if digits.isEmpty then none
  else digits.foldlM (fun value c =>
    ((hexDigit? c).filter (· < base)).map (value * base + ·)) 0

/-! ## Strings -/

/-- A character by its code in a fixed number of digits. -/
def codeEscape? (width : Nat) (text : List Char) : Option (Char × List Char) := do
  let digits := text.take width
  if digits.length < width then none
  else
    let code ← natural? 16 digits
    if (0xD800 ≤ code ∧ code ≤ 0xDFFF) ∨ 0x10FFFF < code then none
    else return (Char.ofNat code, text.drop width)

/-- The escape behind a backslash. -/
def escape? : List Char → Option (Char × List Char)
  | [] => none
  | c :: rest =>
    if c = 'b' then some (Char.ofNat 8, rest)
    else if c = 't' then some ('\t', rest)
    else if c = 'n' then some ('\n', rest)
    else if c = 'f' then some (Char.ofNat 12, rest)
    else if c = 'r' then some ('\r', rest)
    else if c = '"' ∨ c = '\\' then some (c, rest)
    else if c = 'u' then codeEscape? 4 rest
    else if c = 'U' then codeEscape? 8 rest
    else none

/-- The rest of a string on one line; `acc` is reversed. -/
def lineString? (quote : Char) : Nat → List Char → List Char → Option (String × List Char)
  | 0, _, _ => none
  | steps + 1, acc, text =>
    match text with
    | [] => none
    | c :: rest =>
      if c = quote then some (String.ofList acc.reverse, rest)
      else if c = '\\' ∧ quote = '"' then
        match escape? rest with
        | some (c, rest) => lineString? quote steps (c :: acc) rest
        | none => none
      else if isVisible c then lineString? quote steps (c :: acc) rest
      else none

/-- Pass blanks and line ends. -/
def skipBreaks : Nat → List Char → List Char
  | 0, text => text
  | steps + 1, text =>
    match newline? (skipBlanks text) with
    | some rest => skipBreaks steps rest
    | none => skipBlanks text

/-- What follows a backslash at the end of a line, blanks and empty lines passed. -/
def foldedLine? (text : List Char) : Option (List Char) :=
  (newline? (skipBlanks text)).map fun rest => skipBreaks (rest.length + 1) rest

/-- The rest of a string of several lines. Of the quotes right before the end, two may belong to
the string. -/
def longString? (quote : Char) : Nat → List Char → List Char → Option (String × List Char)
  | 0, _, _ => none
  | steps + 1, acc, text =>
    match text with
    | [] => none
    | c :: rest =>
      if c = quote then
        let count := (text.takeWhile (· = quote)).length
        if count < 3 then
          longString? quote steps (List.replicate count quote ++ acc) (text.drop count)
        else if count ≤ 5 then
          some (String.ofList (List.replicate (count - 3) quote ++ acc).reverse, text.drop count)
        else none
      else if c = '\\' ∧ quote = '"' then
        match foldedLine? rest with
        | some rest => longString? quote steps acc rest
        | none =>
          match escape? rest with
          | some (c, rest) => longString? quote steps (c :: acc) rest
          | none => none
      else
        match newline? text with
        | some rest => longString? quote steps ('\n' :: acc) rest
        | none => if isVisible c then longString? quote steps (c :: acc) rest else none

/-- A string in double quotes, with escapes, or in single quotes, without; tripled quotes make it
one of several lines. -/
def string? (text : List Char) : Option (String × List Char) :=
  match text with
  | quote :: rest =>
    if quote = '"' ∨ quote = '\'' then
      if text.take 3 = [quote, quote, quote] then
        let body := text.drop 3
        longString? quote (body.length + 1) [] ((newline? body).getD body)
      else lineString? quote (rest.length + 1) [] rest
    else none
  | [] => none

/-! ## Numbers -/

/-- Digits behind the first one, with single underscores between them. -/
def moreDigits (p : Char → Bool) : List Char → List Char × List Char
  | '_' :: c :: rest =>
    if p c then
      let (digits, rest) := moreDigits p rest
      (c :: digits, rest)
    else ([], '_' :: c :: rest)
  | c :: rest =>
    if p c then
      let (digits, rest) := moreDigits p rest
      (c :: digits, rest)
    else ([], c :: rest)
  | [] => ([], [])

def digits? (p : Char → Bool) : List Char → Option (List Char × List Char)
  | c :: rest =>
    if p c then
      let (digits, rest) := moreDigits p rest
      some (c :: digits, rest)
    else none
  | [] => none

/-- Zero, or digits that start with another digit. -/
def whole? : List Char → Option (List Char × List Char)
  | '0' :: rest => some (['0'], rest)
  | text => digits? isDigit text

def sign (text : List Char) : Bool × List Char :=
  match text with
  | '-' :: rest => (true, rest)
  | '+' :: rest => (false, rest)
  | _ => (false, text)

def signed (negative : Bool) (n : Nat) : Int := if negative then -(n : Int) else n

def exponent? : List Char → Option (Int × List Char)
  | c :: rest =>
    if c = 'e' ∨ c = 'E' then do
      let (negative, rest) := sign rest
      let (digits, rest) ← digits? isDigit rest
      let n ← natural? 10 digits
      return (signed negative n, rest)
    else none
  | [] => none

def fraction? : List Char → Option (List Char × List Char)
  | '.' :: rest => digits? isDigit rest
  | _ => none

/-- The double of a decimal; one that is too large is no number. -/
def toFloat? (negative : Bool) (digits : List Char) (exponent : Int) : Option Float := do
  let n ← natural? 10 digits
  let x := Decimal.ofDecimal negative n exponent
  if !negative && Decimal.Binary.ofFloat x == .infinite false then none else return x

/-- A decimal with a fraction, an exponent or both, or a special value. -/
def float? (text : List Char) : Option (Float × List Char) := do
  let (negative, text) := sign text
  match text with
  | 'i' :: 'n' :: 'f' :: rest => return (if negative then -1.0 / 0.0 else 1.0 / 0.0, rest)
  | 'n' :: 'a' :: 'n' :: rest => return (0.0 / 0.0, rest)
  | _ =>
    let (whole, text) ← whole? text
    match fraction? text with
    | some (places, text) =>
      let (exponent, text) := (exponent? text).getD (0, text)
      let x ← toFloat? negative (whole ++ places) (exponent - places.length)
      return (x, text)
    | none =>
      let (exponent, text) ← exponent? text
      let x ← toFloat? negative whole exponent
      return (x, text)

def inBase? (base : Nat) (text : List Char) : Option (Int × List Char) := do
  let (digits, rest) ← digits? (fun c => ((hexDigit? c).filter (· < base)).isSome) text
  let n ← natural? base digits
  return (n, rest)

/-- An integer of 64 bits with its sign; a base other than ten excludes a sign. -/
def integer? (text : List Char) : Option (Int × List Char) := do
  let (n, rest) ← match text with
    | '0' :: 'x' :: rest => inBase? 16 rest
    | '0' :: 'o' :: rest => inBase? 8 rest
    | '0' :: 'b' :: rest => inBase? 2 rest
    | _ => do
      let (negative, text) := sign text
      let (digits, rest) ← whole? text
      let n ← natural? 10 digits
      some (signed negative n, rest)
  if -(Nat.pow 2 63 : Int) ≤ n ∧ n < (Nat.pow 2 63 : Int) then return (n, rest) else none

/-! ## Dates and times -/

/-- A number of exactly `width` digits between two bounds. -/
def bounded? (width least greatest : Nat) (text : List Char) : Option (Nat × List Char) := do
  let digits := text.take width
  if digits.length < width ∨ !digits.all isDigit then none
  else
    let n ← natural? 10 digits
    if least ≤ n ∧ n ≤ greatest then return (n, text.drop width) else none

def pass? (c : Char) : List Char → Option (List Char)
  | first :: rest => if first = c then some rest else none
  | [] => none

def isLeapYear (year : Nat) : Bool := year % 4 == 0 && (year % 100 != 0 || year % 400 == 0)

def daysIn (year month : Nat) : Nat :=
  if month = 2 then if isLeapYear year then 29 else 28
  else if month = 4 ∨ month = 6 ∨ month = 9 ∨ month = 11 then 30
  else 31

/-- What follows a date. -/
def date? (text : List Char) : Option (List Char) := do
  let (year, text) ← bounded? 4 0 9999 text
  let text ← pass? '-' text
  let (month, text) ← bounded? 2 1 12 text
  let text ← pass? '-' text
  let (_, text) ← bounded? 2 1 (daysIn year month) text
  return text

/-- What follows a time of day, with a fraction of a second if there is one. -/
def time? (text : List Char) : Option (List Char) := do
  let (_, text) ← bounded? 2 0 23 text
  let text ← pass? ':' text
  let (_, text) ← bounded? 2 0 59 text
  let text ← pass? ':' text
  let (_, text) ← bounded? 2 0 60 text
  match text with
  | '.' :: rest =>
    let places := rest.takeWhile isDigit
    return if places.isEmpty then text else rest.drop places.length
  | _ => return text

/-- What follows an offset from universal time, if there is one. -/
def zone (text : List Char) : List Char :=
  match text with
  | c :: rest =>
    if c = 'Z' ∨ c = 'z' then rest
    else if c = '+' ∨ c = '-' then
      (do
        let (_, rest) ← bounded? 2 0 23 rest
        let rest ← pass? ':' rest
        let (_, rest) ← bounded? 2 0 59 rest
        return rest).getD text
    else text
  | [] => text

/-- What follows a date, a time, or both. -/
def moment? (text : List Char) : Option (List Char) :=
  match date? text with
  | some rest =>
    match rest with
    | c :: more =>
      if c = 'T' ∨ c = 't' ∨ c = ' ' then some (((time? more).map zone).getD rest) else some rest
    | [] => some rest
  | none => time? text

/-! ## All scalars -/

def number? (text : List Char) : Option (Scalar × List Char) :=
  match moment? text with
  | some rest => some (.moment, rest)
  | none =>
    match float? text with
    | some (x, rest) => some (.float x, rest)
    | none => (integer? text).map fun (n, rest) => (.int n, rest)

def scalar? (text : List Char) : Option (Scalar × List Char) :=
  match text with
  | 't' :: 'r' :: 'u' :: 'e' :: rest => some (.bool true, rest)
  | 'f' :: 'a' :: 'l' :: 's' :: 'e' :: rest => some (.bool false, rest)
  | c :: _ =>
    if c = '"' ∨ c = '\'' then (string? text).map fun (s, rest) => (.text s, rest) else number? text
  | [] => none

end RestThrift.Toml
