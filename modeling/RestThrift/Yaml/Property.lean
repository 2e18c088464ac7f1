import RestThrift.Yaml.Scalar
import RestThrift.Yaml.Token

/-!
# Anchors, aliases, tags and directives
-/
namespace RestThrift.Yaml

/-- A name behind `&` or `*`: not empty, and followed by a blank or an indicator. -/
def anchorName? (c : Cursor) : Option (List Char × Cursor) :=
  let name := c.rest.takeWhile isWordChar
  let next := c.skip name.length
  let ends := next.blankAt 0 ||
    next.sees 0 fun char => "?:,]%@".toList.contains char || char = '}' || char.toNat == 0x60
  if name.isEmpty || !ends then none else some (name, next)

def isUriChar (verbatim : Bool) (c : Char) : Bool :=
  isWordChar c || ";/?:@&=+$.%!~*()".toList.contains c || c = '\'' ||
    (verbatim && (c = ',' || c = '[' || c = ']'))

/-- One percent escape: an octet. -/
def uriOctet? : List Char → Option (UInt8 × List Char)
  | '%' :: a :: b :: rest => do
    let high ← hexDigit? a
    let low ← hexDigit? b
    return (UInt8.ofNat (high * 16 + low), rest)
  | _ => none

def uriOctets? : Nat → List Char → Option (List UInt8 × List Char)
  | 0, rest => some ([], rest)
  | count + 1, rest => do
    let (octet, rest) ← uriOctet? rest
    let (octets, rest) ← uriOctets? count rest
    return (octet :: octets, rest)

/-- Number of octets of the character that begins with the octet. -/
def octetCount? (octet : UInt8) : Option Nat :=
  let n := octet.toNat
  if n < 0x80 then some 1
  else if n < 0xC0 then none
  else if n < 0xE0 then some 2
  else if n < 0xF0 then some 3
  else if n < 0xF8 then some 4
  else none

/-- Percent escapes of a first octet and of as many others as it asks for. Only the form of the
octets counts: they may stand for no character. -/
def uriEscape? (c : Cursor) : Option (List UInt8 × Cursor) := do
  let (first, rest) ← uriOctet? c.rest
  let count ← octetCount? first
  let (others, _) ← uriOctets? (count - 1) rest
  if others.all Text.Utf8.isContinuation then some (first :: others, c.skip (3 * count)) else none

def uriBytes? (verbatim : Bool) : Nat → Cursor → Option (List UInt8 × Cursor)
  | 0, _ => none
  | steps + 1, c =>
    match c.rest with
    | char :: _ =>
      if isUriChar verbatim char then do
        let (bytes, c) ← if char = '%' then uriEscape? c else some (Tag.ofAscii [char], c.skip 1)
        let (more, c) ← uriBytes? verbatim steps c
        return (bytes ++ more, c)
      else some ([], c)
    | [] => some ([], c)

/-- The part of a tag in a URI that has to be there. -/
def uri? (verbatim : Bool) (c : Cursor) : Option (Tag × Cursor) := do
  let (bytes, c) ← uriBytes? verbatim (c.rest.length + 1) c
  if bytes.isEmpty then none else return (Tag.clip bytes, c)

/-- `!`, word characters, and a closing `!` if there is one. -/
def tagHandle? (c : Cursor) : Option (List Char × Cursor) :=
  if c.isAt '!' then
    let word := (c.skip 1).rest.takeWhile isWordChar
    let next := c.skip (word.length + 1)
    if next.isAt '!' then some ('!' :: (word ++ ['!']), next.skip 1) else some ('!' :: word, next)
  else none

def isNamedHandle (handle : List Char) : Bool :=
  2 ≤ handle.length && handle.getLast? == some '!'

/-- A tag: `!<uri>`, `!handle!suffix`, `!suffix` or a lone `!`. In flow context a comma may
follow. -/
def tag? (flow : Bool) (c : Cursor) : Option (Token × Cursor) := do
  let (token, c) ←
    if c.sees 1 (· = '<') then do
      let (suffix, c) ← uri? true (c.skip 2)
      if c.isAt '>' then some (Token.tag [] suffix, c.skip 1) else none
    else do
      let (handle, c) ← tagHandle? c
      if isNamedHandle handle then do
        let (suffix, c) ← uri? false c
        some (Token.tag (Tag.ofAscii handle) suffix, c)
      else do
        let (more, c) ← uriBytes? false (c.rest.length + 1) c
        let suffix := Tag.clip (Tag.ofAscii (handle.drop 1) ++ more)
        some (if suffix.isEmpty then .tag [] Tag.bare else .tag Tag.bare suffix, c)
  if c.blankAt 0 || (flow && c.isAt ',') then some (token, c) else none

/-- A version number has at most nine digits. -/
def versionNumber? (c : Cursor) : Option (Nat × Cursor) :=
  let digits := c.rest.takeWhile fun char => 48 ≤ char.toNat && char.toNat ≤ 57
  if digits.isEmpty || 9 < digits.length then none
  else some (digits.foldl (fun n char => n * 10 + (char.toNat - 48)) 0, c.skip digits.length)

/-- A directive behind its `%`. -/
def directive? (c : Cursor) : Option (Token × Cursor) := do
  let name := c.rest.takeWhile isWordChar
  let c := c.skip name.length
  if name.isEmpty || !c.blankAt 0 then none
  else
    let (token, c) ←
      if name = "YAML".toList then do
        let (major, c) ← versionNumber? (c.skipWhile isSpaceOrTab)
        if c.isAt '.' then
          let (minor, c) ← versionNumber? (c.skip 1)
          some (Token.versionDirective major minor, c)
        else none
      else if name = "TAG".toList then do
        let (handle, c) ← tagHandle? (c.skipWhile isSpaceOrTab)
        if (handle = ['!'] ∨ handle.getLast? = some '!') ∧ c.sees 0 isSpaceOrTab then
          let (start, c) ← uri? true (c.skipWhile isSpaceOrTab)
          if c.blankAt 0 then some (Token.tagDirective (Tag.ofAscii handle) start, c) else none
        else none
      else none
    let c ← c.finishLine?
    return (token, c)

end RestThrift.Yaml
