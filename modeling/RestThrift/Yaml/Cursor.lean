import RestThrift.Text.Utf8

/-!
# Reading position

A cursor holds the characters still to be read with their place. Columns count characters, indices
count the bytes of their UTF-8 forms. A line ends at a line feed, a carriage return, both together,
a next-line character or one of the two Unicode separators.
-/
namespace RestThrift.Yaml

def isSpaceOrTab (c : Char) : Bool := c = ' ' || c = '\t'

def isBreak (c : Char) : Bool :=
  c = '\r' || c = '\n' || c.toNat == 0x85 || c.toNat == 0x2028 || c.toNat == 0x2029

def isBlankOrBreak (c : Char) : Bool := isSpaceOrTab c || isBreak c

/-- Characters of names of anchors, directives and tag handles. -/
def isWordChar (c : Char) : Bool :=
  (48 ≤ c.toNat && c.toNat ≤ 57) || (65 ≤ c.toNat && c.toNat ≤ 90) ||
    (97 ≤ c.toNat && c.toNat ≤ 122) || c = '_' || c = '-'

/-- Characters that a stream may hold. -/
def isAllowed (c : Char) : Bool :=
  let n := c.toNat
  n == 0x09 || n == 0x0A || n == 0x0D || (0x20 ≤ n && n ≤ 0x7E) || n == 0x85 ||
    (0xA0 ≤ n && n ≤ 0xD7FF) || (0xE000 ≤ n && n ≤ 0xFFFD) || 0x10000 ≤ n

structure Cursor where
  rest : List Char
  index : Nat := 0
  line : Nat := 0
  column : Nat := 0

namespace Cursor

def peek (c : Cursor) (offset : Nat) : Option Char := c.rest[offset]?

/-- The character at an offset satisfies `p`. -/
def sees (c : Cursor) (offset : Nat) (p : Char → Bool) : Bool :=
  match c.peek offset with
  | some char => p char
  | none => false

def isAt (c : Cursor) (char : Char) : Bool := c.sees 0 (· = char)

def atEnd (c : Cursor) : Bool := c.rest.isEmpty

/-- A blank, a break or the end stands at the offset. -/
def blankAt (c : Cursor) (offset : Nat) : Bool :=
  match c.peek offset with
  | some char => isBlankOrBreak char
  | none => true

def breakOrEnd (c : Cursor) : Bool := c.atEnd || c.sees 0 isBreak

def skip (c : Cursor) (count : Nat) : Cursor :=
  { c with
    rest := c.rest.drop count
    index := (c.rest.take count).foldl (fun index char => index + char.utf8Size) c.index
    column := c.column + count }

/-- Pass a line break; the text it stands for comes along. -/
def takeBreak (c : Cursor) : List Char × Cursor :=
  match c.rest with
  | '\r' :: '\n' :: rest =>
    (['\n'], { rest, index := c.index + 2, line := c.line + 1, column := 0 })
  | char :: rest =>
    let next : Cursor :=
      { rest, index := c.index + char.utf8Size, line := c.line + 1, column := 0 }
    if char.toNat == 0x2028 || char.toNat == 0x2029 then ([char], next)
    else if isBreak char then (['\n'], next)
    else ([], c)
  | [] => ([], c)

def skipWhile (c : Cursor) (p : Char → Bool) : Cursor := c.skip (c.rest.takeWhile p).length

/-- Pass blanks, a comment, and the break after it; anything else is a fault. -/
def finishLine? (c : Cursor) : Option Cursor :=
  let c := c.skipWhile isSpaceOrTab
  let c := if c.isAt '#' then c.skipWhile (fun char => !isBreak char) else c
  if c.breakOrEnd then some c.takeBreak.2 else none

/-- `---` or `...` at the start of a line, followed by a blank or the end. -/
def atDocumentMark (c : Cursor) : Bool :=
  c.column == 0 && (c.rest.take 3 == ['-', '-', '-'] || c.rest.take 3 == ['.', '.', '.']) &&
    c.blankAt 3

end Cursor

end RestThrift.Yaml
