/-!
# Blank characters and lines

Blank is the white space of the character database. `trim` strips blanks at both ends, `lines`
cuts at line feeds, where a carriage return right before the line feed belongs to the line end.
-/
namespace RestThrift.Text

def isBlank (c : Char) : Bool :=
  let code := c.toNat
  (9 ≤ code && code ≤ 13) || code == 0x20 || code == 0x85 || code == 0xA0 || code == 0x1680 ||
    (0x2000 ≤ code && code ≤ 0x200A) || code == 0x2028 || code == 0x2029 || code == 0x202F ||
    code == 0x205F || code == 0x3000

/-- Drop the characters at the end that satisfy `p`. -/
def dropEnd (p : Char → Bool) (text : List Char) : List Char :=
  (text.reverse.dropWhile p).reverse

def trim (text : List Char) : List Char := dropEnd isBlank (text.dropWhile isBlank)

/-- The pieces between the occurrences of `sep`; a text without `sep` is one piece. -/
def splitAt (sep : Char) : List Char → List (List Char)
  | [] => [[]]
  | c :: rest =>
    if c = sep then [] :: splitAt sep rest
    else
      match splitAt sep rest with
      | [] => [[c]]
      | piece :: pieces => (c :: piece) :: pieces

/-- One carriage return at the end of a line belongs to its line end. -/
def dropReturn (line : List Char) : List Char :=
  match line.reverse with
  | '\r' :: rest => rest.reverse
  | _ => line

/-- Lines, without their ends. A text that ends in a line feed has no empty last line, and a
carriage return counts only before a line feed. -/
def lines (text : List Char) : List (List Char) :=
  let pieces := splitAt '\n' text
  let ended := (pieces.dropLast).map dropReturn
  match pieces.getLast? with
  | none => ended
  | some [] => ended
  | some last => ended ++ [last]

/-- The text before and after the last occurrence of `sep`. -/
def splitLast (sep : Char) (text : List Char) : Option (List Char × List Char) :=
  let tail := (text.reverse.takeWhile (· ≠ sep)).reverse
  let head := (text.reverse.dropWhile (· ≠ sep)).drop 1
  if text.contains sep then some (head.reverse, tail) else none

/-- The text before and after the first occurrence of `sep`. -/
def splitFirst (sep : Char) (text : List Char) : Option (List Char × List Char) :=
  if text.contains sep then
    some (text.takeWhile (· ≠ sep), (text.dropWhile (· ≠ sep)).drop 1)
  else none

def join (sep : List Char) : List (List Char) → List Char
  | [] => []
  | [piece] => piece
  | piece :: pieces => piece ++ sep ++ join sep pieces

end RestThrift.Text
