import RestThrift.Text.Visible

/-!
# Escaped text in diagnostics

Diagnostics show a text between double quotes with every character that does not print on its own
written as `\u{…}` in lower-case hexadecimal.
-/
namespace RestThrift.Text

def hexadecimal (n : Nat) : List Char := Nat.toDigits 16 n

def escapeChar (c : Char) : List Char :=
  if c = '"' then ['\\', '"']
  else if c = '\\' then ['\\', '\\']
  else if c = '\n' then ['\\', 'n']
  else if c = '\r' then ['\\', 'r']
  else if c = '\t' then ['\\', 't']
  else if c.toNat = 0 then ['\\', '0']
  else if isVisible c then [c]
  else ['\\', 'u', '{'] ++ hexadecimal c.toNat ++ ['}']

def escaped (text : String) : String :=
  String.ofList ('"' :: (text.toList.flatMap escapeChar ++ ['"']))

end RestThrift.Text
