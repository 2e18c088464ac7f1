/-!
# Quoted string literals

A literal is written between double quotes; quotes, backslashes, line feeds, carriage returns and
tabs are escaped with a backslash. Reading a literal gives an unknown escape its own character.
-/
namespace RestThrift.Text

def quoteChar (c : Char) : List Char :=
  if c = '"' then ['\\', '"']
  else if c = '\\' then ['\\', '\\']
  else if c = '\n' then ['\\', 'n']
  else if c = '\r' then ['\\', 'r']
  else if c = '\t' then ['\\', 't']
  else [c]

def quote (raw : List Char) : List Char := '"' :: (raw.flatMap quoteChar ++ ['"'])

def unescape (c : Char) : Char :=
  if c = 'n' then '\n' else if c = 'r' then '\r' else if c = 't' then '\t' else c

/-- The characters of a literal's body. -/
def unquoteBody : List Char → List Char
  | [] => []
  | ['\\'] => ['\\']
  | '\\' :: c :: rest => unescape c :: unquoteBody rest
  | c :: rest => c :: unquoteBody rest

/-- A literal starts and ends with a quote, and these are two different quotes. -/
def literalBody? : List Char → Option (List Char)
  | '"' :: rest => if rest.getLast? = some '"' then some rest.dropLast else none
  | _ => none

def unquote? (literal : List Char) : Option (List Char) := (literalBody? literal).map unquoteBody

end RestThrift.Text
