import RestThrift.Api.Choice
import RestThrift.Convert.Error
import RestThrift.Table

/-!
# Default values

A default becomes a literal. Entries of a mapping are sorted by their keys, which have to be texts;
null, tagged values and integers beyond 64 signed bits have no literal.
-/
namespace RestThrift.Convert

open RestThrift.Yaml (Value)

/-- Literals of a mapping under their keys. -/
def mapLiteral (entries : List (String × Literal)) : Literal :=
  .map ((Table.ofList entries).map fun entry => (.quoted entry.1, entry.2))

mutual
def literal : Value → Except LiteralError Literal
  | .null => .error (.unsupported "null")
  | .bool b => .ok (.bool b)
  | .number (.int n) =>
    if Api.Choice.isSigned64 n then .ok (.int n)
    else .error (.unsupported ("integer " ++ toString n ++ " does not fit in i64"))
  | .number (.float x) => .ok (.float x)
  | .text s => .ok (.quoted s)
  | .sequence items => (literalItems items).map .list
  | .mapping entries => (literalEntries entries).map mapLiteral
  | .tagged tag _ => .error (.unsupported ("tagged value !" ++ tag))

def literalItems : List Value → Except LiteralError (List Literal)
  | [] => .ok []
  | item :: rest => do
    let first ← literal item
    let others ← literalItems rest
    return first :: others

def literalEntries : List (Value × Value) → Except LiteralError (List (String × Literal))
  | [] => .ok []
  | (.text key, value) :: rest => do
    let first ← literal value
    let others ← literalEntries rest
    return (key, first) :: others
  | (key, _) :: _ => .error (.unsupported ("map key " ++ key.describe))
end

/-- The default of a property; null stands for none. -/
def defaultLiteral (property : String) (value : Value) : Except ConversionError (Option Literal) :=
  match value.untagged with
  | .null => .ok none
  | _ =>
    match literal value with
    | .ok written => .ok (some written)
    | .error cause => .error (.defaultValue property cause)

end RestThrift.Convert
