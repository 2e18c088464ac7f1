import RestThrift.Api.Choice
import RestThrift.Table

/-!
# Reading parts of a document

What the fields of a document may hold. Unknown fields do not matter, and a field that may be left
out may be null.
-/
namespace RestThrift.Api.Reading

open RestThrift.Yaml (Value)

/-- How strictly a value is taken. -/
inductive Setting
  /-- Tags do not count, and null is an empty list, table or object. -/
  | lenient
  /-- No tags occur, and null is only null. An object may be given as the list of all its fields,
  and a field by its number. -/
  | strict
  deriving DecidableEq

namespace Setting

def strip : Setting → Value → Value
  | .lenient, value => value.untagged
  | .strict, value => value

def text? (s : Setting) (value : Value) : Option String :=
  match s.strip value with
  | .text text => some text
  | _ => none

def flag? (s : Setting) (value : Value) : Option Bool :=
  match s.strip value with
  | .bool b => some b
  | _ => none

def items? (s : Setting) (value : Value) : Option (List Value) :=
  match s, s.strip value with
  | _, .sequence items => some items
  | .lenient, .null => some []
  | _, _ => none

def entries? (s : Setting) (value : Value) : Option (List (Value × Value)) :=
  match s, s.strip value with
  | _, .mapping entries => some entries
  | .lenient, .null => some []
  | _, _ => none

variable {α : Type}

def list? (s : Setting) (read : Value → Option α) (value : Value) : Option (List α) :=
  (s.items? value).bind fun items => items.mapM read

/-- A table by names; of equal names the last one counts. -/
def table? (s : Setting) (name? : Value → Option String) (read : Value → Option α) (value : Value) :
    Option (Table α) :=
  (s.entries? value).bind fun entries =>
    (entries.mapM fun (entry : Value × Value) => do
      let name ← name? entry.1
      let content ← read entry.2
      return (name, content)).map Table.ofList

end Setting

/-- The known fields of an object. -/
abbrev Fields := List (String × Value)

/-- The known field that a key names; the outer option is empty where the key names nothing. -/
def Setting.field? (s : Setting) (names : List String) (key : Value) : Option (Option String) :=
  match s, s.strip key with
  | _, .text name => some (if names.contains name then some name else none)
  | .strict, .number (.int n) => if 0 ≤ n then some names[n.toNat]? else none
  | _, _ => none

/-- Collect the known fields of an object, each at most once. -/
def Setting.collect? (s : Setting) (names : List String) :
    List (Value × Value) → Fields → Option Fields
  | [], fields => some fields
  | (key, value) :: rest, fields =>
    match s.field? names key with
    | none => none
    | some none => s.collect? names rest fields
    | some (some name) =>
      if (fields.lookup name).isSome then none
      else s.collect? names rest (fields ++ [(name, value)])

def Setting.record? (s : Setting) (names : List String) (value : Value) : Option Fields :=
  match s, value with
  | .strict, .sequence items =>
    if items.length = names.length then some (names.zip items) else none
  | s, value => (s.entries? value).bind fun entries => s.collect? names entries []

namespace Fields

variable {α : Type}

def required (fields : Fields) (name : String) (read : Value → Option α) : Option α :=
  (fields.lookup name).bind read

def withDefault (fields : Fields) (name : String) (otherwise : α) (read : Value → Option α) :
    Option α :=
  match fields.lookup name with
  | some value => read value
  | none => some otherwise

def optional (fields : Fields) (name : String) (read : Value → Option α) : Option (Option α) :=
  match fields.lookup name with
  | none => some none
  | some .null => some none
  | some value => (read value).map some

end Fields

end RestThrift.Api.Reading
