import RestThrift.Json.Value

/-!
# Records in JSON

A record is read from an object, where unknown members do not matter, or from an array of its
fields in order, where trailing fields may be missing. A codec reads each field by name.
-/
namespace RestThrift.Json

abbrev Members := List (String × Json)

def record? (names : List String) : Json → Option Members
  | .obj members => some members
  | .arr items => if items.length ≤ names.length then some (names.zip items) else none
  | _ => none

variable {α : Type}

def Members.required (members : Members) (name : String) (read : Json → Option α) : Option α :=
  (member? name members).bind read

def Members.withDefault (members : Members) (name : String) (otherwise : α)
    (read : Json → Option α) : Option α :=
  match member? name members with
  | some value => read value
  | none => some otherwise

/-- A missing field and a null field are both absent. -/
def Members.optional (members : Members) (name : String) (read : Json → Option α) :
    Option (Option α) :=
  match member? name members with
  | none => some none
  | some .null => some none
  | some value => (read value).map some

def text? : Json → Option String
  | .str text => some text
  | _ => none

def bool? : Json → Option Bool
  | .bool b => some b
  | _ => none

/-- An integer of at most `bits` bits with its sign. -/
def signed? (bits : Nat) : Json → Option Int
  | .int n =>
    if -(Nat.pow 2 (bits - 1) : Int) ≤ n ∧ n < (Nat.pow 2 (bits - 1) : Int) then some n else none
  | _ => none

def natural? : Json → Option Nat
  | .int n => if 0 ≤ n then some n.toNat else none
  | _ => none

def items? (read : Json → Option α) : Json → Option (List α)
  | .arr items => items.mapM read
  | _ => none

/-- One of the values, by its name. -/
def choice? (name : α → String) (values : List α) : Json → Option α
  | .str text => values.find? (fun v => name v == text)
  | .obj [(text, .null)] => values.find? (fun v => name v == text)
  | _ => none

/-- A member that is left out when its list is empty. -/
def listMember (name : String) (items : List Json) : Members :=
  if items.isEmpty then [] else [(name, .arr items)]

/-- A member that is left out when its value is absent. -/
def optionMember (name : String) (value : Option Json) : Members :=
  match value with
  | some value => [(name, value)]
  | none => []

end RestThrift.Json
