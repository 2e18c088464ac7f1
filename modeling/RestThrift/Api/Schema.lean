import RestThrift.Api.Choice
import RestThrift.Table

/-!
# Schemas

A schema describes a set of JSON values. It refers to a named schema, composes other schemas, lists
its values, or describes objects, arrays and scalars.
-/
namespace RestThrift.Api

/-- What an object may hold besides its properties: anything or nothing, or values of a schema. -/
inductive Additional (α : Type)
  | unspecified
  | values (schema : α)

/-- The declared type: one name, or several to allow null. -/
inductive TypeNames
  | single (name : String)
  | several (names : List String)
  deriving DecidableEq, Repr

structure Schema where
  reference : Option String := none
  typeNames : Option TypeNames := none
  format : Option String := none
  description : Option String := none
  properties : List (String × Schema) := []
  required : List String := []
  items : Option Schema := none
  choices : List Choice := []
  choiceNames : List String := []
  parts : List Schema := []
  additional : Option (Additional Schema) := none
  default : Option Yaml.Value := none

inductive Kind
  | string
  | integer
  | number
  | boolean
  | array
  | object
  | other
  deriving DecidableEq, Repr

def Kind.ofName (name : String) : Kind :=
  match name with
  | "string" => .string
  | "integer" => .integer
  | "number" => .number
  | "boolean" => .boolean
  | "array" => .array
  | "object" => .object
  | _ => .other

/-- The name that counts: of several, the first one besides null. -/
def TypeNames.main? : TypeNames → Option String
  | .single name => some name
  | .several names => names.find? (fun name => name != "null")

namespace Schema

instance : Inhabited Schema := ⟨{}⟩

/-- The declared kind; an empty name declares none. -/
def kind? (s : Schema) : Option Kind :=
  ((s.typeNames.bind TypeNames.main?).filter (fun name => name != "")).map Kind.ofName

/-- Objects are declared, or implied by a missing type. -/
def isObjectLike (s : Schema) : Bool := s.kind? == none || s.kind? == some .object

/-- Places no constraint on its values. -/
def isUnconstrained (s : Schema) : Bool :=
  s.reference.isNone && s.typeNames.isNone && s.properties.isEmpty && s.items.isNone &&
    s.choices.isEmpty && s.parts.isEmpty && s.additional.isNone

/-- The schema of the values of an open object. -/
def valueSchema? (s : Schema) : Option Schema :=
  match s.additional with
  | some (.values schema) => some schema
  | _ => none

/-- Another name for a scalar, an array or an open object; references to it are replaced by what it
stands for. -/
def isAlias (s : Schema) : Bool :=
  s.properties.isEmpty && s.choices.isEmpty &&
    match s.kind? with
    | some .other => false
    | none | some .object => s.additional.isSome
    | some _ => true

/-- An alternative spelling of one reference: a composition of nothing else. -/
def soleReference? (s : Schema) : Option Schema :=
  match s.parts with
  | [part] => if part.reference.isSome && s.properties.isEmpty then some part else none
  | _ => none

mutual
/-- Number of schemas inside, the schema itself included. -/
def size (s : Schema) : Nat :=
  match s with
  | { properties, items, parts, additional, .. } =>
    sizeProperties properties + sizeItems items + sizeParts parts + sizeAdditional additional + 1

def sizeProperties : List (String × Schema) → Nat
  | [] => 0
  | (_, s) :: rest => size s + sizeProperties rest

def sizeItems : Option Schema → Nat
  | none => 0
  | some s => size s

def sizeParts : List Schema → Nat
  | [] => 0
  | s :: rest => size s + sizeParts rest

def sizeAdditional : Option (Additional Schema) → Nat
  | some (.values s) => size s
  | _ => 0
end

end Schema

end RestThrift.Api
