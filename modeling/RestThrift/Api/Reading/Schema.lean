import RestThrift.Api.Reading.Basic
import RestThrift.Api.Schema

/-!
# Reading schemas

The depth of a value bounds the nesting of the schemas in it. What a schema says on additional
properties is an alternative between a flag and a schema, and is read strictly.
-/
namespace RestThrift.Api.Reading

open RestThrift.Yaml (Value)

def typeNames? : Value → Option TypeNames
  | .text name => some (.single name)
  | .sequence items => (items.mapM (Setting.strict.text? ·)).map .several
  | _ => none

def choice? : Value → Option Choice
  | .text s => some (.text s)
  | .number (.int n) => some (.ofInt n)
  | .number (.float x) => some (.float x)
  | .bool b => some (.bool b)
  | .null => some .null
  | _ => none

def additional? (schema? : Value → Option Schema) (value : Value) : Option (Additional Schema) :=
  match value with
  | .bool _ => some .unspecified
  | value => if value.hasTag then none else (schema? value).map .values

/-- The fields of a schema in their order. -/
def schemaFields : List String :=
  ["$ref", "type", "format", "description", "properties", "required", "items", "enum",
    "x-enum-varnames", "allOf", "additionalProperties", "default"]

def schemaWithin? : Nat → Setting → Value → Option Schema
  | 0, _, _ => none
  | depth + 1, s, value => do
    let fields ← s.record? schemaFields value
    let reference ← fields.optional "$ref" s.text?
    let typeNames ← fields.optional "type" typeNames?
    let format ← fields.optional "format" s.text?
    let description ← fields.optional "description" s.text?
    let properties ← fields.withDefault "properties" [] (s.table? s.text? (schemaWithin? depth s))
    let required ← fields.withDefault "required" [] (s.list? s.text?)
    let items ← fields.optional "items" (schemaWithin? depth s)
    let choices ← fields.withDefault "enum" [] (s.list? choice?)
    let choiceNames ← fields.withDefault "x-enum-varnames" [] (s.list? s.text?)
    let parts ← fields.withDefault "allOf" [] (s.list? (schemaWithin? depth s))
    let additional ← fields.optional "additionalProperties"
      (additional? (schemaWithin? depth .strict))
    let default ← fields.optional "default" some
    return { reference, typeNames, format, description, properties, required, items, choices
             choiceNames, parts, additional, default }

def schema? (value : Value) : Option Schema := schemaWithin? value.depth .lenient value

end RestThrift.Api.Reading
