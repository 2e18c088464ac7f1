import RestThrift.Convert.DefaultValue
import RestThrift.Convert.Plan
import RestThrift.Convert.Workspace
import RestThrift.Thrift.Description

/-!
# Types of schemas

Each schema has a type. References to aliases are replaced by what they stand for, other references
name a definition. Inline objects and enumerations become definitions, named for the place where
they stand; an object of the shape of an earlier one at the same place shares its definition.
-/
namespace RestThrift.Convert

/-- Where a type is needed: in a file, for a field of a parent. -/
structure Place where
  file : String
  parent : String
  field : String

def scalarType (kind : Api.Kind) (format : Option String) : TypeRef :=
  match kind with
  | .integer => .primitive (if format = some "int64" then .i64 else .i32)
  | .number => .primitive (if format = some "float" then .float else .double)
  | .boolean => .primitive .bool
  | _ => .string

/-! ## Enumerations -/

/-- Members take the given names where there is one for each value, else the enumeration's name and
their value. -/
def memberFor (name : String) (names : Option (List String)) (position : Nat)
    (choice : Api.Choice) : EnumMember :=
  let raw := match names with
    | some names => names[position]?.getD ""
    | none => name ++ "_" ++ choice.label
  { name := Naming.memberName raw, value := choice.code position }

def membersFrom (name : String) (names : Option (List String)) :
    Nat → List Api.Choice → List EnumMember
  | _, [] => []
  | position, choice :: rest =>
    memberFor name names position choice :: membersFrom name names (position + 1) rest

def enumeration (file name : String) (schema : Api.Schema) : Enumeration :=
  let names :=
    if schema.choiceNames.length = schema.choices.length then some schema.choiceNames else none
  { name, fqn := fqnOf file name, members := membersFrom name names 0 schema.choices
    comments := describe schema.description }

def localType (file name : String) : TypeRef := .named name (some (fqnOf file name))

/-- Inline enumerations of one name in one file are one definition. -/
def enumType (place : Place) (schema : Api.Schema) : Build TypeRef := do
  let base := Naming.nestedName place.parent place.field
  match (← get).inlineEnum? place.file base with
  | some name => return localType place.file name
  | none =>
    let name ← claim place.file base
    modify fun w =>
      (w.rememberEnum place.file base name).addEnum place.file (enumeration place.file name schema)
    return localType place.file name

/-! ## Structs -/

/-- The member of an enumeration that stands for a default value. -/
def defaultMember? (w : Workspace) (file name : String) (choices : List Api.Choice)
    (value : Yaml.Value) : Option String := do
  let position ← choices.findIdx? fun choice => choice.accepts value
  let definition ← (w.definitions file).enum? name
  let member ← definition.members[position]?
  return member.name

/-- The default of a property whose type is known; a value of an enumeration is written as its
member. -/
def propertyDefault (w : Workspace) (file property : String) (schema : Api.Schema)
    (type : TypeRef) : Except ConversionError (Option Literal) :=
  match schema.default with
  | none => .ok none
  | some value =>
    match type with
    | .named name _ =>
      match defaultMember? w file name schema.choices value with
      | some member => .ok (some (.text (name ++ "." ++ member)))
      | none => defaultLiteral property value
    | _ => defaultLiteral property value

/-- The field for a property, without its default. -/
def propertyField (typeOf : Place → Api.Schema → Build TypeRef) (file parent : String)
    (required : List String) (property : String) (schema : Api.Schema) : Build Field := do
  let type ← typeOf { file, parent, field := property } schema
  return { name := Naming.fieldName property, type
           requiredness := .ofRequired (required.contains property)
           comments := describe schema.description }

/-- The fields for the properties of an object, numbered in their order. -/
def structFields (typeOf : Place → Api.Schema → Build TypeRef) (file parent : String)
    (object : Api.Schema) : Build (List Field) := do
  let fields ← object.properties.mapM fun (property, schema) => do
    let field ← propertyField typeOf file parent object.required property schema
    let default ← propertyDefault (← get) file property schema field.type
    return { field with default }
  return renumber fields

def structMessage (typeOf : Place → Api.Schema → Build TypeRef) (file name : String)
    (object : Api.Schema) : Build Message := do
  let fields ← structFields typeOf file name object
  return { name, fqn := fqnOf file name, fields, comments := describe object.description }

def structType (typeOf : Place → Api.Schema → Build TypeRef) (place : Place) (object : Api.Schema) :
    Build TypeRef := do
  let base := Naming.nestedName place.parent place.field
  let message ← structMessage typeOf place.file base object
  match (← get).matching? place.file base message with
  | some name => return localType place.file name
  | none =>
    let name ← claim place.file base
    modify fun w => w.addMessage place.file { message with name, fqn := fqnOf place.file name }
    return localType place.file name

/-- An object that is not composed is a struct of its properties, or else a map. -/
def objectType (typeOf : Place → Api.Schema → Build TypeRef) (place : Place) (schema : Api.Schema) :
    Build TypeRef :=
  if !schema.properties.isEmpty then structType typeOf place schema
  else
    match schema.valueSchema?.filter fun value => !value.isUnconstrained with
    | some value => do
      return .map .string (← typeOf { place with field := place.field ++ "Value" } value)
    | none => return .map .string .string

/-! ## All schemas -/

/-- The type of a schema, while the aliases in `inlining` are being replaced. -/
def typeWithin (plan : Plan) : Nat → List String → Place → Api.Schema → Build TypeRef
  | 0, _, _, _ => throw .endlessComposition
  | steps + 1, inlining, place, schema =>
    match schema.reference with
    | some reference => do
      let key := definitionKey reference
      match ← plan.glossary.target reference with
      | none => return Plan.danglingType key
      | some target =>
        if target.isAlias && !inlining.contains key then
          typeWithin plan steps (key :: inlining) place target
        else return plan.typeFor key place.file
    | none =>
      let typeOf := typeWithin plan steps inlining
      if !schema.parts.isEmpty then
        match schema.soleReference? with
        | some part => typeOf place part
        | none => do
          let object ← plan.glossary.effectiveObject schema
          structType typeOf place object
      else if !schema.choices.isEmpty then enumType place schema
      else
        match schema.kind? with
        | some .array =>
          match schema.items with
          | some items => do
            return .list (← typeOf { place with field := Naming.itemName place.field } items)
          | none => return .list .string
        | none | some .object => objectType typeOf place schema
        | some kind => return scalarType kind schema.format

def typeOf (plan : Plan) (place : Place) (schema : Api.Schema) : Build TypeRef :=
  typeWithin plan (plan.steps schema) [] place schema

end RestThrift.Convert
