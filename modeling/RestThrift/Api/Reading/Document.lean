import RestThrift.Api.Document
import RestThrift.Api.Reading.Schema

/-!
# Reading documents

The dialect follows from the version fields, or else from the sections that are present. All
sections are read in either dialect.
-/
namespace RestThrift.Api.Reading

open RestThrift.Yaml (Value)

def lenientText? : Value → Option String := Setting.lenient.text?

def lenientRecord? (names : List String) : Value → Option Fields := Setting.lenient.record? names

def parameter? (value : Value) : Option Parameter := do
  let fields ← lenientRecord? ["name", "in", "description", "required", "schema", "type", "format",
    "items", "enum", "x-enum-varnames"] value
  let name ← fields.required "name" lenientText?
  let place ← fields.required "in" lenientText?
  let description ← fields.optional "description" lenientText?
  let required ← fields.withDefault "required" false Setting.lenient.flag?
  let schema ← fields.optional "schema" schema?
  let typeName ← fields.optional "type" lenientText?
  let format ← fields.optional "format" lenientText?
  let items ← fields.optional "items" schema?
  let choices ← fields.withDefault "enum" [] (Setting.lenient.list? choice?)
  let choiceNames ← fields.withDefault "x-enum-varnames" [] (Setting.lenient.list? lenientText?)
  return {
    name, place, description, required, schema, typeName, format, items, choices, choiceNames
  }

def mediaType? (value : Value) : Option (Option Schema) := do
  let fields ← lenientRecord? ["schema"] value
  fields.optional "schema" schema?

def content? : Value → Option Content := Setting.lenient.table? lenientText? mediaType?

def requestBody? (value : Value) : Option RequestBody := do
  let fields ← lenientRecord? ["description", "required", "content"] value
  let description ← fields.optional "description" lenientText?
  let required ← fields.withDefault "required" false Setting.lenient.flag?
  let content ← fields.withDefault "content" [] content?
  return { description, required, content }

def response? (value : Value) : Option Response := do
  let fields ← lenientRecord? ["description", "content", "schema"] value
  let description ← fields.optional "description" lenientText?
  let content ← fields.withDefault "content" [] content?
  let schema ← fields.optional "schema" schema?
  return { description, content, schema }

/-- Status codes are texts or integers. -/
def statusCode? : Value → Option String
  | .text s => some s
  | .number (.int n) => some (toString n)
  | _ => none

def operation? (value : Value) : Option Operation := do
  let fields ← lenientRecord?
    ["summary", "description", "parameters", "requestBody", "responses"] value
  let summary ← fields.optional "summary" lenientText?
  let description ← fields.optional "description" lenientText?
  let parameters ← fields.withDefault "parameters" [] (Setting.lenient.list? parameter?)
  let requestBody ← fields.optional "requestBody" requestBody?
  let responses ← fields.withDefault "responses" [] (Setting.lenient.table? statusCode? response?)
  return { summary, description, parameters, requestBody, responses }

def pathItem? (value : Value) : Option PathItem := do
  let fields ← lenientRecord? (Method.all.map Method.name ++ ["parameters"]) value
  let operations ← Method.all.mapM fun method => do
    let operation ← fields.optional method.name operation?
    return operation.map fun operation => (method, operation)
  let parameters ← fields.withDefault "parameters" [] (Setting.lenient.list? parameter?)
  return { operations := operations.filterMap id, parameters }

def schemas? : Value → Option (Table Schema) := Setting.lenient.table? lenientText? schema?

def components? (value : Value) : Option (Table Schema) := do
  let fields ← lenientRecord? ["schemas"] value
  fields.withDefault "schemas" [] schemas?

def document? (dialect : Dialect) (version : String) (root : Value) : Option Document := do
  let fields ← lenientRecord? ["paths", "components", "definitions"] root
  let paths ← fields.withDefault "paths" [] (Setting.lenient.table? lenientText? pathItem?)
  let components ← fields.optional "components" components?
  let definitions ← fields.withDefault "definitions" [] schemas?
  let schemas := match dialect with
    | .openApi3 => components.getD []
    | .swagger2 => definitions
  return { dialect, version, paths, schemas }

/-- The value of a key at the root of a document. -/
def rootField? (name : String) (entries : List (Value × Value)) : Option Value :=
  (entries.find? (fun entry => entry.1.same (.text name))).map (·.2)

/-- A version, possibly given as a number. -/
def versionText? : Value → Option String
  | .text s => some s
  | .number n => some n.render
  | _ => none

/-- What is missing where the dialect cannot be told. -/
inductive MissingHint
  | paths
  | schemas
  deriving DecidableEq, Repr

def MissingHint.message : MissingHint → String
  | .paths => "no 'paths' section either"
  | .schemas => "neither 'components' nor 'definitions' is present"

def isSwagger2 (version : String) : Bool := version == "2" || version.toList.take 2 == ['2', '.']

def isOpenApi3 (version : String) : Bool := version.toList.take 2 == ['3', '.']

/-- The dialect and the version of a document. -/
def detect (entries : List (Value × Value)) : Except MissingHint (Dialect × String) :=
  let version? (name : String) : Option String := (rootField? name entries).bind versionText?
  let has (name : String) : Bool := (rootField? name entries).isSome
  match (version? "swagger").filter isSwagger2, (version? "openapi").filter isOpenApi3 with
  | some version, _ => .ok (.swagger2, version)
  | none, some version => .ok (.openApi3, version)
  | none, none =>
    if !has "paths" then .error .paths
    else if has "components" then .ok (.openApi3, "")
    else if has "definitions" then .ok (.swagger2, "")
    else .error .schemas

end RestThrift.Api.Reading
