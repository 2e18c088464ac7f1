import RestThrift.Api.Schema
import RestThrift.Text.Blank

/-!
# Paths and operations

A path has at most one operation for each method. An operation takes parameters and possibly a
body, and answers with one response for each status code.
-/
namespace RestThrift.Api

/-- The methods that become functions, in visiting order. -/
inductive Method
  | get
  | put
  | post
  | delete
  | patch
  deriving DecidableEq, Repr

namespace Method

def all : List Method := [.get, .put, .post, .delete, .patch]

def name : Method → String
  | .get => "get"
  | .put => "put"
  | .post => "post"
  | .delete => "delete"
  | .patch => "patch"

end Method

/-- Where a parameter travels. -/
inductive Carrier
  | path
  | query
  | header
  | cookie
  | form
  | body
  | rawBody
  deriving DecidableEq, Repr

def Carrier.ofName? (name : String) : Option Carrier :=
  match name with
  | "path" => some .path
  | "query" => some .query
  | "header" => some .header
  | "cookie" => some .cookie
  | "formData" => some .form
  | "body" => some .body
  | "raw_body" => some .rawBody
  | _ => none

/-- The name of the annotation that records the carrier. -/
def Carrier.mark : Carrier → String
  | .path => "api.path"
  | .query => "api.query"
  | .header => "api.header"
  | .cookie => "api.cookie"
  | .form => "api.form"
  | .body => "api.body"
  | .rawBody => "api.raw_body"

/-- A parameter; its type stands in a schema or beside it. `place` is written as in the document. -/
structure Parameter where
  name : String
  place : String
  description : Option String := none
  required : Bool := false
  schema : Option Schema := none
  typeName : Option String := none
  format : Option String := none
  items : Option Schema := none
  choices : List Choice := []
  choiceNames : List String := []
  deriving Inhabited

/-- The parameter's schema; a type given beside it is made into one, and without any the parameter
is a string. -/
def Parameter.effectiveSchema (p : Parameter) : Schema :=
  match p.schema with
  | some schema => schema
  | none =>
    { typeNames := some (.single (p.typeName.getD "string")), format := p.format, items := p.items
      choices := p.choices, choiceNames := p.choiceNames, description := p.description }

/-- Schemas by media type; a media type may have none. -/
abbrev Content := Table (Option Schema)

/-- The schema for JSON, else that of the first media type that has one. -/
def Content.schema? (content : Content) : Option Schema :=
  match (content.get? "application/json").join with
  | some schema => some schema
  | none => content.findSome? (·.2)

structure RequestBody where
  description : Option String := none
  required : Bool := false
  content : Content := []
  deriving Inhabited

/-- A response; a schema of its own goes before those of its media types. -/
structure Response where
  description : Option String := none
  content : Content := []
  schema : Option Schema := none
  deriving Inhabited

def Response.effectiveSchema? (r : Response) : Option Schema :=
  match r.schema with
  | some schema => some schema
  | none => r.content.schema?

/-- Codes of success start with a two. -/
def isSuccess (code : String) : Bool := code.toList.head? == some '2'

structure Operation where
  summary : Option String := none
  description : Option String := none
  parameters : List Parameter := []
  requestBody : Option RequestBody := none
  responses : Table Response := []
  deriving Inhabited

structure PathItem where
  operations : List (Method × Operation) := []
  parameters : List Parameter := []
  deriving Inhabited

def PathItem.operation? (item : PathItem) (method : Method) : Option Operation :=
  item.operations.lookup method

namespace Operation

/-- The path's parameters that the operation does not declare itself, then its own. -/
def effectiveParameters (operation : Operation) (item : PathItem) : List Parameter :=
  item.parameters.filter (fun shared =>
    !operation.parameters.any (fun p => p.name == shared.name && p.place == shared.place)) ++
    operation.parameters

/-- The description, or the summary where the description is missing or blank. -/
def documentation? (operation : Operation) : Option String :=
  match operation.description.filter (fun d => !(Text.trim d.toList).isEmpty) with
  | some description => some description
  | none => operation.summary

/-- The schema of the success response: of code 200, else of the first success code with one. -/
def successSchema? (operation : Operation) : Option Schema :=
  match (operation.responses.get? "200").bind Response.effectiveSchema? with
  | some schema => some schema
  | none =>
    (operation.responses.filter (fun entry => isSuccess entry.1)).findSome?
      (fun entry => entry.2.effectiveSchema?)

end Operation

/-- A request body with a schema. -/
structure Body where
  schema : Schema
  required : Bool
  description : Option String

/-- The request body, else the first body parameter with a schema. -/
def Operation.body? (operation : Operation) (parameters : List Parameter) : Option Body :=
  match operation.requestBody with
  | some body =>
    body.content.schema?.map fun schema =>
      { schema, required := body.required, description := body.description }
  | none =>
    (parameters.filter (fun p => p.place == "body")).findSome? fun p =>
      p.schema.map fun schema => { schema, required := p.required, description := p.description }

end RestThrift.Api
