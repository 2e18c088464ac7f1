import RestThrift.Convert.Request

/-!
# Functions of operations

Each operation that returns something becomes a function: it takes its request, returns the type of
the success response and throws one field for each failure response with a schema.
-/
namespace RestThrift.Convert

/-- What the operations so far have come to: functions in order, requests by name, and the names of
requests by the name that the functions asked for. -/
structure Outline where
  functions : List ServiceFunction := []
  requests : Table (List Message) := []
  requestNames : Table String := []

abbrev BuildService := StateT Outline Build

/-- The schema that the result type is taken from, with the field it is named for: of a wrapper
object whose data property is a reference, that reference. -/
def resultSchema (glossary : Glossary) (schema : Api.Schema) : Api.Schema × String :=
  let resolved := match schema.reference with
    | some reference => glossary.resolve? reference
    | none => some schema
  let data := match resolved.filter Api.Schema.isObjectLike with
    | some wrapper =>
      (["Data", "data"].findSome? fun name => wrapper.properties.lookup name).filter fun data =>
        data.reference.isSome
    | none => none
  match data with
  | some data => (data, "Data")
  | none => (schema, "Response")

/-- A name for a function: `base`, else with the last fixed segment of the path behind it, else with
a number behind that. -/
def functionNameFor (taken : List String) (base path : String) : String :=
  if taken.contains base then
    let stem := match Naming.pathSuffix? path with
      | some suffix => Naming.definitionName (base ++ suffix)
      | none => base
    firstFree (fun n => if n = 0 then stem else stem ++ toString (n + 1)) taken taken.length 0
  else base

/-- The request's name; functions that ask for one name share their request. -/
def requestName (file base : String) : BuildService String := do
  match (← get).requestNames.get? base with
  | some name => return name
  | none =>
    let name ← claim file (Naming.definitionName (base ++ "Request"))
    modify fun o => { o with requestNames := o.requestNames.insert base name }
    return name

/-- Build an operation's request and keep it for uniting. -/
def buildRequest (plan : Plan) (file base : String) (item : Api.PathItem)
    (operation : Api.Operation) : BuildService String := do
  let name ← requestName file base
  let parameters := operation.effectiveParameters item
  let fields ← requestFields plan file name parameters (operation.body? parameters)
  let message : Message := { name, fqn := fqnOf file name, fields }
  modify fun o =>
    { o with requests := o.requests.update name [] fun variants => variants ++ [message] }
  return name

/-- Fields of the failure responses, in the order of their codes. -/
def thrownFields (plan : Plan) (file : String) : Table Api.Response → Build (List Field)
  | [] => return []
  | (code, response) :: rest =>
    match if Api.isSuccess code then none else response.effectiveSchema? with
    | some schema => do
      let name := Naming.fieldName ("error" ++ code)
      let type ← typeOf plan { file, parent := name, field := "" } schema
      let others ← thrownFields plan file rest
      return { name, type, comments := describe response.description } :: others
    | none => thrownFields plan file rest

/-- The type of the success response; an operation without a success schema returns nothing. -/
def responseType (plan : Plan) (file base : String) (operation : Api.Operation) : Build TypeRef :=
  match operation.successSchema? with
  | some success =>
    let (schema, field) := resultSchema plan.glossary success
    typeOf plan { file, parent := base, field } schema
  | none => return .void

/-- Build the function of an operation that returns a type. -/
def buildFunction (plan : Plan) (service path : String) (item : Api.PathItem) (method : Api.Method)
    (operation : Api.Operation) (returnType : TypeRef) : BuildService Unit := do
  let file := plan.mainFile
  let base := Naming.functionName method path
  let name := functionNameFor ((← get).functions.map ServiceFunction.name) base path
  let request ← buildRequest plan file base item operation
  let throws ← thrownFields plan file operation.responses
  let parameter : Field := { id := 1, name := "req", type := localType file request }
  let function : ServiceFunction :=
    { name, fqn := fqnOf file (service ++ "." ++ name), returnType, parameters := [parameter]
      throws := renumber throws
      annotations := [.quoted ("api." ++ method.name) (Naming.colonPath path)]
      comments := describe operation.documentation? }
  modify fun o => { o with functions := o.functions ++ [function] }

/-- An operation that returns nothing has no function. -/
def buildOperation (plan : Plan) (service path : String) (item : Api.PathItem)
    (method : Api.Method) : BuildService Unit := do
  match item.operation? method with
  | some operation =>
    let returnType ← responseType plan plan.mainFile (Naming.functionName method path) operation
    if returnType.isVoid then return
    else buildFunction plan service path item method operation returnType
  | none => return

def buildService (plan : Plan) (service : String) : Table Api.PathItem → BuildService Unit
  | [] => return
  | (path, item) :: rest => do
    Api.Method.all.forM (buildOperation plan service path item)
    buildService plan service rest

end RestThrift.Convert
