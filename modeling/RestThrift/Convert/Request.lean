import RestThrift.Convert.Synthesis

/-!
# Request messages

An operation takes one message with a field for each parameter and for the body. Fields record
where they travel in annotations. Messages made for operations of one name are united.
-/
namespace RestThrift.Convert

/-- Append the annotations whose names are not present yet. -/
def addAnnotations (field : Field) (added : List Annotation) : Field :=
  added.foldl (fun field a =>
    if field.hasAnnotation a.name then field
    else { field with annotations := field.annotations ++ [a] }) field

/-- Combine a field with the one of its name, or append it. -/
def absorb (combine : Field → Field → Field) (field : Field) : List Field → List Field
  | [] => [field]
  | existing :: rest =>
    if existing.name = field.name then combine existing field :: rest
    else existing :: absorb combine field rest

/-- Within one operation: annotations are added, required wins, and the first comment stays. -/
def joinField (existing field : Field) : Field :=
  { addAnnotations existing field.annotations with
    requiredness := if field.requiredness = .required then .required else existing.requiredness
    comments := if existing.comments.isEmpty then field.comments else existing.comments }

/-- Ascending names; fields of one name keep their order. -/
def sortFields (fields : List Field) : List Field :=
  fields.mergeSort fun a b => !decide (b.name < a.name)

def marked (field : Field) (carrier : Api.Carrier) (name : String) : Field :=
  { field with annotations := field.annotations ++ [.quoted carrier.mark name] }

def parameterField (plan : Plan) (file request : String) (p : Api.Parameter)
    (carrier : Api.Carrier) : Build Field := do
  let type ← typeOf plan { file, parent := request, field := p.name } p.effectiveSchema
  let field : Field :=
    { name := Naming.fieldName p.name, type, requiredness := .ofRequired p.required
      comments := describe p.description }
  return marked field carrier p.name

/-- Fields of the parameters besides the body; parameters with an unknown place have none. -/
def parameterFields (plan : Plan) (file request : String) : List Api.Parameter → Build (List Field)
  | [] => return []
  | p :: rest =>
    match if p.place = "body" then none else Api.Carrier.ofName? p.place with
    | some carrier => do
      let field ← parameterField plan file request p carrier
      let others ← parameterFields plan file request rest
      return field :: others
    | none => parameterFields plan file request rest

/-- An inline object gives its properties to the request. -/
def spreads (schema : Api.Schema) : Bool :=
  schema.reference.isNone && (!schema.properties.isEmpty || !schema.parts.isEmpty) &&
    schema.isObjectLike

/-- Fields of a body: those of an object that spreads, or a single one named `body`. -/
def bodyFields (plan : Plan) (file request : String) (body : Api.Body) : Build (List Field) := do
  if spreads body.schema then
    let object ← plan.glossary.effectiveObject body.schema
    object.properties.mapM fun (property, schema) => do
      let field ← propertyField (typeOf plan) file request object.required property schema
      return marked field .body property
  else
    let type ← typeOf plan { file, parent := request, field := "body" } body.schema
    let field : Field :=
      { name := "body", type, requiredness := .ofRequired body.required
        comments := describe body.description }
    return [marked field .body "body"]

/-- The fields of an operation's request, joined by name, sorted and numbered. -/
def requestFields (plan : Plan) (file request : String) (parameters : List Api.Parameter)
    (body : Option Api.Body) : Build (List Field) := do
  let fromParameters ← parameterFields plan file request parameters
  let fromBody ← match body with
    | some body => bodyFields plan file request body
    | none => pure []
  let joined :=
    (fromParameters ++ fromBody).foldl (fun fields field => absorb joinField field fields) []
  return renumber (sortFields joined)

/-! ## Uniting requests -/

def uniteField (existing field : Field) : Field := addAnnotations existing field.annotations

/-- The superset of two requests; a request of the same shape adds nothing. -/
def unite (first other : Message) : Message :=
  if first.sameShape other then first
  else
    { first with fields := renumber (sortFields
        (other.fields.foldl (fun fields field => absorb uniteField field fields) first.fields)) }

def uniteAll : List Message → Option Message
  | [] => none
  | first :: others => some (others.foldl unite first)

end RestThrift.Convert
