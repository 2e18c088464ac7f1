import RestThrift.Source.Project
import RestThrift.Text.Utf8
import RestThrift.Thrift.Order

/-!
# From parsed sources to schemas

Each definition keeps its source text and its place. Lowering fails on a span that does not fit
into the source and on a double that no literal can represent.
-/
namespace RestThrift.Source

inductive LowerError
  | spanOutOfRange (file node : String) (start stop length : Nat)
  | constant (file name : String) (cause : LiteralError)

def LowerError.message : LowerError → String
  | .spanOutOfRange file node start stop length =>
    "span " ++ toString start ++ ".." ++ toString stop ++ " of '" ++ node ++ "' is outside the " ++
      toString length ++ " source bytes of '" ++ file ++ "'"
  | .constant file name cause => "constant '" ++ name ++ "' in '" ++ file ++ "': " ++ cause.message

/-- The file that is lowered, and how its type names are located. -/
structure Site where
  path : String
  source : List UInt8
  locate : Locator

def commentsOf (texts : List String) : List Comment := texts.map fun text => { text }

def annotationsOf (nodes : List AnnotationNode) : List Annotation :=
  nodes.map fun node => { name := node.name, value := node.value.map Literal.quoted }

namespace Site

def fqn (site : Site) (name : String) : String := fqnOf site.path name

/-- The source text of a span, faulty bytes replaced. -/
def content (site : Site) (node : String) (span : Location) : Except LowerError String :=
  let start := span.start.offset
  let stop := span.stop.offset
  if start ≤ stop ∧ stop ≤ site.source.length then
    .ok (String.ofList (Text.Utf8.lossy ((site.source.drop start).take (stop - start))))
  else .error (.spanOutOfRange site.path node start stop site.source.length)

def typeRef (site : Site) : TypeNode → TypeRef
  | .name name =>
    match Primitive.ofName? name with
    | some p => .primitive p
    | none => .named name (site.locate site.path name)
  | .list element => .list (site.typeRef element)
  | .set element => .set (site.typeRef element)
  | .map key value => .map (site.typeRef key) (site.typeRef value)

mutual
def literal (site : Site) (owner : String) : LiteralNode → Except LowerError Literal
  | .text raw => .ok (.quoted raw)
  | .int n => .ok (.int n)
  | .double x =>
    if (Decimal.Binary.ofFloat x).isFinite then .ok (.float x)
    else .error (.constant site.path owner (.unsupported (Decimal.plain.text x)))
  | .identifier name =>
    if name = "true" then .ok (.bool true)
    else if name = "false" then .ok (.bool false)
    else .ok (.text name)
  | .list items => (site.literalItems owner items).map .list
  | .map entries => (site.literalEntries owner entries).map .map

def literalItems (site : Site) (owner : String) :
    List LiteralNode → Except LowerError (List Literal)
  | [] => .ok []
  | item :: rest => do
    let item ← site.literal owner item
    let rest ← site.literalItems owner rest
    return item :: rest

def literalEntries (site : Site) (owner : String) :
    List (LiteralNode × LiteralNode) → Except LowerError (List (Literal × Literal))
  | [] => .ok []
  | (key, value) :: rest => do
    let key ← site.literal owner key
    let value ← site.literal owner value
    let rest ← site.literalEntries owner rest
    return (key, value) :: rest
end

def field (site : Site) (id : Int) (node : FieldNode) : Except LowerError Field := do
  let default ← match node.default with
    | some value => (site.literal node.name value).map some
    | none => pure none
  return { id, name := node.name, type := site.typeRef node.type
           requiredness := node.requiredness.getD .unmarked, default
           annotations := annotationsOf node.annotations, comments := commentsOf node.comments
           location := some node.span }

/-- Fields without an id count down from `-1`; `last` is the last id given out. -/
def fieldsFrom (site : Site) : Int → List FieldNode → Except LowerError (List Field)
  | _, [] => .ok []
  | last, node :: rest => do
    let (id, last) := match node.id with
      | some id => (id, last)
      | none => (last - 1, last - 1)
    let field ← site.field id node
    let rest ← site.fieldsFrom last rest
    return field :: rest

def fields (site : Site) (nodes : List FieldNode) : Except LowerError (List Field) :=
  site.fieldsFrom 0 nodes

def message (site : Site) (kind : MessageKind) (node : StructNode) :
    Except LowerError Message := do
  let fields ← site.fields node.fields
  let content ← site.content node.name node.span
  return { name := node.name, fqn := site.fqn node.name, kind, fields
           annotations := annotationsOf node.annotations, comments := commentsOf node.comments
           location := some node.span, content := some content }

/-- A member without a value is one more than the member before it. -/
def members : Int → List EnumValueNode → List EnumMember
  | _, [] => []
  | next, node :: rest =>
    let value := node.value.getD next
    { name := node.name, value, annotations := annotationsOf node.annotations
      comments := commentsOf node.comments } :: members (value + 1) rest

def enumeration (site : Site) (node : EnumNode) : Except LowerError Enumeration := do
  let content ← site.content node.name node.span
  return { name := node.name, fqn := site.fqn node.name, members := members 0 node.values
           annotations := annotationsOf node.annotations, comments := commentsOf node.comments
           location := some node.span, content := some content }

def constant (site : Site) (node : ConstNode) : Except LowerError Constant := do
  let value ← site.literal node.name node.value
  let content ← site.content node.name node.span
  return { name := node.name, fqn := site.fqn node.name, type := site.typeRef node.type, value
           comments := commentsOf node.comments, location := some node.span
           content := some content }

def typedef (site : Site) (node : TypedefNode) : Except LowerError Typedef := do
  let content ← site.content node.name node.span
  return { name := node.name, fqn := site.fqn node.name, target := site.typeRef node.target
           annotations := annotationsOf node.annotations, comments := commentsOf node.comments
           location := some node.span, content := some content }

def function (site : Site) (service : String) (node : FunctionNode) :
    Except LowerError ServiceFunction := do
  let parameters ← site.fields node.parameters
  let throws ← site.fields node.throws
  let returnType := match node.returnType with
    | some type => site.typeRef type
    | none => .void
  return { name := node.name, fqn := site.fqn (service ++ "." ++ node.name), returnType
           oneway := node.oneway, parameters, throws
           annotations := annotationsOf node.annotations, comments := commentsOf node.comments
           location := some node.span }

def service (site : Site) (node : ServiceNode) : Except LowerError Service := do
  let functions ← node.functions.mapM (site.function node.name)
  let content ← site.content node.name node.span
  return { name := node.name, fqn := site.fqn node.name, parent := node.parent, functions
           annotations := annotationsOf node.annotations, comments := commentsOf node.comments
           location := some node.span, content := some content }

def definition (site : Site) : DefinitionNode → Except LowerError Definition
  | .message kind node => (site.message kind node).map .message
  | .enumeration node => (site.enumeration node).map .enumeration
  | .constant node => (site.constant node).map .constant
  | .typedef node => (site.typedef node).map .typedef
  | .service node => (site.service node).map .service

def importOf (site : Site) (node : IncludeNode) : Import :=
  { path := Path.resolveInclude site.path node.path
    written := String.ofList (Text.quote node.path.toList)
    comments := commentsOf node.comments, location := some node.span }

def namespaceOf (node : NamespaceNode) : Namespace :=
  { scope := node.scope, name := node.name, annotations := annotationsOf node.annotations
    comments := commentsOf node.comments, location := some node.span }

def file (site : Site) (document : Document) : Except LowerError File := do
  let definitions ← document.definitions.mapM site.definition
  return { path := site.path, edition := "thrift"
           imports := document.includes.map site.importOf
           namespaces := document.namespaces.map namespaceOf
           definitions := .ofEntries definitions }

end Site

def lowerDocument (locate : Locator) (path : String) (file : ParsedFile) :
    Except LowerError File :=
  Site.file { path, source := file.source, locate } file.document

/-- Files in path order; the first file that fails decides the error. -/
def lowerProject (locate : Locator) (project : Project) (sort : Bool) :
    Except LowerError Schema := do
  let files ← project.mapM fun entry => lowerDocument locate entry.1 entry.2
  let schema : Schema := { files }
  return if sort then schema.sorted else schema

end RestThrift.Source
