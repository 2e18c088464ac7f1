import RestThrift.Thrift.Schema

/-!
# Parsed Thrift sources

The tree that a parser hands over for one file. Strings and annotation values are without their
quotes, spans count bytes of the source.
-/
namespace RestThrift.Source

inductive TypeNode
  | name (name : String)
  | list (element : TypeNode)
  | set (element : TypeNode)
  | map (key value : TypeNode)
  deriving DecidableEq, Repr, Inhabited

inductive LiteralNode
  | text (raw : String)
  | int (n : Int)
  | double (x : Float)
  | identifier (name : String)
  | list (items : List LiteralNode)
  | map (entries : List (LiteralNode × LiteralNode))
  deriving Inhabited

structure AnnotationNode where
  name : String
  value : Option String := none

structure IncludeNode where
  path : String
  comments : List String := []
  span : Location := {}

structure NamespaceNode where
  scope : String
  name : String
  annotations : List AnnotationNode := []
  comments : List String := []
  span : Location := {}

/-- A field, a parameter or a thrown exception. -/
structure FieldNode where
  id : Option Int := none
  name : String
  requiredness : Option Requiredness := none
  type : TypeNode
  default : Option LiteralNode := none
  annotations : List AnnotationNode := []
  comments : List String := []
  span : Location := {}

structure StructNode where
  name : String
  fields : List FieldNode := []
  annotations : List AnnotationNode := []
  comments : List String := []
  span : Location := {}

structure EnumValueNode where
  name : String
  value : Option Int := none
  annotations : List AnnotationNode := []
  comments : List String := []

structure EnumNode where
  name : String
  values : List EnumValueNode := []
  annotations : List AnnotationNode := []
  comments : List String := []
  span : Location := {}

structure ConstNode where
  name : String
  type : TypeNode
  value : LiteralNode
  comments : List String := []
  span : Location := {}

structure TypedefNode where
  name : String
  target : TypeNode
  annotations : List AnnotationNode := []
  comments : List String := []
  span : Location := {}

/-- A function without a return type returns nothing. -/
structure FunctionNode where
  name : String
  oneway : Bool := false
  returnType : Option TypeNode := none
  parameters : List FieldNode := []
  throws : List FieldNode := []
  annotations : List AnnotationNode := []
  comments : List String := []
  span : Location := {}

structure ServiceNode where
  name : String
  parent : Option String := none
  functions : List FunctionNode := []
  annotations : List AnnotationNode := []
  comments : List String := []
  span : Location := {}

inductive DefinitionNode
  | message (kind : MessageKind) (node : StructNode)
  | enumeration (node : EnumNode)
  | constant (node : ConstNode)
  | typedef (node : TypedefNode)
  | service (node : ServiceNode)

def DefinitionNode.name : DefinitionNode → String
  | .message _ node => node.name
  | .enumeration node => node.name
  | .constant node => node.name
  | .typedef node => node.name
  | .service node => node.name

structure Document where
  includes : List IncludeNode := []
  namespaces : List NamespaceNode := []
  definitions : List DefinitionNode := []

/-- A document and the bytes that it was parsed from. -/
structure ParsedFile where
  document : Document := {}
  source : List UInt8 := []

end RestThrift.Source
