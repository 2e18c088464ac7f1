import RestThrift.Thrift.Literal
import RestThrift.Thrift.TypeRef
import RestThrift.Thrift.Path

/-!
# Thrift schemas

A schema is an ordered list of files, a file one bag of definitions. Definitions refer to each
other by name only.
-/
namespace RestThrift

/-- A point of a source file; lines and columns count from one, the offset in bytes from zero. -/
structure Position where
  line : Nat := 0
  column : Nat := 0
  offset : Nat := 0
  deriving DecidableEq, Repr, Inhabited

structure Location where
  start : Position := {}
  stop : Position := {}
  deriving DecidableEq, Repr, Inhabited

/-- A comment with its delimiters. -/
structure Comment where
  text : String
  location : Option Location := none
  deriving DecidableEq, Repr, Inhabited

/-- `name = value`, or a bare name. -/
structure Annotation where
  name : String
  value : Option Literal := none
  deriving BEq, Inhabited

def Annotation.quoted (name value : String) : Annotation := ⟨name, some (.quoted value)⟩

inductive Requiredness
  | required
  | optional
  | unmarked
  deriving DecidableEq, Repr, Inhabited

def Requiredness.ofRequired (flag : Bool) : Requiredness := if flag then .required else .optional

def Requiredness.keyword? : Requiredness → Option String
  | .required => some "required"
  | .optional => some "optional"
  | .unmarked => none

/-- A message field, a function parameter or a thrown exception. -/
structure Field where
  id : Int := 0
  name : String
  type : TypeRef
  requiredness : Requiredness := .unmarked
  default : Option Literal := none
  annotations : List Annotation := []
  comments : List Comment := []
  location : Option Location := none
  deriving BEq, Inhabited

def Field.hasAnnotation (field : Field) (name : String) : Bool :=
  field.annotations.any (fun a => a.name == name)

/-- Number fields from `first` on, in list order. -/
def renumberFrom : Int → List Field → List Field
  | _, [] => []
  | id, field :: rest => { field with id } :: renumberFrom (id + 1) rest

def renumber (fields : List Field) : List Field := renumberFrom 1 fields

inductive MessageKind
  | struct
  | union
  | exception
  deriving DecidableEq, Repr, Inhabited

def MessageKind.keyword : MessageKind → String
  | .struct => "struct"
  | .union => "union"
  | .exception => "exception"

structure Message where
  name : String
  fqn : String
  kind : MessageKind := .struct
  fields : List Field := []
  annotations : List Annotation := []
  comments : List Comment := []
  location : Option Location := none
  content : Option String := none
  deriving BEq, Inhabited

def Message.field? (message : Message) (name : String) : Option Field :=
  message.fields.find? (fun f => f.name == name)

structure EnumMember where
  name : String
  value : Int
  annotations : List Annotation := []
  comments : List Comment := []
  deriving BEq, Inhabited

structure Enumeration where
  name : String
  fqn : String
  members : List EnumMember := []
  annotations : List Annotation := []
  comments : List Comment := []
  location : Option Location := none
  content : Option String := none
  deriving BEq, Inhabited

structure Constant where
  name : String
  fqn : String
  type : TypeRef
  value : Literal
  comments : List Comment := []
  location : Option Location := none
  content : Option String := none
  deriving BEq, Inhabited

structure Typedef where
  name : String
  fqn : String
  target : TypeRef
  annotations : List Annotation := []
  comments : List Comment := []
  location : Option Location := none
  content : Option String := none
  deriving BEq, Inhabited

structure ServiceFunction where
  name : String
  fqn : String
  returnType : TypeRef
  oneway : Bool := false
  parameters : List Field := []
  throws : List Field := []
  annotations : List Annotation := []
  comments : List Comment := []
  location : Option Location := none
  deriving BEq, Inhabited

structure Service where
  name : String
  fqn : String
  parent : Option String := none
  functions : List ServiceFunction := []
  annotations : List Annotation := []
  comments : List Comment := []
  location : Option Location := none
  content : Option String := none
  deriving BEq, Inhabited

def Service.function? (service : Service) (name : String) : Option ServiceFunction :=
  service.functions.find? (fun f => f.name == name)

structure Definitions where
  services : List Service := []
  messages : List Message := []
  enums : List Enumeration := []
  constants : List Constant := []
  typedefs : List Typedef := []
  deriving BEq, Inhabited

def Definitions.isEmpty (d : Definitions) : Bool :=
  d.services.isEmpty && d.messages.isEmpty && d.enums.isEmpty && d.constants.isEmpty &&
    d.typedefs.isEmpty

def Definitions.message? (d : Definitions) (name : String) : Option Message :=
  d.messages.find? (fun m => m.name == name)

def Definitions.enum? (d : Definitions) (name : String) : Option Enumeration :=
  d.enums.find? (fun e => e.name == name)

def Definitions.service? (d : Definitions) (name : String) : Option Service :=
  d.services.find? (fun s => s.name == name)

/-- An include: the path of the included file and the literal written after the keyword. -/
structure Import where
  path : String
  written : String
  comments : List Comment := []
  location : Option Location := none
  deriving BEq, Inhabited

structure Namespace where
  scope : String
  name : String
  annotations : List Annotation := []
  comments : List Comment := []
  location : Option Location := none
  deriving BEq, Inhabited

/-- One file; `edition` is the version of the document that the file was made from. -/
structure File where
  path : String
  location : Option Location := none
  edition : String := ""
  imports : List Import := []
  namespaces : List Namespace := []
  options : List Annotation := []
  definitions : Definitions := {}
  deriving BEq, Inhabited

def File.stem (file : File) : String := Path.stem file.path

structure Schema where
  version : String := "1.0"
  dialect : String := "thrift"
  files : List File := []
  deriving BEq, Inhabited

def Schema.file? (schema : Schema) (path : String) : Option File :=
  schema.files.find? (fun f => f.path == path)

end RestThrift
