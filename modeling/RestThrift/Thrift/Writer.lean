import RestThrift.Table
import RestThrift.Thrift.Schema

/-!
# Writing Thrift files

A writer renders one file at a time: namespaces, includes, then constants, typedefs, enumerations,
messages and services, each group followed by a blank line. The value of an annotation has to be a
quoted string literal; the first one that is not stops the file.
-/
namespace RestThrift

inductive RenderError
  | malformedValue (label owner : String) (cause : LiteralError)

def RenderError.message : RenderError → String
  | .malformedValue label owner cause =>
    "annotation '" ++ label ++ "' on '" ++ owner ++ "' has a malformed value: " ++ cause.message

/-- What a writer holds: its switch, the text of the file so far, the nesting depth and the stems
of the includes of the file. -/
structure Writer where
  withComments : Bool := true
  out : String := ""
  depth : Nat := 0
  stems : List String := []

abbrev WriterM := ExceptT RenderError (StateM Writer)

/-! ## Pieces of a line -/

def annotationText (owner : String) (a : Annotation) : Except RenderError String :=
  match a.value with
  | none => .ok a.name
  | some value =>
    match value.stringValue with
    | .ok _ => .ok (a.name ++ " = " ++ value.emit)
    | .error cause => .error (.malformedValue a.name owner cause)

def annotationsText (owner : String) (annotations : List Annotation) :
    Except RenderError String := do
  if annotations.isEmpty then return ""
  let parts ← annotations.mapM (annotationText owner)
  return " (" ++ ", ".intercalate parts ++ ")"

/-- A parameter that bears the stem of an include is written with a trailing underscore. -/
def parameterName (stems : List String) (name : String) : String :=
  if stems.contains name then name ++ "_" else name

def defaultText (default : Option Literal) : String :=
  match default with
  | some value => " = " ++ value.emit
  | none => ""

def fieldText (keyword : String) (name : String) (field : Field) : Except RenderError String := do
  let annotations ← annotationsText field.name field.annotations
  return toString field.id ++ ": " ++ keyword ++ field.type.emit ++ " " ++ name ++
    defaultText field.default ++ annotations

def messageFieldText (field : Field) : Except RenderError String :=
  let keyword := match field.requiredness.keyword? with
    | some keyword => keyword ++ " "
    | none => ""
  fieldText keyword field.name field

/-- Parameter lists leave requiredness out. -/
def parametersText (stems : List String) (fields : List Field) : Except RenderError String := do
  let parts ← fields.mapM fun field => fieldText "" (parameterName stems field.name) field
  return ", ".intercalate parts

def functionText (stems : List String) (f : ServiceFunction) : Except RenderError String := do
  let parameters ← parametersText stems f.parameters
  let throws ←
    if f.throws.isEmpty then pure ""
    else do
      let thrown ← parametersText stems f.throws
      pure (" throws (" ++ thrown ++ ")")
  let annotations ← annotationsText f.name f.annotations
  return (if f.oneway then "oneway " else "") ++ f.returnType.emit ++ " " ++ f.name ++
    "(" ++ parameters ++ ")" ++ throws ++ annotations

/-- Lines of a comment; line ends at its end do not count. -/
def commentLines (comment : Comment) : List String :=
  let text := Text.dropEnd (fun c => c = '\r' || c = '\n') comment.text.toList
  (Text.splitAt '\n' text).map String.ofList

/-! ## Lines -/

namespace Writer

def indent (depth : Nat) : String := String.ofList (List.replicate (4 * depth) ' ')

/-- Empty lines are not indented. -/
def appendLine (writer : Writer) (text : String) : Writer :=
  let line := if text.isEmpty then "\n" else indent writer.depth ++ text ++ "\n"
  { writer with out := writer.out ++ line }

def line (text : String) : WriterM Unit := modify (·.appendLine text)

def lines (texts : List String) : WriterM Unit := texts.forM line

def enter : WriterM Unit := modify fun writer => { writer with depth := writer.depth + 1 }

def leave : WriterM Unit := modify fun writer => { writer with depth := writer.depth - 1 }

def comments (comments : List Comment) : WriterM Unit := do
  let writer ← get
  if writer.withComments then comments.forM fun comment => lines (commentLines comment)

def annotations (owner : String) (annotations : List Annotation) : WriterM String :=
  liftExcept (annotationsText owner annotations)

/-! ## Definitions -/

def namespaceLine (n : Namespace) : WriterM Unit := do
  comments n.comments
  let annotations ← annotations n.name n.annotations
  line ("namespace " ++ n.scope ++ " " ++ n.name ++ annotations)

def includeLine (i : Import) : WriterM Unit := do
  comments i.comments
  line ("include " ++ i.written)

def constant (c : Constant) : WriterM Unit := do
  comments c.comments
  line ("const " ++ c.type.emit ++ " " ++ c.name ++ " = " ++ c.value.emit)

def typedef (t : Typedef) : WriterM Unit := do
  comments t.comments
  let annotations ← annotations t.name t.annotations
  line ("typedef " ++ t.target.emit ++ " " ++ t.name ++ annotations)

def enumMember (separator : String) (m : EnumMember) : WriterM Unit := do
  comments m.comments
  let annotations ← annotations m.name m.annotations
  line (m.name ++ " = " ++ toString m.value ++ annotations ++ separator)

/-- The last member has no comma. -/
def enumMembers : List EnumMember → WriterM Unit
  | [] => pure ()
  | [m] => enumMember "" m
  | m :: rest => do
    enumMember "," m
    enumMembers rest

def enumeration (e : Enumeration) : WriterM Unit := do
  comments e.comments
  let annotations ← annotations e.name e.annotations
  line ("enum " ++ e.name ++ annotations ++ " \x7b")
  enter
  enumMembers e.members
  leave
  line "\x7d"

def messageField (field : Field) : WriterM Unit := do
  comments field.comments
  let text ← liftExcept (messageFieldText field)
  line (text ++ ",")

def message (m : Message) : WriterM Unit := do
  comments m.comments
  let annotations ← annotations m.name m.annotations
  line (m.kind.keyword ++ " " ++ m.name ++ annotations ++ " \x7b")
  enter
  m.fields.forM messageField
  leave
  line "\x7d"

def function (separator : String) (f : ServiceFunction) : WriterM Unit := do
  comments f.comments
  let writer ← get
  let text ← liftExcept (functionText writer.stems f)
  line (text ++ separator)

/-- Functions are separated by a comma and a blank line. -/
def functions : List ServiceFunction → WriterM Unit
  | [] => pure ()
  | [f] => function "" f
  | f :: rest => do
    function "," f
    line ""
    functions rest

def service (s : Service) : WriterM Unit := do
  comments s.comments
  let annotations ← annotations s.name s.annotations
  let parent := match s.parent with
    | some parent => " extends " ++ parent
    | none => ""
  line ("service " ++ s.name ++ parent ++ annotations ++ " \x7b")
  enter
  functions s.functions
  leave
  line "\x7d"

/-! ## Files -/

/-- Definitions of one group, with a blank line between two of them. -/
def separated {α : Type} (write : α → WriterM Unit) : List α → WriterM Unit
  | [] => pure ()
  | [a] => write a
  | a :: rest => do
    write a
    line ""
    separated write rest

/-- A group that is not empty is followed by a blank line. -/
def group {α : Type} (write : α → WriterM Unit) (items : List α) : WriterM Unit := do
  if items.isEmpty then return
  separated write items
  line ""

/-- Lines of one group that stand close together. -/
def block {α : Type} (write : α → WriterM Unit) (items : List α) : WriterM Unit := do
  if items.isEmpty then return
  items.forM write
  line ""

def file (f : File) : WriterM String := do
  modify fun writer =>
    { writer with out := "", depth := 0, stems := f.imports.map fun i => Path.stem i.path }
  block namespaceLine f.namespaces
  block includeLine f.imports
  group constant f.definitions.constants
  group typedef f.definitions.typedefs
  group enumeration f.definitions.enums
  group message f.definitions.messages
  group service f.definitions.services
  return (← get).out

/-- Write one file; the writer that comes back holds whatever the write left in it. -/
def write (writer : Writer) (f : File) : Except RenderError String × Writer :=
  (file f).run.run writer

/-- Write files one after the other with one writer. -/
def writeAll (writer : Writer) : List File → List (Except RenderError String)
  | [] => []
  | f :: rest =>
    let (result, writer) := writer.write f
    result :: writer.writeAll rest

end Writer

/-- The text of every file by its path, or the first error. -/
def generate (schema : Schema) (withComments : Bool) : Except RenderError (Table String) := do
  let texts ← (({ withComments } : Writer).writeAll schema.files).mapM id
  return Table.ofList ((schema.files.map File.path).zip texts)

end RestThrift
