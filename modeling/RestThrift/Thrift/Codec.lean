import RestThrift.Json.Record
import RestThrift.Thrift.Schema

/-!
# Schemas as JSON

Each part of a schema has a JSON form. Absent values and empty annotation and comment lists are
left out when written; all other lists are always written. Reading takes back what was written.
-/
namespace RestThrift

open Json

/-! ## Types and literals -/

def Primitive.toJson (p : Primitive) : Json := .str p.name

/-- An empty object may stand where a choice has null. -/
def Primitive.ofJson? : Json → Option Primitive
  | .obj [(name, .obj [])] => ofName? name
  | value => choice? Primitive.name Primitive.all value

def TypeRef.toJson : TypeRef → Json
  | .primitive p => .obj [("kind", .str "primitive"), ("name", p.toJson)]
  | .named name fqn =>
    .obj ([("kind", .str "named"), ("name", .str name)] ++ optionMember "fqn" (fqn.map .str))
  | .list element => .obj [("kind", .str "list"), ("valueType", toJson element)]
  | .set element => .obj [("kind", .str "set"), ("valueType", toJson element)]
  | .map key value =>
    .obj [("kind", .str "map"), ("keyType", toJson key), ("valueType", toJson value)]

def TypeRef.kinds : List String := ["primitive", "named", "list", "set", "map"]

/-- The name of a kind. A type inside another one may give the place of its kind instead. -/
def TypeRef.kindName? (inside : Bool) : Json → Option String
  | .str kind => some kind
  | .int n => if inside && 0 ≤ n then kinds[n.toNat]? else none
  | _ => none

/-- The kind of a type and what remains of its form. -/
def TypeRef.kindOf? (inside : Bool) : Json → Option (String × Json)
  | .obj members => do
    let kind ← Members.required members "kind" (kindName? inside)
    return (kind, .obj members)
  | .arr (first :: rest) => do
    let kind ← kindName? inside first
    return (kind, .arr rest)
  | _ => none

/-- Reads types nested at most `depth` deep. -/
def TypeRef.ofJsonWithin (inside : Bool) : Nat → Json → Option TypeRef
  | 0, _ => none
  | depth + 1, value => do
    let (kind, form) ← kindOf? inside value
    if kind == "primitive" then
      let members ← form.record? ["name"]
      return .primitive (← members.required "name" Primitive.ofJson?)
    else if kind == "named" then
      let members ← form.record? ["name", "fqn"]
      return .named (← members.required "name" text?) (← members.optional "fqn" text?)
    else if kind == "list" then
      let members ← form.record? ["valueType"]
      return .list (← members.required "valueType" (ofJsonWithin true depth))
    else if kind == "set" then
      let members ← form.record? ["valueType"]
      return .set (← members.required "valueType" (ofJsonWithin true depth))
    else if kind == "map" then
      let members ← form.record? ["keyType", "valueType"]
      return .map (← members.required "keyType" (ofJsonWithin true depth))
        (← members.required "valueType" (ofJsonWithin true depth))
    else none

def TypeRef.ofJson? (value : Json) : Option TypeRef := ofJsonWithin false value.depth value

mutual
def Literal.toJson : Literal → Json
  | .bool b => .bool b
  | .int n => .int n
  | .float x => if (Decimal.Binary.ofFloat x).isFinite then .float x else .null
  | .text written => .str written
  | .list items => .arr (Literal.toJsonItems items)
  | .map entries => .obj [("entries", .arr (Literal.toJsonEntries entries))]

def Literal.toJsonItems : List Literal → List Json
  | [] => []
  | item :: rest => Literal.toJson item :: Literal.toJsonItems rest

def Literal.toJsonEntries : List (Literal × Literal) → List Json
  | [] => []
  | (key, value) :: rest =>
    .obj [("key", Literal.toJson key), ("value", Literal.toJson value)] ::
      Literal.toJsonEntries rest
end

/-- Integers of 64 bits with a sign are integers; a larger one is its nearest double. -/
def Literal.ofInt (n : Int) : Literal :=
  if (signed? 64 (.int n)).isSome then .int n
  else .float (Decimal.ofDecimal (decide (n < 0)) n.natAbs 0)

/-- Reads literals nested at most `depth` deep. -/
def Literal.ofJsonWithin : Nat → Json → Option Literal
  | 0, _ => none
  | depth + 1, value =>
    match value with
    | .null => none
    | .bool b => some (.bool b)
    | .int n => some (.ofInt n)
    | .float x => some (.float x)
    | .str written => some (.text written)
    | .arr items => (items.mapM (ofJsonWithin depth)).map .list
    | .obj members => do
      let entries ← Members.required members "entries" (items? fun entry => do
        let parts ← entry.record? ["key", "value"]
        return (← parts.required "key" (ofJsonWithin depth),
          ← parts.required "value" (ofJsonWithin depth)))
      return .map entries

def Literal.ofJson? (value : Json) : Option Literal := ofJsonWithin value.depth value

/-! ## Positions, comments and annotations -/

def Position.toJson (p : Position) : Json :=
  .obj [("line", .int p.line), ("column", .int p.column), ("offset", .int p.offset)]

def Position.ofJson? (value : Json) : Option Position := do
  let members ← value.record? ["line", "column", "offset"]
  return { line := ← members.required "line" natural?
           column := ← members.required "column" natural?
           offset := ← members.required "offset" natural? }

def Location.toJson (l : Location) : Json :=
  .obj [("start", l.start.toJson), ("end", l.stop.toJson)]

def Location.ofJson? (value : Json) : Option Location := do
  let members ← value.record? ["start", "end"]
  return { start := ← members.required "start" Position.ofJson?
           stop := ← members.required "end" Position.ofJson? }

def locationMember (location : Option Location) : Members :=
  optionMember "location" (location.map Location.toJson)

def contentMember (content : Option String) : Members :=
  optionMember "content" (content.map .str)

def Comment.toJson (c : Comment) : Json :=
  .obj (("text", .str c.text) :: locationMember c.location)

def Comment.ofJson? (value : Json) : Option Comment := do
  let members ← value.record? ["text", "location"]
  return { text := ← members.required "text" text?
           location := ← members.optional "location" Location.ofJson? }

def commentsMember (comments : List Comment) : Members :=
  listMember "comments" (comments.map Comment.toJson)

def Annotation.toJson (a : Annotation) : Json :=
  .obj (("name", .str a.name) :: optionMember "value" (a.value.map Literal.toJson))

def Annotation.ofJson? (value : Json) : Option Annotation := do
  let members ← value.record? ["name", "value"]
  return { name := ← members.required "name" text?
           value := ← members.optional "value" Literal.ofJson? }

def annotationsMember (annotations : List Annotation) : Members :=
  listMember "annotations" (annotations.map Annotation.toJson)

def readComments (members : Members) : Option (List Comment) :=
  members.withDefault "comments" [] (items? Comment.ofJson?)

def readAnnotations (members : Members) : Option (List Annotation) :=
  members.withDefault "annotations" [] (items? Annotation.ofJson?)

def readLocation (members : Members) : Option (Option Location) :=
  members.optional "location" Location.ofJson?

def readContent (members : Members) : Option (Option String) := members.optional "content" text?

/-! ## Fields and definitions -/

def Requiredness.name : Requiredness → String
  | .required => "required"
  | .optional => "optional"
  | .unmarked => "default"

def Requiredness.ofJson? : Json → Option Requiredness :=
  choice? Requiredness.name [.required, .optional, .unmarked]

def MessageKind.ofJson? : Json → Option MessageKind :=
  choice? MessageKind.keyword [.struct, .union, .exception]

def Field.toJson (f : Field) : Json :=
  .obj ([("id", .int f.id), ("name", .str f.name), ("type", f.type.toJson),
    ("requiredness", .str f.requiredness.name)] ++
    optionMember "default" (f.default.map Literal.toJson) ++ annotationsMember f.annotations ++
    commentsMember f.comments ++ locationMember f.location)

def Field.ofJson? (value : Json) : Option Field := do
  let members ← value.record?
    ["id", "name", "type", "requiredness", "default", "annotations", "comments", "location"]
  return { id := ← members.required "id" (signed? 32)
           name := ← members.required "name" text?
           type := ← members.required "type" TypeRef.ofJson?
           requiredness := ← members.withDefault "requiredness" .unmarked Requiredness.ofJson?
           default := ← members.optional "default" Literal.ofJson?
           annotations := ← readAnnotations members
           comments := ← readComments members
           location := ← readLocation members }

def Message.toJson (m : Message) : Json :=
  .obj ([("name", .str m.name), ("fqn", .str m.fqn), ("kind", .str m.kind.keyword),
    ("fields", .arr (m.fields.map Field.toJson))] ++ annotationsMember m.annotations ++
    commentsMember m.comments ++ locationMember m.location ++ contentMember m.content)

def Message.ofJson? (value : Json) : Option Message := do
  let members ← value.record?
    ["name", "fqn", "kind", "fields", "annotations", "comments", "location", "content"]
  return { name := ← members.required "name" text?
           fqn := ← members.required "fqn" text?
           kind := ← members.withDefault "kind" .struct MessageKind.ofJson?
           fields := ← members.withDefault "fields" [] (items? Field.ofJson?)
           annotations := ← readAnnotations members
           comments := ← readComments members
           location := ← readLocation members
           content := ← readContent members }

def EnumMember.toJson (m : EnumMember) : Json :=
  .obj ([("name", .str m.name), ("value", .int m.value)] ++ annotationsMember m.annotations ++
    commentsMember m.comments)

def EnumMember.ofJson? (value : Json) : Option EnumMember := do
  let members ← value.record? ["name", "value", "annotations", "comments"]
  return { name := ← members.required "name" text?
           value := ← members.required "value" (signed? 64)
           annotations := ← readAnnotations members
           comments := ← readComments members }

def Enumeration.toJson (e : Enumeration) : Json :=
  .obj ([("name", .str e.name), ("fqn", .str e.fqn),
    ("values", .arr (e.members.map EnumMember.toJson))] ++ annotationsMember e.annotations ++
    commentsMember e.comments ++ locationMember e.location ++ contentMember e.content)

def Enumeration.ofJson? (value : Json) : Option Enumeration := do
  let members ← value.record?
    ["name", "fqn", "values", "annotations", "comments", "location", "content"]
  return { name := ← members.required "name" text?
           fqn := ← members.required "fqn" text?
           members := ← members.withDefault "values" [] (items? EnumMember.ofJson?)
           annotations := ← readAnnotations members
           comments := ← readComments members
           location := ← readLocation members
           content := ← readContent members }

def Constant.toJson (c : Constant) : Json :=
  .obj ([("name", .str c.name), ("fqn", .str c.fqn), ("type", c.type.toJson),
    ("value", c.value.toJson)] ++ commentsMember c.comments ++ locationMember c.location ++
    contentMember c.content)

def Constant.ofJson? (value : Json) : Option Constant := do
  let members ← value.record?
    ["name", "fqn", "type", "value", "comments", "location", "content"]
  return { name := ← members.required "name" text?
           fqn := ← members.required "fqn" text?
           type := ← members.required "type" TypeRef.ofJson?
           value := ← members.required "value" Literal.ofJson?
           comments := ← readComments members
           location := ← readLocation members
           content := ← readContent members }

def Typedef.toJson (t : Typedef) : Json :=
  .obj ([("alias", .str t.name), ("fqn", .str t.fqn), ("type", t.target.toJson)] ++
    annotationsMember t.annotations ++ commentsMember t.comments ++ locationMember t.location ++
    contentMember t.content)

def Typedef.ofJson? (value : Json) : Option Typedef := do
  let members ← value.record?
    ["alias", "fqn", "type", "annotations", "comments", "location", "content"]
  return { name := ← members.required "alias" text?
           fqn := ← members.required "fqn" text?
           target := ← members.required "type" TypeRef.ofJson?
           annotations := ← readAnnotations members
           comments := ← readComments members
           location := ← readLocation members
           content := ← readContent members }

def ServiceFunction.toJson (f : ServiceFunction) : Json :=
  .obj ([("name", .str f.name), ("fqn", .str f.fqn), ("returnType", f.returnType.toJson),
    ("oneway", .bool f.oneway), ("parameters", .arr (f.parameters.map Field.toJson)),
    ("throws", .arr (f.throws.map Field.toJson))] ++ annotationsMember f.annotations ++
    commentsMember f.comments ++ locationMember f.location)

def ServiceFunction.ofJson? (value : Json) : Option ServiceFunction := do
  let members ← value.record? ["name", "fqn", "returnType", "oneway", "parameters", "throws",
    "annotations", "comments", "location"]
  return { name := ← members.required "name" text?
           fqn := ← members.required "fqn" text?
           returnType := ← members.required "returnType" TypeRef.ofJson?
           oneway := ← members.withDefault "oneway" false bool?
           parameters := ← members.withDefault "parameters" [] (items? Field.ofJson?)
           throws := ← members.withDefault "throws" [] (items? Field.ofJson?)
           annotations := ← readAnnotations members
           comments := ← readComments members
           location := ← readLocation members }

def Service.toJson (s : Service) : Json :=
  .obj ([("name", .str s.name), ("fqn", .str s.fqn)] ++
    optionMember "extends" (s.parent.map .str) ++
    [("functions", .arr (s.functions.map ServiceFunction.toJson))] ++
    annotationsMember s.annotations ++ commentsMember s.comments ++ locationMember s.location ++
    contentMember s.content)

def Service.ofJson? (value : Json) : Option Service := do
  let members ← value.record? ["name", "fqn", "extends", "functions", "annotations", "comments",
    "location", "content"]
  return { name := ← members.required "name" text?
           fqn := ← members.required "fqn" text?
           parent := ← members.optional "extends" text?
           functions := ← members.withDefault "functions" [] (items? ServiceFunction.ofJson?)
           annotations := ← readAnnotations members
           comments := ← readComments members
           location := ← readLocation members
           content := ← readContent members }

/-! ## Files and schemas -/

def Definitions.toJson (d : Definitions) : Json :=
  .obj [("services", .arr (d.services.map Service.toJson)),
    ("messages", .arr (d.messages.map Message.toJson)),
    ("enums", .arr (d.enums.map Enumeration.toJson)),
    ("constants", .arr (d.constants.map Constant.toJson)),
    ("typedefs", .arr (d.typedefs.map Typedef.toJson))]

def Definitions.ofJson? (value : Json) : Option Definitions := do
  let members ← value.record? ["services", "messages", "enums", "constants", "typedefs"]
  return { services := ← members.withDefault "services" [] (items? Service.ofJson?)
           messages := ← members.withDefault "messages" [] (items? Message.ofJson?)
           enums := ← members.withDefault "enums" [] (items? Enumeration.ofJson?)
           constants := ← members.withDefault "constants" [] (items? Constant.ofJson?)
           typedefs := ← members.withDefault "typedefs" [] (items? Typedef.ofJson?) }

def Import.toJson (i : Import) : Json :=
  .obj ([("path", .str i.path), ("value", .str i.written)] ++ commentsMember i.comments ++
    locationMember i.location)

def Import.ofJson? (value : Json) : Option Import := do
  let members ← value.record? ["path", "value", "comments", "location"]
  return { path := ← members.required "path" text?
           written := ← members.required "value" text?
           comments := ← readComments members
           location := ← readLocation members }

def Namespace.toJson (n : Namespace) : Json :=
  .obj ([("scope", .str n.scope), ("name", .str n.name)] ++ annotationsMember n.annotations ++
    commentsMember n.comments ++ locationMember n.location)

def Namespace.ofJson? (value : Json) : Option Namespace := do
  let members ← value.record? ["scope", "name", "annotations", "comments", "location"]
  return { scope := ← members.required "scope" text?
           name := ← members.required "name" text?
           annotations := ← readAnnotations members
           comments := ← readComments members
           location := ← readLocation members }

def File.toJson (f : File) : Json :=
  .obj ([("path", .str f.path)] ++ locationMember f.location ++
    [("syntax", .str f.edition), ("imports", .arr (f.imports.map Import.toJson)),
      ("namespaces", .arr (f.namespaces.map Namespace.toJson)),
      ("options", .arr (f.options.map Annotation.toJson)),
      ("definitions", f.definitions.toJson)])

def File.ofJson? (value : Json) : Option File := do
  let members ← value.record?
    ["path", "location", "syntax", "imports", "namespaces", "options", "definitions"]
  return { path := ← members.required "path" text?
           location := ← readLocation members
           edition := ← members.withDefault "syntax" "" text?
           imports := ← members.withDefault "imports" [] (items? Import.ofJson?)
           namespaces := ← members.withDefault "namespaces" [] (items? Namespace.ofJson?)
           options := ← members.withDefault "options" [] (items? Annotation.ofJson?)
           definitions := ← members.withDefault "definitions" {} Definitions.ofJson? }

def Schema.toJson (s : Schema) : Json :=
  .obj [("schemaVersion", .str s.version), ("idlType", .str s.dialect),
    ("files", .arr (s.files.map File.toJson))]

def Schema.ofJson? (value : Json) : Option Schema := do
  let members ← value.record? ["schemaVersion", "idlType", "files"]
  return { version := ← members.required "schemaVersion" text?
           dialect := ← members.required "idlType" text?
           files := ← members.required "files" (items? File.ofJson?) }

end RestThrift
