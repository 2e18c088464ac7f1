import RestThrift.Json.Printer
import RestThrift.Json.Reader
import RestThrift.Table
import RestThrift.Thrift.Codec
import RestThrift.Thrift.Order

/-!
# Looking up definitions

A catalog is a live schema with an index from fully-qualified names to slots, the places of the
definitions in the files. The index is built by the first look-up and kept until the files change. A
look-up answers the definition of exactly that name, else every definition whose name ends in `#`
and the query, in name order.
-/
namespace RestThrift

/-- The place of a definition: the number of its file and its number among those of its kind there.
A function is counted within its service. -/
inductive Slot
  | service (file position : Nat)
  | function (file owner position : Nat)
  | message (file position : Nat)
  | enumeration (file position : Nat)
  | constant (file position : Nat)
  | typedef (file position : Nat)
  deriving DecidableEq, Repr, Inhabited

namespace Slot

def file : Slot → Nat
  | .service file _ => file
  | .function file _ _ => file
  | .message file _ => file
  | .enumeration file _ => file
  | .constant file _ => file
  | .typedef file _ => file

/-- The definition at a place of a file. -/
def within? (d : Definitions) : Slot → Option Definition
  | .service _ position => d.services[position]?.map .service
  | .function _ owner position =>
    d.services[owner]?.bind fun s => s.functions[position]?.map .function
  | .message _ position => d.messages[position]?.map .message
  | .enumeration _ position => d.enums[position]?.map .enumeration
  | .constant _ position => d.constants[position]?.map .constant
  | .typedef _ position => d.typedefs[position]?.map .typedef

def resolve? (files : List File) (slot : Slot) : Option Definition :=
  files[slot.file]?.bind fun f => slot.within? f.definitions

end Slot

/-- The names in a file with their slots: services, each followed by its functions, then messages,
enumerations, constants, typedefs. -/
def Definitions.slots (file : Nat) (d : Definitions) : List (String × Slot) :=
  (d.services.zipIdx.flatMap fun (s, i) =>
    (s.fqn, .service file i) :: s.functions.zipIdx.map fun (f, j) => (f.fqn, .function file i j)) ++
    d.messages.zipIdx.map (fun (m, i) => (m.fqn, .message file i)) ++
    d.enums.zipIdx.map (fun (e, i) => (e.fqn, .enumeration file i)) ++
    d.constants.zipIdx.map (fun (c, i) => (c.fqn, .constant file i)) ++
    d.typedefs.zipIdx.map (fun (t, i) => (t.fqn, .typedef file i))

abbrev Index := Table Slot

namespace Index

/-- The first slot of a name is kept; definitions without a name are left out. -/
def add (index : Index) (entry : String × Slot) : Index :=
  if entry.1.isEmpty || index.contains entry.1 then index else index.insert entry.1 entry.2

def ofFiles (files : List File) : Index :=
  (files.zipIdx.flatMap fun (f, n) => f.definitions.slots n).foldl add []

def find (index : Index) (files : List File) (query : String) : List Definition :=
  match index.get? query with
  | some slot => (slot.resolve? files).toList
  | none =>
    let tail := '#' :: query.toList
    (index.filter fun entry => tail.isSuffixOf entry.1.toList).filterMap fun entry =>
      entry.2.resolve? files

end Index

structure Catalog where
  schema : Schema
  index : Option Index := none

namespace Catalog

def ofSchema (schema : Schema) : Catalog := { schema }

/-- The index, and the catalog that keeps it. -/
def indexed (catalog : Catalog) : Index × Catalog :=
  match catalog.index with
  | some index => (index, catalog)
  | none =>
    let index := Index.ofFiles catalog.schema.files
    (index, { catalog with index := some index })

def find (catalog : Catalog) (query : String) : List Definition × Catalog :=
  let (index, catalog) := catalog.indexed
  (index.find catalog.schema.files query, catalog)

/-- Any change of the files drops the index. -/
def modifyFiles (catalog : Catalog) (change : List File → List File) : Catalog :=
  { schema := { catalog.schema with files := change catalog.schema.files }, index := none }

def sort (catalog : Catalog) : Catalog := catalog.modifyFiles (·.map File.sorted)

/-- A copy has the same schema and the same index. -/
def clone (catalog : Catalog) : Catalog := { catalog with }

/-- The catalog of the schema that is read from the text that is written for this one; no index is
written. -/
def readBack? (catalog : Catalog) : Option Catalog :=
  ((Json.parse? catalog.schema.toJson.render).bind Schema.ofJson?).map ofSchema

variable {α : Type}

def findWith (pick : Definition → Option α) (catalog : Catalog) (query : String) :
    List α × Catalog :=
  let (found, catalog) := catalog.find query
  (found.filterMap pick, catalog)

def findServices (catalog : Catalog) (query : String) : List Service × Catalog :=
  catalog.findWith Definition.service? query

def findFunctions (catalog : Catalog) (query : String) : List ServiceFunction × Catalog :=
  catalog.findWith Definition.function? query

def findMessages (catalog : Catalog) (query : String) : List Message × Catalog :=
  catalog.findWith Definition.message? query

def findMessagesOf (kind : MessageKind) (catalog : Catalog) (query : String) :
    List Message × Catalog :=
  let (found, catalog) := catalog.findMessages query
  (found.filter fun m => m.kind == kind, catalog)

def findEnums (catalog : Catalog) (query : String) : List Enumeration × Catalog :=
  catalog.findWith Definition.enumeration? query

def findConstants (catalog : Catalog) (query : String) : List Constant × Catalog :=
  catalog.findWith Definition.constant? query

def findTypedefs (catalog : Catalog) (query : String) : List Typedef × Catalog :=
  catalog.findWith Definition.typedef? query

end Catalog

end RestThrift
