import RestThrift.Convert.Composition
import RestThrift.Convert.Naming
import RestThrift.Thrift.TypeRef
import RestThrift.Thrift.Path

/-!
# The plan of a conversion

Output files are named for the input file and for the namespaces of the named schemas. The plan
holds these schemas with the names that their definitions have.
-/
namespace RestThrift.Convert

/-- The name of the output, from the name of the input file. -/
def outputStem (file : String) : String :=
  let stem := Naming.namespaceName (Path.stemChars file.toList)
  if stem.isEmpty then "idl" else String.ofList stem

/-- The last part of a namespace's path; the main namespace has the output's own name. -/
def spaceStem (stem space : String) : String := if space = Naming.mainNamespace then stem else space

def spaceFile (stem space : String) : String := stem ++ "/" ++ spaceStem stem space ++ ".thrift"

structure Plan where
  stem : String
  glossary : Glossary
  names : Table String

namespace Plan

def mainFile (p : Plan) : String := spaceFile p.stem Naming.mainNamespace

/-- The reference to a named schema's definition, written as seen from a file. -/
def typeFor (p : Plan) (key file : String) : TypeRef :=
  let (space, short) := Naming.splitDefinition key
  let name := (p.names.get? key).getD (Naming.identifier short)
  let target := spaceFile p.stem space
  let written := if target = file then name else spaceStem p.stem space ++ "." ++ name
  .named written (some (fqnOf target name))

/-- The name that is kept of a reference without a target. -/
def danglingType (key : String) : TypeRef :=
  .named (Naming.identifier (Naming.splitDefinition key).2) none

/-- Steps that suffice to find the type of a schema. Between two inlined aliases each step goes on
to another schema, and at most all aliases are inlined inside each other. -/
def steps (p : Plan) (schema : Api.Schema) : Nat :=
  let schemas := p.glossary.schemas
  (schemas.length + 1) * (Api.Schema.sizeProperties schemas + schema.size + 2)

end Plan

end RestThrift.Convert
