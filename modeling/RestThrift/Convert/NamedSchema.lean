import RestThrift.Convert.Synthesis

/-!
# Definitions of named schemas

All names are reserved before the first definition is built. A schema with listed values becomes an
enumeration, an alias a typedef, any other schema a struct with the properties of all that it is
composed of.
-/
namespace RestThrift.Convert

/-- Reserve names for the keys in order; keys and names are returned in that order. -/
def reserve (stem : String) : List String → Workspace → Table String × Workspace
  | [], w => ([], w)
  | key :: rest, w =>
    let (space, short) := Naming.splitDefinition key
    let (name, w) := w.claim (spaceFile stem space) (Naming.identifier short)
    let (names, w) := reserve stem rest w
    ((key, name) :: names, w)

/-- The plan for a document, and the workspace in which its names are reserved. -/
def Plan.of (file : String) (options : Options) (schemas : Table Api.Schema) : Plan × Workspace :=
  let stem := outputStem file
  let (names, w) := reserve stem schemas.keys {}
  ({ stem, names, glossary := { schemas, policy := options.policy } }, w)

/-- Build the definition of a named schema. -/
def define (plan : Plan) (key name : String) (schema : Api.Schema) : Build Unit := do
  let file := spaceFile plan.stem (Naming.splitDefinition key).1
  if !schema.choices.isEmpty then
    modify fun w =>
      (w.addEnum file (enumeration file name schema)).rememberEnum file name name
  else if schema.isAlias then
    let place : Place := { file, parent := name, field := "" }
    let target ← typeWithin plan (plan.steps schema) [key] place schema
    modify fun w => w.addTypedef file
      { name, fqn := fqnOf file name, target, comments := describe schema.description }
  else
    let object ← plan.glossary.effectiveObject schema
    let message ← structMessage (typeOf plan) file name object
    modify fun w => w.addMessage file message

def defineAll (plan : Plan) : Table Api.Schema → Build Unit
  | [] => return
  | (key, schema) :: rest => do
    match plan.names.get? key with
    | some name => define plan key name schema
    | none => pure ()
    defineAll plan rest

end RestThrift.Convert
