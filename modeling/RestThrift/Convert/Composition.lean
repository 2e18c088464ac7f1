import RestThrift.Convert.Error
import RestThrift.Convert.Options

/-!
# References and composed schemas

A reference names a schema of the document's table. A composed schema is expanded depth first into
leaves: a reference by its target, any other schema by its parts and then itself. Leaves are merged
in order: later properties replace earlier ones, required names are united, and the first
description that is not empty is kept.
-/
namespace RestThrift.Convert

def dropStart? : List Char → List Char → Option (List Char)
  | [], text => some text
  | p :: start, c :: text => if p = c then dropStart? start text else none
  | _ :: _, [] => none

/-- Replace a tilde and the digit behind it. -/
def replaceTilde (digit replacement : Char) : List Char → List Char
  | '~' :: c :: rest =>
    if c = digit then replacement :: replaceTilde digit replacement rest
    else '~' :: replaceTilde digit replacement (c :: rest)
  | c :: rest => c :: replaceTilde digit replacement rest
  | [] => []

def referenceStarts : List (List Char) :=
  ["#/components/schemas/".toList, "#/definitions/".toList]

/-- The key of the schema that a reference names: without the section, and with `~1` and `~0`
decoded. -/
def definitionKey (reference : String) : String :=
  let text := reference.toList
  let name := (referenceStarts.findSome? fun start => dropStart? start text).getD text
  String.ofList (replaceTilde '0' '~' (replaceTilde '1' '/' name))

/-- Named schemas and what to do where one is missing. -/
structure Glossary where
  schemas : Table Api.Schema
  policy : ReferencePolicy

namespace Glossary

def resolve? (g : Glossary) (reference : String) : Option Api.Schema :=
  g.schemas.get? (definitionKey reference)

/-- A missing target is a failure or nothing, by the policy. -/
def target (g : Glossary) (reference : String) : Except ConversionError (Option Api.Schema) :=
  match g.resolve? reference, g.policy with
  | some schema, _ => .ok (some schema)
  | none, .strict => .error (.danglingReference reference)
  | none, .lenient => .ok none

mutual
/-- The leaves of a schema, where `follow` expands a reference. -/
def leavesWith (follow : String → Except ConversionError (List Api.Schema)) (s : Api.Schema) :
    Except ConversionError (List Api.Schema) :=
  match s with
  | { reference := some reference, .. } => follow reference
  | { reference := none, parts, .. } => do
    let inner ← leavesOfParts follow parts
    return inner ++ [s]

def leavesOfParts (follow : String → Except ConversionError (List Api.Schema)) :
    List Api.Schema → Except ConversionError (List Api.Schema)
  | [] => .ok []
  | part :: rest => do
    let first ← leavesWith follow part
    let others ← leavesOfParts follow rest
    return first ++ others
end

/-- The leaves of a schema inside the expansion of the keys in `path`; a key that is already there
has none. Each nested key is a new one of the table, which bounds the nesting. -/
def leaves (g : Glossary) :
    Nat → List String → Api.Schema → Except ConversionError (List Api.Schema)
  | 0, _ => leavesWith fun _ => .ok []
  | nesting + 1, path => leavesWith fun reference => do
    let key := definitionKey reference
    if path.contains key then return []
    else
      match ← g.target reference with
      | some schema => g.leaves nesting (key :: path) schema
      | none => return []

/-- Add the own content of a leaf. -/
def mergeLeaf (merged leaf : Api.Schema) : Api.Schema :=
  { merged with
    properties := leaf.properties.foldl (fun table entry => Table.insert entry.1 entry.2 table)
      merged.properties
    required := leaf.required.foldl
      (fun names name => if names.contains name then names else names ++ [name]) merged.required
    description := if (merged.description.getD "").isEmpty then
        match leaf.description.filter fun d => !d.isEmpty with
        | some description => some description
        | none => merged.description
      else merged.description }

/-- Merge a list of schemas into one object schema. -/
def flatten (g : Glossary) (schemas : List Api.Schema) : Except ConversionError Api.Schema := do
  let parts ← schemas.mapM (g.leaves (g.schemas.length + 1) [])
  return (parts.flatten).foldl mergeLeaf {}

/-- A schema merged with all that it is composed of. -/
def effectiveObject (g : Glossary) (s : Api.Schema) : Except ConversionError Api.Schema := do
  let merged ← g.flatten [s]
  return { merged with additional := s.additional }

end Glossary

end RestThrift.Convert
