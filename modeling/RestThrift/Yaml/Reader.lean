import RestThrift.Yaml.Composition
import RestThrift.Yaml.Lexer
import RestThrift.Yaml.Plain

/-!
# Reading a YAML document

Nodes become values: aliases are followed, tags decide or stay, plain scalars are resolved. Nesting
and the number of followed aliases are limited, so that a document cannot stand for a value out of
proportion to its size.
-/
namespace RestThrift.Yaml

/-- The greatest number of collections inside each other. -/
def maxNesting : Nat := 128

/-- Aliases that may still be followed. -/
abbrev LoadM := StateT Nat Option

/-- The node that an alias stands for; other nodes stand for themselves. -/
def follow (anchors : List (Nat × Node)) : Node → LoadM Node
  | .reference n => do
    match ← get with
    | 0 => failure
    | jumps + 1 =>
      set jumps
      match anchors.lookup n with
      | some node => return node
      | none => failure
  | node => return node

def Node.tag? : Node → Option Tag
  | .reference _ => none
  | .scalar _ tag _ _ => tag
  | .sequence _ tag _ => tag
  | .mapping _ tag _ => tag

def untaggedScalar? (text : List Char) (plain : Bool) : Option Value :=
  if plain then Plain.value? text else some (.text (String.ofList text))

/-- A scalar with one of the core tags has to have its kind. A local tag leaves the kind open; any
other tag makes the scalar text. -/
def taggedScalar? (tag : Tag) (text : List Char) (plain : Bool) : Option Value :=
  if tag.isCore "bool" then (Plain.bool? text).map .bool
  else if tag.isCore "int" then (Plain.sized? text).bind Plain.ofInteger?
  else if tag.isCore "float" then (Plain.float? text).map fun x => .number (.float x)
  else if tag.isCore "null" then if Plain.isNull text then some .null else none
  else if tag.isLocal then untaggedScalar? text plain
  else some (.text (String.ofList text))

def scalar? (tag : Option Tag) (text : List Char) (plain : Bool) : Option Value :=
  match tag with
  | some tag => taggedScalar? tag text plain
  | none => untaggedScalar? text plain

/-- Add an entry behind the others; no two keys of a mapping are equal. -/
def insertPair? (entries : List (Value × Value)) (key value : Value) :
    Option (List (Value × Value)) :=
  if entries.any (fun entry => entry.1.same key) then none else some (entries ++ [(key, value)])

/-- The value of a node, where `content` gives the value of what it holds. A local tag that is text
stays around it. -/
def loadWith (anchors : List (Nat × Node)) (content : Node → LoadM Value) (node : Node) :
    LoadM Value := do
  let node ← follow anchors node
  let value ← content node
  match node.tag?.bind Tag.label? with
  | some label => return .tagged label value
  | none => return value

/-- The value of what a node holds. -/
def loadContent (anchors : List (Nat × Node)) : Nat → Node → LoadM Value
  | _, .reference _ => failure
  | _, .scalar _ tag text plain => liftM (scalar? tag text plain)
  | 0, _ => failure
  | depth + 1, .sequence _ _ items => do
    return .sequence (← items.mapM (loadWith anchors (loadContent anchors depth)))
  | depth + 1, .mapping _ _ entries => do
    let loaded ← entries.foldlM (fun loaded entry => do
      let key ← loadWith anchors (loadContent anchors depth) entry.1
      let value ← loadWith anchors (loadContent anchors depth) entry.2
      liftM (insertPair? loaded key value)) []
    return .mapping loaded

def load (anchors : List (Nat × Node)) (depth : Nat) (node : Node) : LoadM Value :=
  loadWith anchors (loadContent anchors depth) node

def Value.ofNode? (root : Node) : Option Value :=
  ((load root.anchored.reverse maxNesting root).run (root.weight * 100)).map (·.1)

/-- The value of the only document in a text. -/
def parse? (bytes : List UInt8) : Option Value := do
  let text ← Text.Utf8.strict? bytes
  let tokens ← tokens? text
  let root ← Node.ofTokens? tokens
  Value.ofNode? root

end RestThrift.Yaml
