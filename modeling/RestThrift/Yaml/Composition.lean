import RestThrift.Yaml.Node
import RestThrift.Yaml.Token

/-!
# From tokens to nodes

A node reads its properties and its content from the front of the tokens. Content that is left out
where an entry, a key or a value ends is a blank scalar. Every two nested steps pass at least one
token, which bounds the recursion.
-/
namespace RestThrift.Yaml

/-- `names` holds the anchor names seen so far with their latest numbers. -/
structure Composer where
  tokens : List Token
  names : List (List Char × Nat) := []
  handles : List (Tag × Tag) := []

abbrev ComposeM := StateT Composer Option

namespace Composer

def setName (name : List Char) (number : Nat) : List (List Char × Nat) → List (List Char × Nat)
  | [] => [(name, number)]
  | (other, old) :: rest =>
    if other = name then (name, number) :: rest else (other, old) :: setName name number rest

def next? : ComposeM Token := do
  match (← get).tokens with
  | token :: _ => return token
  | [] => failure

def advance : ComposeM Unit := modify fun c => { c with tokens := c.tokens.drop 1 }

/-- Pass a token that has to come next. -/
def expect (token : Token) : ComposeM Unit := do
  if (← next?) = token then advance else failure

/-- The number of a new anchor is the number of names known before it. -/
def declare (name : List Char) : ComposeM Nat := do
  let names := (← get).names
  modify fun c => { c with names := setName name names.length names }
  return names.length

def resolve (name : List Char) : ComposeM Nat := do
  match (← get).names.lookup name with
  | some number => return number
  | none => failure

/-- The full tag behind a handle and a suffix. -/
def expandTag (handle suffix : Tag) : ComposeM Tag := do
  if handle.isEmpty then return suffix
  else
    match (← get).handles.lookup handle with
    | some start => return start ++ suffix
    | none => failure

/-- Properties of a node. -/
structure Marks where
  anchor : Option (List Char) := none
  tag : Option Tag := none

/-- An anchor and a tag, in either order, each at most once. -/
def readMarks : ComposeM Marks := do
  match ← next? with
  | .anchor name =>
    advance
    match ← next? with
    | .tag handle suffix =>
      advance
      return { anchor := some name, tag := some (← expandTag handle suffix) }
    | _ => return { anchor := some name }
  | .tag handle suffix =>
    advance
    match ← next? with
    | .anchor name =>
      advance
      return { anchor := some name, tag := some (← expandTag handle suffix) }
    | _ => return { tag := some (← expandTag handle suffix) }
  | _ => return {}

/-- Where a node may stand: in block context, and there possibly before a sequence that is not
indented. -/
inductive Place
  | flow
  | block
  | entry
  deriving DecidableEq

/-- A node, or a blank scalar if one of `stops` comes next. -/
def nodeUnless (stops : List Token) (node : ComposeM Node) : ComposeM Node := do
  if stops.contains (← next?) then return .blank else node

mutual
def node : Nat → Place → ComposeM Node
  | 0, _ => failure
  | steps + 1, place => do
    match ← next? with
    | .reference name =>
      advance
      return .reference (← resolve name)
    | _ =>
      let marks ← readMarks
      let anchor ← marks.anchor.mapM declare
      match ← next? with
      | .blockEntry =>
        if place = .entry then return .sequence anchor marks.tag (← looseItems steps)
        else if marks.anchor.isSome ∨ marks.tag.isSome then return .scalar anchor marks.tag [] true
        else failure
      | .scalar text plain =>
        advance
        return .scalar anchor marks.tag text plain
      | .flowSequenceStart =>
        advance
        return .sequence anchor marks.tag (← flowItems steps true)
      | .flowMappingStart =>
        advance
        return .mapping anchor marks.tag (← flowEntries steps true)
      | token =>
        if token = .blockSequenceStart ∧ place ≠ .flow then
          advance
          return .sequence anchor marks.tag (← blockItems steps)
        else if token = .blockMappingStart ∧ place ≠ .flow then
          advance
          return .mapping anchor marks.tag (← blockEntries steps)
        else if marks.anchor.isSome ∨ marks.tag.isSome then return .scalar anchor marks.tag [] true
        else failure

/-- Items of a block sequence, up to its end. -/
def blockItems : Nat → ComposeM (List Node)
  | 0 => failure
  | steps + 1 => do
    match ← next? with
    | .blockEntry =>
      advance
      let item ← nodeUnless [.blockEntry, .blockEnd] (node steps .block)
      return item :: (← blockItems steps)
    | .blockEnd =>
      advance
      return []
    | _ => failure

/-- Items of a sequence at the indentation of the mapping around it. -/
def looseItems : Nat → ComposeM (List Node)
  | 0 => failure
  | steps + 1 => do
    match ← next? with
    | .blockEntry =>
      advance
      let item ← nodeUnless [.blockEntry, .key, .value, .blockEnd] (node steps .block)
      return item :: (← looseItems steps)
    | _ => return []

/-- Entries of a block mapping, up to its end. -/
def blockEntries : Nat → ComposeM (List (Node × Node))
  | 0 => failure
  | steps + 1 => do
    let stops : List Token := [.key, .value, .blockEnd]
    match ← next? with
    | .key =>
      advance
      let key ← nodeUnless stops (node steps .entry)
      let value ← if (← next?) = .value then do
          advance
          nodeUnless stops (node steps .entry)
        else pure .blank
      return (key, value) :: (← blockEntries steps)
    | .blockEnd =>
      advance
      return []
    | _ => failure

/-- Items of a flow sequence, up to its end. A key makes a mapping of one entry; the token behind
a key without content is passed. -/
def flowItems : Nat → Bool → ComposeM (List Node)
  | 0, _ => failure
  | steps + 1, first => do
    if (← next?) = .flowSequenceEnd then
      advance
      return []
    else
      if !first then expect .flowEntry
      match ← next? with
      | .key =>
        advance
        let missing := [.value, .flowEntry, .flowSequenceEnd].contains (← next?)
        let key ← if missing then do
            advance
            pure .blank
          else node steps .flow
        let value ← if (← next?) = .value then do
            advance
            nodeUnless [.flowEntry, .flowSequenceEnd] (node steps .flow)
          else pure .blank
        return .mapping none none [(key, value)] :: (← flowItems steps false)
      | .flowSequenceEnd =>
        advance
        return []
      | _ =>
        let item ← node steps .flow
        return item :: (← flowItems steps false)

/-- Entries of a flow mapping, up to its end. -/
def flowEntries : Nat → Bool → ComposeM (List (Node × Node))
  | 0, _ => failure
  | steps + 1, first => do
    if (← next?) = .flowMappingEnd then
      advance
      return []
    else
      if !first then expect .flowEntry
      match ← next? with
      | .key =>
        advance
        let key ← nodeUnless [.value, .flowEntry, .flowMappingEnd] (node steps .flow)
        let value ← if (← next?) = .value then do
            advance
            nodeUnless [.flowEntry, .flowMappingEnd] (node steps .flow)
          else pure .blank
        return (key, value) :: (← flowEntries steps false)
      | .flowMappingEnd =>
        advance
        return []
      | _ =>
        let key ← node steps .flow
        return (key, .blank) :: (← flowEntries steps false)
end

/-- The directives before a document: at most one version, which has to be 1.1 or 1.2, and each
tag handle at most once. -/
def directives : Nat → Bool → ComposeM Unit
  | 0, _ => failure
  | steps + 1, versioned => do
    match ← next? with
    | .versionDirective major minor =>
      if versioned || major != 1 || !(minor == 1 || minor == 2) then failure
      else
        advance
        directives steps true
    | .tagDirective handle start =>
      let handles := (← get).handles
      if (handles.lookup handle).isSome then failure
      else
        advance
        modify fun c => { c with handles := handles ++ [(handle, start)] }
        directives steps versioned
    | _ => return

/-- The predefined tag handles, where they are not given another meaning. -/
def addDefaultHandles : ComposeM Unit :=
  modify fun c => { c with handles := c.handles ++
    [(Tag.bare, Tag.bare), (Tag.ofAscii ['!', '!'], Tag.coreStart)] }

def isDirective : Token → Bool
  | .versionDirective .. => true
  | .tagDirective .. => true
  | _ => false

/-- After the document only end marks may follow. -/
def finish : ComposeM Unit := do
  modify fun c => { c with tokens := c.tokens.dropWhile (· = .documentEnd) }
  expect .streamEnd

/-- The only document of a stream. A stream without a document has a blank one. -/
def document (steps : Nat) : ComposeM Node := do
  let first ← next?
  if first = .streamEnd then return .blank
  else if isDirective first ∨ first = .documentStart then
    directives steps false
    addDefaultHandles
    expect .documentStart
    let token ← next?
    let missing := isDirective token ||
      [.documentStart, .documentEnd, .streamEnd].contains token
    let root ← if missing then pure .blank else node steps .block
    finish
    return root
  else
    addDefaultHandles
    let root ← node steps .block
    finish
    return root

end Composer

def Node.ofTokens? (tokens : List Token) : Option Node :=
  ((Composer.document (3 * tokens.length + 3)).run { tokens }).map (·.1)

end RestThrift.Yaml
