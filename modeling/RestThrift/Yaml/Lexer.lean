import RestThrift.Yaml.Property

/-!
# From characters to tokens

Structure by indentation becomes start and end tokens. A key that is only recognized by the `:`
behind it is inserted at the place where it began: a simple key is remembered, one per flow level,
as long as it may still turn out to be one.
-/
namespace RestThrift.Yaml

/-- A place where a key may have begun. A required one has to turn out to be a key. -/
structure SimpleKey where
  required : Bool
  position : Nat
  index : Nat
  line : Nat
  column : Nat

/-- `size` is the length of the whole text. `tokens` is reversed; `keys` has an entry for the block
context and for each flow level. -/
structure Lexer where
  size : Nat
  cursor : Cursor
  flow : Nat := 0
  indent : Int := -1
  indents : List Int := []
  keyAllowed : Bool := true
  keys : List (Option SimpleKey) := [none]
  tokens : List Token := []
  count : Nat := 0

namespace Lexer

def emit (l : Lexer) (token : Token) : Lexer :=
  { l with tokens := token :: l.tokens, count := l.count + 1 }

/-- Insert a token so that it gets the given number. -/
def insertAt (l : Lexer) (position : Nat) (token : Token) : Lexer :=
  let after := l.count - position
  { l with tokens := l.tokens.take after ++ token :: l.tokens.drop after, count := l.count + 1 }

def inFlow (l : Lexer) : Bool := 0 < l.flow

def currentKey (l : Lexer) : Option SimpleKey := l.keys.head?.join

def setKey (l : Lexer) (key : Option SimpleKey) : Lexer := { l with keys := key :: l.keys.drop 1 }

/-- Give up the current key. -/
def dropKey? (l : Lexer) : Option Lexer :=
  match l.currentKey with
  | some key => if key.required then none else some (l.setKey none)
  | none => some l

/-- A key may begin here. -/
def saveKey? (l : Lexer) : Option Lexer :=
  if l.keyAllowed then do
    let l ← l.dropKey?
    let c := l.cursor
    return l.setKey (some { required := !l.inFlow && l.indent == (c.column : Int)
                            position := l.count, index := c.index, line := c.line
                            column := c.column })
  else some l

/-- Keys end with their line and have at most 1024 bytes. -/
def staleKeys? (l : Lexer) : Option Lexer := do
  let c := l.cursor
  let keys ← l.keys.mapM fun
    | some key =>
      if key.line < c.line ∨ key.index + 1024 < c.index then
        if key.required then none else some none
      else some (some key)
    | none => some none
  return { l with keys }

/-- Open a block collection at a column that is deeper than the indentation. -/
def roll (l : Lexer) (column : Nat) (position : Option Nat) (token : Token) : Lexer :=
  if !l.inFlow && l.indent < (column : Int) then
    let l := { l with indents := l.indent :: l.indents, indent := column }
    match position with
    | some position => l.insertAt position token
    | none => l.emit token
  else l

/-- Close the open collections of the list that are deeper than the column. -/
def closeTo (column : Int) : List Int → Lexer → Lexer
  | [], l => l
  | outer :: rest, l =>
    if column < l.indent then
      closeTo column rest { l.emit .blockEnd with indent := outer, indents := rest }
    else l

def unroll (l : Lexer) (column : Int) : Lexer :=
  if l.inFlow then l else closeTo column l.indents l

/-- Pass blanks, comments and line breaks. A line may begin with a byte order mark. Tabs count as
blanks where no key may begin. -/
def skipToToken : Nat → Lexer → Lexer
  | 0, l => l
  | steps + 1, l =>
    let c := l.cursor
    let c := if c.column == 0 && c.sees 0 (·.toNat == 0xFEFF) then c.skip 1 else c
    let tabs := l.inFlow || !l.keyAllowed
    let c := c.skipWhile fun char => char = ' ' || (tabs && char = '\t')
    let c := if c.isAt '#' then c.skipWhile (fun char => !isBreak char) else c
    if c.sees 0 isBreak then
      skipToToken steps
        { l with cursor := c.takeBreak.2, keyAllowed := if l.inFlow then l.keyAllowed else true }
    else { l with cursor := c }

/-- Pass `count` characters and emit the token they stand for. -/
def indicator (l : Lexer) (count : Nat) (token : Token) : Lexer :=
  { l with cursor := l.cursor.skip count }.emit token

def fetchStreamEnd? (l : Lexer) : Option Lexer := do
  let l := l.unroll (-1)
  let l ← l.dropKey?
  return { l with keyAllowed := false }.emit .streamEnd

def fetchDirective? (l : Lexer) : Option Lexer := do
  let l := l.unroll (-1)
  let l ← l.dropKey?
  let (token, cursor) ← directive? (l.cursor.skip 1)
  return { l with keyAllowed := false, cursor }.emit token

def fetchDocumentMark? (token : Token) (l : Lexer) : Option Lexer := do
  let l := l.unroll (-1)
  let l ← l.dropKey?
  return { l with keyAllowed := false }.indicator 3 token

def fetchFlowStart? (token : Token) (l : Lexer) : Option Lexer := do
  let l ← l.saveKey?
  return { l with keys := none :: l.keys, flow := l.flow + 1, keyAllowed := true }.indicator 1 token

def fetchFlowEnd? (token : Token) (l : Lexer) : Option Lexer := do
  let l ← l.dropKey?
  let l := if l.inFlow then { l with keys := l.keys.drop 1, flow := l.flow - 1 } else l
  return { l with keyAllowed := false }.indicator 1 token

def fetchFlowEntry? (l : Lexer) : Option Lexer := do
  let l ← l.dropKey?
  return { l with keyAllowed := true }.indicator 1 .flowEntry

def fetchBlockEntry? (l : Lexer) : Option Lexer := do
  if !l.inFlow && !l.keyAllowed then none
  else
    let l := l.roll l.cursor.column none .blockSequenceStart
    let l ← l.dropKey?
    return { l with keyAllowed := true }.indicator 1 .blockEntry

def fetchKey? (l : Lexer) : Option Lexer := do
  if !l.inFlow && !l.keyAllowed then none
  else
    let l := l.roll l.cursor.column none .blockMappingStart
    let l ← l.dropKey?
    return { l with keyAllowed := !l.inFlow }.indicator 1 .key

/-- The value behind a simple key or behind a key with its own indicator. -/
def fetchValue? (l : Lexer) : Option Lexer :=
  match l.currentKey with
  | some key =>
    let l := (l.insertAt key.position .key).roll key.column (some key.position) .blockMappingStart
    some ({ l.setKey none with keyAllowed := false }.indicator 1 .value)
  | none =>
    if !l.inFlow && !l.keyAllowed then none
    else
      let l := l.roll l.cursor.column none .blockMappingStart
      some ({ l with keyAllowed := !l.inFlow }.indicator 1 .value)

def fetchAnchor? (token : List Char → Token) (l : Lexer) : Option Lexer := do
  let l ← l.saveKey?
  let (name, cursor) ← anchorName? (l.cursor.skip 1)
  return { l with keyAllowed := false, cursor }.emit (token name)

def fetchTag? (l : Lexer) : Option Lexer := do
  let l ← l.saveKey?
  let (token, cursor) ← tag? l.inFlow l.cursor
  return { l with keyAllowed := false, cursor }.emit token

def fetchBlockScalar? (literal : Bool) (l : Lexer) : Option Lexer := do
  let l ← l.dropKey?
  let (text, cursor) ← blockScalar? literal l.indent (l.size + 2) (l.cursor.skip 1)
  return { l with keyAllowed := true, cursor }.emit (.scalar text false)

def fetchQuoted? (single : Bool) (l : Lexer) : Option Lexer := do
  let l ← l.saveKey?
  let (text, cursor) ← quotedScalar? single (3 * l.size + 3) .word [] (l.cursor.skip 1)
  return { l with keyAllowed := false, cursor }.emit (.scalar text false)

def fetchPlain? (l : Lexer) : Option Lexer := do
  let l ← l.saveKey?
  let scalar ← plainScalar? l.inFlow (l.indent + 1) (2 * l.size + 2) true {} [] l.cursor
  return { l with keyAllowed := scalar.broken, cursor := scalar.cursor }.emit
    (.scalar scalar.text true)

/-- Indicators that no plain scalar begins with. -/
def isIndicator (c : Char) : Bool :=
  "-?:,[]#&*!|>%@".toList.contains c || c = '{' || c = '}' || c = '\'' || c = '"' || c.toNat == 0x60

def startsPlain (l : Lexer) (char : Char) : Bool :=
  let c := l.cursor
  (!isBlankOrBreak char && !isIndicator char) ||
    (char = '-' && !c.sees 1 isSpaceOrTab) ||
    (!l.inFlow && (char = '?' || char = ':') && !c.blankAt 1)

/-- Read the next token, or several at once where collections end. -/
def fetch? (l : Lexer) : Option Lexer := do
  let l := skipToToken (l.size + 1) l
  let l ← l.staleKeys?
  let l := l.unroll l.cursor.column
  let c := l.cursor
  match c.rest with
  | [] => l.fetchStreamEnd?
  | char :: _ =>
    if c.column == 0 && char = '%' then l.fetchDirective?
    else if c.atDocumentMark then
      l.fetchDocumentMark? (if char = '-' then .documentStart else .documentEnd)
    else if char = '[' then l.fetchFlowStart? .flowSequenceStart
    else if char = '{' then l.fetchFlowStart? .flowMappingStart
    else if char = ']' then l.fetchFlowEnd? .flowSequenceEnd
    else if char = '}' then l.fetchFlowEnd? .flowMappingEnd
    else if char = ',' then l.fetchFlowEntry?
    else if char = '-' && c.blankAt 1 then l.fetchBlockEntry?
    else if char = '?' && (l.inFlow || c.blankAt 1) then l.fetchKey?
    else if char = ':' && (l.inFlow || c.blankAt 1) then l.fetchValue?
    else if char = '*' then l.fetchAnchor? .reference
    else if char = '&' then l.fetchAnchor? .anchor
    else if char = '!' then l.fetchTag?
    else if char = '|' && !l.inFlow then l.fetchBlockScalar? true
    else if char = '>' && !l.inFlow then l.fetchBlockScalar? false
    else if char = '\'' then l.fetchQuoted? true
    else if char = '"' then l.fetchQuoted? false
    else if l.startsPlain char then l.fetchPlain?
    else none

/-- Every fetch before the last passes at least one character. -/
def run? : Nat → Lexer → Option (List Token)
  | 0, _ => none
  | steps + 1, l => do
    let l ← l.fetch?
    match l.tokens with
    | .streamEnd :: _ => some l.tokens.reverse
    | _ => run? steps l

end Lexer

/-- Tokens of a text, or nothing where it is malformed. -/
def tokens? (text : List Char) : Option (List Token) :=
  if text.all isAllowed then
    Lexer.run? (text.length + 2) { size := text.length, cursor := { rest := text } }
  else none

end RestThrift.Yaml
