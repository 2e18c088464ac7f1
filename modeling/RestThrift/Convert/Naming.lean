import RestThrift.Api.Operation
import RestThrift.Text.Blank
import RestThrift.Text.Capital
import RestThrift.Text.Letter

/-!
# Names of generated definitions

Definitions and functions have names in Pascal case without repeated words, fields and members keep
their case. No name starts with a digit.
-/
namespace RestThrift.Naming

/-- Every run of letters and digits starts with a capital; everything else is dropped. `fresh` holds
before a run. -/
def pascalFrom : Bool → List Char → List Char
  | _, [] => []
  | fresh, c :: rest =>
    if !Text.isAlphanumeric c then pascalFrom true rest
    else if fresh then Text.capitalize c ++ pascalFrom false rest
    else c :: pascalFrom false rest

def pascal (name : List Char) : List Char := pascalFrom true name

/-- A camel word is a run of capitals with the small letters and digits behind it. -/
inductive Piece
  | word (text : List Char)
  | gap (text : List Char)
  deriving DecidableEq, Repr

def Piece.text : Piece → List Char
  | .word text => text
  | .gap text => text

def isWordTail (c : Char) : Bool := Text.isAsciiLower c || Text.isAsciiDigit c

def gapPiece (text : List Char) : List Piece := if text.isEmpty then [] else [.gap text]

/-- The camel words of a text and the gaps between them, in order. -/
def camelPieces : List Char → List Piece
  | [] => []
  | c :: rest =>
    match camelPieces rest with
    | .word text :: more =>
      if Text.isAsciiUpper c then .word (c :: text) :: more else .gap [c] :: .word text :: more
    | .gap text :: more =>
      if Text.isAsciiUpper c then
        .word (c :: text.takeWhile isWordTail) :: (gapPiece (text.dropWhile isWordTail) ++ more)
      else .gap (c :: text) :: more
    | [] => if Text.isAsciiUpper c then [.word [c]] else [.gap [c]]

/-- Drop each word that equals the word right before it. -/
def dropRepeats : Option (List Char) → List Piece → List Piece
  | _, [] => []
  | _, .gap text :: rest => .gap text :: dropRepeats none rest
  | previous, .word text :: rest =>
    if previous = some text then dropRepeats previous rest
    else .word text :: dropRepeats (some text) rest

def dedupWords (name : List Char) : List Char :=
  (dropRepeats none (camelPieces name)).flatMap Piece.text

def guardDigit (name : List Char) : List Char :=
  match name with
  | c :: rest => if Text.isAsciiDigit c then '_' :: c :: rest else c :: rest
  | [] => []

/-- A definition's name, made from any text. -/
def definitionName (text : String) : String :=
  String.ofList (guardDigit (dedupWords (pascal text.toList)))

/-- The name of a definition that belongs to a parent's field. -/
def nestedName (parent field : String) : String :=
  definitionName (String.ofList (pascal parent.toList ++ pascal field.toList))

def isWordChar (c : Char) : Bool := Text.isAsciiAlphanumeric c || c = '_'

def isIdentifier : List Char → Bool
  | [] => false
  | c :: rest => (Text.isAsciiLetter c || c = '_') && rest.all isWordChar

/-- An identifier stays as it is; any other text is put in Pascal case. -/
def identifier (name : String) : String :=
  if isIdentifier name.toList then name else String.ofList (guardDigit (pascal name.toList))

/-- Characters that an identifier cannot have become underscores. -/
def fieldName (name : String) : String :=
  let cleaned := name.toList.map fun c => if isWordChar c then c else '_'
  if cleaned.isEmpty then "field" else String.ofList (guardDigit cleaned)

/-- Letters and digits of any script are kept. -/
def memberName (text : String) : String :=
  String.ofList <| guardDigit <| text.toList.map fun c =>
    if Text.isAlphanumeric c || c = '_' then c else '_'

def namespaceName (name : List Char) : List Char :=
  name.map fun c => if c = '-' || c = '.' || c = ' ' then '_' else c

/-- The namespace of definitions whose name has no dot. -/
def mainNamespace : String := "main"

/-- Split a definition's full name at its last dot into a namespace and a short name. -/
def splitDefinition (full : String) : String × String :=
  match Text.splitLast '.' full.toList with
  | some (space, short) => (String.ofList (namespaceName space), String.ofList short)
  | none => (mainNamespace, full)

/-! ## Paths -/

/-- A path parameter begins behind an opening brace: some characters up to a closing brace. -/
def opensParameter (rest : List Char) : Bool :=
  let name := rest.takeWhile fun c => c ≠ '{' ∧ c ≠ '}'
  !name.isEmpty && (rest.drop name.length).head? == some '}'

/-- Write each braced parameter with a leading colon instead. `inside` holds within a parameter. -/
def colonFrom : Bool → List Char → List Char
  | _, [] => []
  | inside, c :: rest =>
    if c = '{' then
      if opensParameter rest then ':' :: colonFrom true rest else c :: colonFrom false rest
    else if c = '}' ∧ inside then colonFrom false rest
    else c :: colonFrom inside rest

def colonPath (path : String) : String := String.ofList (colonFrom false path.toList)

def spellColon (c : Char) : List Char := if c = ':' then [' ', 'b', 'y', ' '] else [c]

/-- A function is named for its method and the words of its path, parameters behind `By`. -/
def functionName (method : Api.Method) (path : String) : String :=
  let spaced := path.toList.map fun c => if c = '/' then ' ' else c
  let words := (colonFrom false spaced).flatMap spellColon
  definitionName (String.ofList (pascal method.name.toList ++ pascal words))

/-- `For` and the last segment of a path that is not a parameter, if that has a letter or digit. -/
def pathSuffix? (path : String) : Option String := do
  let segment ← (Text.splitAt '/' path.toList).reverse.find? fun segment =>
    !segment.isEmpty && segment.head? != some '{'
  let name := pascal segment
  if name.isEmpty then none else return "For" ++ String.ofList name

/-- Items are named by dropping a plural `s`, or else by adding `Item`. -/
def itemName (field : String) : String :=
  match field.toList.reverse with
  | 's' :: c :: rest => String.ofList (c :: rest).reverse
  | _ => field ++ "Item"

end RestThrift.Naming
