import RestThrift.Toml.Scalar

/-!
# Reading TOML documents

A document is a list of lines: key-value pairs, headers that open tables, comments and empty lines.
A pair belongs to the table opened last.
-/
namespace RestThrift.Toml

/-- The greatest number of arrays and inline tables inside each other, and of parts of a key. -/
def maxNesting : Nat := 79

def isBareKeyChar (c : Char) : Bool :=
  isDigit c || (65 ≤ c.toNat && c.toNat ≤ 90) || (97 ≤ c.toNat && c.toNat ≤ 122) ||
    c = '_' || c = '-'

/-- One part of a key: quoted on one line, or bare. -/
def keyPart? (text : List Char) : Option (String × List Char) :=
  match text with
  | c :: rest =>
    if c = '"' ∨ c = '\'' then lineString? c (rest.length + 1) [] rest
    else
      let name := text.takeWhile isBareKeyChar
      if name.isEmpty then none else some (String.ofList name, text.drop name.length)
  | [] => none

/-- A key: parts with dots between them, blanks around each; the path to the last part comes
first. -/
def key? : Nat → List Char → Option ((List String × String) × List Char)
  | 0, _ => none
  | parts + 1, text => do
    let (name, text) ← keyPart? (skipBlanks text)
    match skipBlanks text with
    | '.' :: rest =>
      let ((path, last), rest) ← key? parts rest
      return ((name :: path, last), rest)
    | rest => return (([], name), rest)

/-- What follows a comment, if there is one. -/
def skipComment (text : List Char) : List Char :=
  match text with
  | '#' :: rest => rest.dropWhile isVisible
  | _ => text

/-- Pass blanks, comments and line ends. -/
def skipLines : Nat → List Char → List Char
  | 0, text => text
  | steps + 1, text =>
    let text := skipComment (skipBlanks text)
    match newline? text with
    | some rest => skipLines steps rest
    | none => text

mutual
/-- A value, with at most `nesting` collections inside each other. -/
def value? : Nat → Nat → List Char → Option (Item × List Char)
  | 0, _, _ => none
  | steps + 1, nesting, text =>
    match text, nesting with
    | '[' :: rest, nesting + 1 =>
      (items? steps nesting rest).map fun (items, rest) => (.array items, rest)
    | '{' :: rest, nesting + 1 =>
      match skipBlanks rest with
      | '}' :: rest => some (.table .inline [], rest)
      | rest => (pairs? steps nesting [] rest).map fun (entries, rest) =>
        (.table .inline entries, rest)
    | text, _ => (scalar? text).map fun (s, rest) => (.scalar s, rest)

/-- Items of an array up to its end; a comma may stand behind the last one. -/
def items? : Nat → Nat → List Char → Option (List Item × List Char)
  | 0, _, _ => none
  | steps + 1, nesting, text =>
    match skipLines (text.length + 1) text with
    | ']' :: rest => some ([], rest)
    | text => do
      let (item, rest) ← value? steps nesting text
      match skipLines (rest.length + 1) rest with
      | ',' :: rest =>
        let (items, rest) ← items? steps nesting rest
        return (item :: items, rest)
      | ']' :: rest => return ([item], rest)
      | _ => none

/-- Pairs of an inline table up to its end, all on one line. -/
def pairs? : Nat → Nat → Entries → List Char → Option (Entries × List Char)
  | 0, _, _, _ => none
  | steps + 1, nesting, entries, text => do
    let ((path, key), rest) ← key? maxNesting text
    match rest with
    | '=' :: rest =>
      let (item, rest) ← value? steps nesting (skipBlanks rest)
      let entries ← entries.set? path key item .header
      match skipBlanks rest with
      | ',' :: rest => pairs? steps nesting entries rest
      | '}' :: rest => return (entries, rest)
      | _ => none
    | _ => none
end

/-- The document so far, with the path of the table opened last. -/
structure Document where
  root : Entries := []
  current : List String := []

/-- What follows the end of a line, possibly with a comment. -/
def endLine? (text : List Char) : Option (List Char) :=
  match skipComment (skipBlanks text) with
  | [] => some []
  | rest => newline? rest

/-- A header: one key between single or double brackets. -/
def header? (d : Document) (text : List Char) : Option (Document × List Char) :=
  match text with
  | '[' :: '[' :: rest => do
    let ((path, key), rest) ← key? maxNesting rest
    match rest with
    | ']' :: ']' :: rest =>
      let root ← d.root.openElement? path key
      return ({ root, current := path ++ [key] }, rest)
    | _ => none
  | '[' :: rest => do
    let ((path, key), rest) ← key? maxNesting rest
    match rest with
    | ']' :: rest =>
      let root ← d.root.openTable? path key
      return ({ root, current := path ++ [key] }, rest)
    | _ => none
  | _ => none

def pair? (d : Document) (text : List Char) : Option (Document × List Char) := do
  let ((path, key), rest) ← key? maxNesting text
  match rest with
  | '=' :: rest =>
    let (item, rest) ← value? (2 * rest.length + 2) maxNesting (skipBlanks rest)
    let root ← d.root.change? false (fun origin entries => entries.set? path key item origin)
      d.current .header
    return ({ d with root }, rest)
  | _ => none

def lines? : Nat → Document → List Char → Option Document
  | 0, _, _ => none
  | steps + 1, d, text =>
    let text := skipBlanks text
    match text with
    | [] => some d
    | c :: _ => do
      let (d, rest) ←
        if c = '#' ∨ (newline? text).isSome then some (d, text)
        else if c = '[' then header? d text
        else pair? d text
      let rest ← endLine? rest
      lines? steps d rest

/-- The entries of a document. A byte order mark in front does not count. -/
def parse? (text : String) : Option Entries :=
  let text := match text.toList with
    | c :: rest => if c.toNat = 0xFEFF then rest else c :: rest
    | [] => []
  (lines? (text.length + 1) {} text).map Document.root

end RestThrift.Toml
