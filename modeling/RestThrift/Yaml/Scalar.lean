import RestThrift.Yaml.Cursor

/-!
# Scalars

The text of plain, quoted and block scalars. Between two words of a plain or quoted scalar stands
a gap: blanks stay as they are, a single line break becomes a space, and of several breaks the
first is dropped.
-/
namespace RestThrift.Yaml

/-- A run of blanks and breaks. Blanks count only before the first break. -/
structure Gap where
  blanks : List Char := []
  broken : Bool := false
  first : List Char := []
  more : List Char := []

def Gap.text (gap : Gap) : List Char :=
  if gap.broken then
    if gap.first = ['\n'] then
      if gap.more.isEmpty then [' '] else gap.more
    else gap.first ++ gap.more
  else gap.blanks

/-- Add one blank or break at the cursor to a gap. -/
def Gap.grow (gap : Gap) (c : Cursor) : Gap × Cursor :=
  match c.rest with
  | [] => (gap, c)
  | char :: _ =>
    if isSpaceOrTab char then
      (if gap.broken then gap else { gap with blanks := gap.blanks ++ [char] }, c.skip 1)
    else
      let (text, next) := c.takeBreak
      if gap.broken then ({ gap with more := gap.more ++ text }, next)
      else ({ gap with blanks := [], broken := true, first := text }, next)

/-! ## Quoted scalars -/

def hexDigit? (c : Char) : Option Nat :=
  let n := c.toNat
  if 48 ≤ n ∧ n ≤ 57 then some (n - 48)
  else if 97 ≤ n ∧ n ≤ 102 then some (n - 87)
  else if 65 ≤ n ∧ n ≤ 70 then some (n - 55)
  else none

def hexNumber? (digits : List Char) : Option Nat :=
  digits.foldlM (fun value c => (hexDigit? c).map (value * 16 + ·)) 0

/-- Escapes that stand for one character. -/
def simpleEscape? (c : Char) : Option Char :=
  if c = '0' then some (Char.ofNat 0)
  else if c = 'a' then some (Char.ofNat 7)
  else if c = 'b' then some (Char.ofNat 8)
  else if c = 't' ∨ c = '\t' then some '\t'
  else if c = 'n' then some '\n'
  else if c = 'v' then some (Char.ofNat 11)
  else if c = 'f' then some (Char.ofNat 12)
  else if c = 'r' then some '\r'
  else if c = 'e' then some (Char.ofNat 27)
  else if c = ' ' ∨ c = '"' ∨ c = '/' ∨ c = '\\' then some c
  else if c = 'N' then some (Char.ofNat 0x85)
  else if c = '_' then some (Char.ofNat 0xA0)
  else if c = 'L' then some (Char.ofNat 0x2028)
  else if c = 'P' then some (Char.ofNat 0x2029)
  else none

/-- Number of digits of a numeric escape. -/
def escapeWidth? (c : Char) : Option Nat :=
  if c = 'x' then some 2 else if c = 'u' then some 4 else if c = 'U' then some 8 else none

/-- The escape behind a backslash: its character and its length without the backslash. A code that
is no scalar value is a fault. -/
def escape? (rest : List Char) : Option (Char × Nat) :=
  match rest with
  | [] => none
  | kind :: digits =>
    match simpleEscape? kind with
    | some c => some (c, 1)
    | none => do
      let width ← escapeWidth? kind
      let digits := digits.take width
      if digits.length < width then none
      else
        let code ← hexNumber? digits
        if (0xD800 ≤ code ∧ code ≤ 0xDFFF) ∨ 0x10FFFF < code then none
        else some (Char.ofNat code, width + 1)

/-- Whether the scan of a quoted scalar stands inside a word or inside a gap. -/
inductive QuotedPlace
  | word
  | gap (gap : Gap)

/-- The rest of a quoted scalar after its opening quote; `acc` is reversed. -/
def quotedScalar? (single : Bool) : Nat → QuotedPlace → List Char → Cursor →
    Option (List Char × Cursor)
  | 0, _, _, _ => none
  | steps + 1, place, acc, c =>
    let quote := if single then '\'' else '"'
    match place with
    | .gap gap =>
      if c.sees 0 isBlankOrBreak then
        let (gap, c) := gap.grow c
        quotedScalar? single steps (.gap gap) acc c
      else if c.atDocumentMark then none
      else quotedScalar? single steps .word (gap.text.reverse ++ acc) c
    | .word =>
      match c.rest with
      | [] => none
      | '\'' :: '\'' :: _ =>
        if single then quotedScalar? single steps .word ('\'' :: acc) (c.skip 2)
        else quotedScalar? single steps .word ('\'' :: acc) (c.skip 1)
      | char :: rest =>
        if char = quote then some (acc.reverse, c.skip 1)
        else if isBlankOrBreak char then quotedScalar? single steps (.gap {}) acc c
        else if char = '\\' ∧ ¬ single then
          if (c.skip 1).sees 0 isBreak then
            quotedScalar? single steps (.gap { broken := true }) acc (c.skip 1).takeBreak.2
          else
            match escape? rest with
            | some (char, length) =>
              quotedScalar? single steps .word (char :: acc) (c.skip (length + 1))
            | none => none
        else quotedScalar? single steps .word (char :: acc) (c.skip 1)

/-! ## Plain scalars -/

def isFlowMark (c : Char) : Bool := c = ',' || c = '[' || c = ']' || c = '{' || c = '}'

/-- A plain scalar: its text, whether a line break follows it, and the cursor behind it and the
blanks after it. Lines after the first have to be indented by at least `indent`, except in flow
context. -/
structure PlainScalar where
  text : List Char
  broken : Bool
  cursor : Cursor

/-- The scalar that ends with a gap; `acc` is its reversed text. -/
def PlainScalar.ending (gap : Gap) (acc : List Char) (cursor : Cursor) : PlainScalar :=
  { text := acc.reverse, broken := gap.broken, cursor }

/-- The words of a plain scalar; `fresh` holds at the start and after a gap. -/
def plainScalar? (flow : Bool) (indent : Int) : Nat → Bool → Gap → List Char → Cursor →
    Option PlainScalar
  | 0, _, _, _, _ => none
  | steps + 1, fresh, gap, acc, c =>
    if fresh ∧ (c.atDocumentMark ∨ c.isAt '#') then some (.ending gap acc c)
    else
      match c.rest with
      | [] => some (.ending gap acc c)
      | char :: _ =>
        if isBlankOrBreak char then
          if isSpaceOrTab char ∧ gap.broken ∧ (c.column : Int) < indent ∧ char = '\t' then none
          else
            let (gap, next) := gap.grow c
            if next.sees 0 isBlankOrBreak then plainScalar? flow indent steps false gap acc next
            else if !flow && (next.column : Int) < indent then
              some (.ending gap acc next)
            else plainScalar? flow indent steps true gap acc next
        else if flow ∧ char = ':' ∧ c.sees 1 (fun c => isFlowMark c || c = '?') then none
        else if (char = ':' ∧ c.blankAt 1) ∨ (flow ∧ isFlowMark char) then
          some (.ending gap acc c)
        else plainScalar? flow indent steps false {} (char :: (gap.text.reverse ++ acc)) (c.skip 1)

/-! ## Block scalars -/

inductive Chomping
  | strip
  | clip
  | keep
  deriving DecidableEq

structure BlockHeader where
  chomping : Chomping := .clip
  increment : Nat := 0

def chomping? (c : Char) : Option Chomping :=
  if c = '+' then some .keep else if c = '-' then some .strip else none

def increment? (c : Char) : Option Nat :=
  if 48 ≤ c.toNat ∧ c.toNat ≤ 57 then some (c.toNat - 48) else none

/-- The indicators behind `|` or `>`, in either order; an increment of zero is a fault. -/
def blockHeader? (c : Cursor) : Option (BlockHeader × Cursor) :=
  let digit (c : Cursor) : Option Nat := (c.peek 0).bind increment?
  let mark (c : Cursor) : Option Chomping := (c.peek 0).bind chomping?
  match mark c with
  | some chomping =>
    let c := c.skip 1
    match digit c with
    | some 0 => none
    | some increment => some ({ chomping, increment }, c.skip 1)
    | none => some ({ chomping }, c)
  | none =>
    match digit c with
    | some 0 => none
    | some increment =>
      let c := c.skip 1
      match mark c with
      | some chomping => some ({ chomping, increment }, c.skip 1)
      | none => some ({ increment }, c)
    | none => some ({}, c)

/-- Pass indentation and empty lines; `indent` is zero while it is not known. The widest
indentation seen comes along. A tab in the indentation is a fault. -/
def blockBreaks? (indent : Nat) : Nat → Nat → List Char → Cursor →
    Option (Nat × List Char × Cursor)
  | 0, _, _, _ => none
  | steps + 1, widest, breaks, c =>
    let spaces := (c.rest.takeWhile (· = ' ')).length
    let c := c.skip (if indent = 0 then spaces else min spaces (indent - c.column))
    let widest := max widest c.column
    if (indent = 0 ∨ c.column < indent) ∧ c.isAt '\t' then none
    else if c.sees 0 isBreak then
      let (text, c) := c.takeBreak
      blockBreaks? indent steps widest (breaks ++ text) c
    else some (widest, breaks, c)

/-- State between two lines of a block scalar. -/
structure BlockLines where
  acc : List Char := []
  lead : List Char := []
  trail : List Char := []
  afterBlank : Bool := false

/-- The lines of a block scalar whose indentation is known; `acc` is reversed. -/
def blockLines? (literal : Bool) (indent : Nat) : Nat → BlockLines → Cursor →
    Option (BlockLines × Cursor)
  | 0, _, _ => none
  | steps + 1, state, c =>
    if c.column = indent ∧ ¬ c.atEnd then
      let blank := c.sees 0 isSpaceOrTab
      let joined :=
        if !literal && state.lead == ['\n'] && !state.afterBlank && !blank then
          if state.trail.isEmpty then [' '] else []
        else state.lead
      let line := c.rest.takeWhile (fun char => !isBreak char)
      let acc := line.reverse ++ (state.trail.reverse ++ (joined.reverse ++ state.acc))
      let (lead, c) := (c.skip line.length).takeBreak
      match blockBreaks? indent steps 0 [] c with
      | some (_, trail, c) =>
        blockLines? literal indent steps { acc, lead, trail, afterBlank := blank } c
      | none => none
    else some (state, c)

/-- A block scalar behind its indicator, inside a node indented by `parent`. -/
def blockScalar? (literal : Bool) (parent : Int) (steps : Nat) (c : Cursor) :
    Option (List Char × Cursor) := do
  let (header, c) ← blockHeader? c
  let c ← c.finishLine?
  let given :=
    if header.increment = 0 then 0 else (max parent 0).toNat + header.increment
  let (widest, trail, c) ← blockBreaks? given steps 0 [] c
  let indent := if given = 0 then max (max widest (parent + 1).toNat) 1 else given
  let (state, c) ← blockLines? literal indent steps { trail } c
  let ending := match header.chomping with
    | .strip => []
    | .clip => state.lead
    | .keep => state.lead ++ state.trail
  return (state.acc.reverse ++ ending, c)

end RestThrift.Yaml
