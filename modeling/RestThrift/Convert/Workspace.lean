import RestThrift.Convert.Error
import RestThrift.Thrift.Shape

/-!
# Definitions under construction

The workspace holds the definitions of each file so far and the names that are taken there. A name
that is taken gets a number.
-/
namespace RestThrift.Convert

/-- The first candidate, from the `n`th on, that is not taken. -/
def firstFree (candidate : Nat → String) (taken : List String) : Nat → Nat → String
  | 0, n => candidate n
  | steps + 1, n =>
    if taken.contains (candidate n) then firstFree candidate taken steps (n + 1) else candidate n

/-- `base`, `base_2`, `base_3`, … -/
def numbered (base : String) (n : Nat) : String :=
  if n = 0 then base else base ++ "_" ++ toString (n + 1)

/-- The first of `base`, `base_2`, … that is not taken; with as many names taken, one of the first
`taken.length + 1` is free. -/
def freeName (taken : List String) (base : String) : String :=
  firstFree (numbered base) taken taken.length 0

structure Workspace where
  files : Table Definitions := []
  taken : Table (List String) := []
  inlineEnums : List ((String × String) × String) := []

namespace Workspace

def definitions (w : Workspace) (file : String) : Definitions := (w.files.get? file).getD {}

def namesIn (w : Workspace) (file : String) : List String := (w.taken.get? file).getD []

/-- Reserve a name in a file. -/
def claim (w : Workspace) (file base : String) : String × Workspace :=
  let name := freeName (w.namesIn file) base
  (name, { w with taken := w.taken.update file [] fun names => names ++ [name] })

def modify (w : Workspace) (file : String) (change : Definitions → Definitions) : Workspace :=
  { w with files := w.files.update file {} change }

def addMessage (w : Workspace) (file : String) (message : Message) : Workspace :=
  w.modify file fun d => { d with messages := d.messages ++ [message] }

def addEnum (w : Workspace) (file : String) (enumeration : Enumeration) : Workspace :=
  w.modify file fun d => { d with enums := d.enums ++ [enumeration] }

def addTypedef (w : Workspace) (file : String) (definition : Typedef) : Workspace :=
  w.modify file fun d => { d with typedefs := d.typedefs ++ [definition] }

/-- Remember the enumeration for inline schemas that ask for the name `base`; the latest one
counts. -/
def rememberEnum (w : Workspace) (file base name : String) : Workspace :=
  { w with inlineEnums := ((file, base), name) :: w.inlineEnums }

def inlineEnum? (w : Workspace) (file base : String) : Option String :=
  w.inlineEnums.lookup (file, base)

/-- Among `base`, `base_2`, … as far as they are taken, the first message of the given shape. -/
def matchFrom (defined : Definitions) (taken : List String) (base : String) (message : Message) :
    Nat → Nat → Option String
  | 0, _ => none
  | steps + 1, n =>
    let name := numbered base n
    if !taken.contains name then none
    else
      match defined.message? name with
      | some other =>
        if other.sameShape { message with name } then some name
        else matchFrom defined taken base message steps (n + 1)
      | none => matchFrom defined taken base message steps (n + 1)

def matching? (w : Workspace) (file base : String) (message : Message) : Option String :=
  let taken := w.namesIn file
  matchFrom (w.definitions file) taken base message (taken.length + 1) 0

end Workspace

/-- Building definitions, which may fail. -/
abbrev Build := StateT Workspace (Except ConversionError)

def claim (file base : String) : Build String := do
  let (name, w) := (← get).claim file base
  set w
  return name

end RestThrift.Convert
