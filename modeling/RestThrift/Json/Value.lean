/-!
# JSON values

Integers and doubles are kept apart: `1` and `1.0` are different values.
-/
namespace RestThrift

inductive Json
  | null
  | bool (b : Bool)
  | int (n : Int)
  | float (x : Float)
  | str (text : String)
  | arr (items : List Json)
  | obj (members : List (String × Json))
  deriving Inhabited

namespace Json

/-- The value of the first member of that name. -/
def member? (name : String) : List (String × Json) → Option Json
  | [] => none
  | (key, value) :: rest => if key = name then some value else member? name rest

def get? (name : String) : Json → Option Json
  | .obj members => member? name members
  | _ => none

mutual
/-- Length of the longest chain of nested values. -/
def depth : Json → Nat
  | .arr items => depthItems items + 1
  | .obj members => depthMembers members + 1
  | _ => 1

def depthItems : List Json → Nat
  | [] => 0
  | item :: rest => max (depth item) (depthItems rest)

def depthMembers : List (String × Json) → Nat
  | [] => 0
  | (_, value) :: rest => max (depth value) (depthMembers rest)
end

def ofStrings (texts : List String) : Json := .arr (texts.map .str)

def ofOption (text : Option String) : Json :=
  match text with
  | some text => .str text
  | none => .null

end Json

end RestThrift
