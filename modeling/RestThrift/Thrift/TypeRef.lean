/-!
# Type references

A type is a built-in scalar, a user-defined name, or a container of types. A name may carry the
fully-qualified name of the definition it stands for.
-/
namespace RestThrift

inductive Primitive
  | void | bool | byte | i8 | i16 | i32 | i64 | float | double | string | binary
  deriving DecidableEq, Repr, Inhabited

namespace Primitive

def all : List Primitive :=
  [.void, .bool, .byte, .i8, .i16, .i32, .i64, .float, .double, .string, .binary]

def name : Primitive → String
  | .void => "void"
  | .bool => "bool"
  | .byte => "byte"
  | .i8 => "i8"
  | .i16 => "i16"
  | .i32 => "i32"
  | .i64 => "i64"
  | .float => "float"
  | .double => "double"
  | .string => "string"
  | .binary => "binary"

def ofName? (name : String) : Option Primitive := all.find? (fun p => p.name == name)

end Primitive

inductive TypeRef
  | primitive (p : Primitive)
  | named (name : String) (fqn : Option String)
  | list (element : TypeRef)
  | set (element : TypeRef)
  | map (key value : TypeRef)
  deriving DecidableEq, Repr, Inhabited

namespace TypeRef

def void : TypeRef := .primitive .void

def string : TypeRef := .primitive .string

/-- The scalar's name, the container's keyword, or the name as written. -/
def name : TypeRef → String
  | .primitive p => p.name
  | .named name _ => name
  | .list _ => "list"
  | .set _ => "set"
  | .map _ _ => "map"

def isVoid : TypeRef → Bool
  | .primitive .void => true
  | _ => false

def fqn? : TypeRef → Option String
  | .named _ fqn => fqn
  | _ => none

def key? : TypeRef → Option TypeRef
  | .map key _ => some key
  | _ => none

def value? : TypeRef → Option TypeRef
  | .list element => some element
  | .set element => some element
  | .map _ value => some value
  | _ => none

/-- The type as it stands in a Thrift file. -/
def emit : TypeRef → String
  | .primitive p => p.name
  | .named name _ => name
  | .list element => "list<" ++ emit element ++ ">"
  | .set element => "set<" ++ emit element ++ ">"
  | .map key value => "map<" ++ emit key ++ ", " ++ emit value ++ ">"

/-- Equality up to fully-qualified names. -/
def sameShape : TypeRef → TypeRef → Bool
  | .primitive p, .primitive q => p == q
  | .named a _, .named b _ => a == b
  | .list a, .list b => sameShape a b
  | .set a, .set b => sameShape a b
  | .map k v, .map l w => sameShape k l && sameShape v w
  | _, _ => false

/-- The type and all types inside it, outermost first and keys before values. -/
def walk : TypeRef → List TypeRef
  | .primitive p => [.primitive p]
  | .named name fqn => [.named name fqn]
  | .list element => .list element :: walk element
  | .set element => .set element :: walk element
  | .map key value => .map key value :: (walk key ++ walk value)

end TypeRef

end RestThrift
