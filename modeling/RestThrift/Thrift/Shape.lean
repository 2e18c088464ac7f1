import RestThrift.Thrift.Schema

/-!
# Shapes

Two definitions have the same shape when they differ at most in fully-qualified names, comments
and source positions.
-/
namespace RestThrift

def Field.sameShape (a b : Field) : Bool :=
  a.id == b.id && a.name == b.name && a.requiredness == b.requiredness && a.default == b.default &&
    a.annotations == b.annotations && a.type.sameShape b.type

def sameFields : List Field → List Field → Bool
  | [], [] => true
  | a :: as, b :: bs => a.sameShape b && sameFields as bs
  | _, _ => false

def Message.sameShape (a b : Message) : Bool :=
  a.name == b.name && a.kind == b.kind && a.annotations == b.annotations &&
    sameFields a.fields b.fields

def sameMembers : List EnumMember → List EnumMember → Bool
  | [], [] => true
  | a :: as, b :: bs => a.name == b.name && a.value == b.value && sameMembers as bs
  | _, _ => false

/-- Enumerations are compared by name and by the names and values of their members. -/
def Enumeration.sameShape (a b : Enumeration) : Bool :=
  a.name == b.name && sameMembers a.members b.members

end RestThrift
