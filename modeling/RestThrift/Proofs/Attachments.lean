import Mathlib
import RestThrift.Thrift.Definition
import RestThrift.Thrift.Writer

/-!
# Annotations where they hang

A writer meets the annotations of a schema in a certain order: the header of a message or of an
enumeration before what is inside, the inputs of a function before its own annotations. Values that
quote a text can all be written.
-/
namespace RestThrift

/-- The value of the annotation, if it has one, quotes a text. -/
def Annotation.Quotes (a : Annotation) : Prop :=
  ∀ value, a.value = some value → ∃ raw, value = .quoted raw

theorem Annotation.quotes_quoted (name text : String) :
    Annotation.Quotes (.quoted name text) := by
  rintro _ ⟨⟩
  exact ⟨text, rfl⟩

/-- An annotation and what it hangs on. -/
structure Attachment where
  owner : String
  annotation : Annotation

/-- Why the annotation cannot be written: its value is no quoted string. -/
def Attachment.fault? (a : Attachment) : Option RenderError :=
  match a.annotation.value with
  | none => none
  | some value =>
    match value.stringValue with
    | .ok _ => none
    | .error cause => some (.malformedValue a.annotation.name a.owner cause)

/-! ## Owners -/

def attach (owner : String) (annotations : List Annotation) : List Attachment :=
  annotations.map fun a => ⟨owner, a⟩

def Namespace.attachments (n : Namespace) : List Attachment := attach n.name n.annotations

def Typedef.attachments (t : Typedef) : List Attachment := attach t.name t.annotations

def EnumMember.attachments (m : EnumMember) : List Attachment := attach m.name m.annotations

def Enumeration.attachments (e : Enumeration) : List Attachment :=
  attach e.name e.annotations ++ e.members.flatMap EnumMember.attachments

def Field.attachments (f : Field) : List Attachment := attach f.name f.annotations

def Message.attachments (m : Message) : List Attachment :=
  attach m.name m.annotations ++ m.fields.flatMap Field.attachments

def ServiceFunction.attachments (f : ServiceFunction) : List Attachment :=
  (f.parameters ++ f.throws).flatMap Field.attachments ++ attach f.name f.annotations

def Service.attachments (s : Service) : List Attachment :=
  attach s.name s.annotations ++ s.functions.flatMap ServiceFunction.attachments

def Definition.attachments : Definition → List Attachment
  | .service s => s.attachments
  | .function f => f.attachments
  | .message m => m.attachments
  | .enumeration e => e.attachments
  | .constant _ => []
  | .typedef t => t.attachments

def File.attachments (f : File) : List Attachment :=
  f.namespaces.flatMap Namespace.attachments ++
    f.definitions.typedefs.flatMap Typedef.attachments ++
    f.definitions.enums.flatMap Enumeration.attachments ++
    f.definitions.messages.flatMap Message.attachments ++
    f.definitions.services.flatMap Service.attachments

/-- The annotations of a schema in the order in which they are written. -/
def Schema.attachments (s : Schema) : List Attachment := s.files.flatMap File.attachments

/-! ## Values that quote -/

/-- All annotations quote their values. -/
def Quoting (attachments : List Attachment) : Prop := ∀ a ∈ attachments, a.annotation.Quotes

section Quoting

variable {α : Type} {as bs : List Attachment} {l : List α} {f : α → List Attachment}
  {owner : String} {annotations : List Annotation}

theorem quoting_nil : Quoting [] := fun _ h => absurd h List.not_mem_nil

theorem quoting_append : Quoting (as ++ bs) ↔ Quoting as ∧ Quoting bs := List.forall_mem_append

theorem quoting_flatMap : Quoting (l.flatMap f) ↔ ∀ x ∈ l, Quoting (f x) := by
  simp only [Quoting, List.forall_mem_flatMap]

/-- Whether values quote does not depend on the owner. -/
theorem quoting_attach : Quoting (attach owner annotations) ↔
    ∀ a ∈ annotations, a.Quotes := List.forall_mem_map

theorem Message.quoting_iff {m : Message} : Quoting m.attachments ↔
    (∀ a ∈ m.annotations, a.Quotes) ∧ ∀ field ∈ m.fields, ∀ a ∈ field.annotations, a.Quotes := by
  simp only [Message.attachments, Field.attachments, quoting_append, quoting_flatMap,
    quoting_attach]

end Quoting

end RestThrift
