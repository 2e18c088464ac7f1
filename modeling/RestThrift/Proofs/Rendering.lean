import Mathlib
import RestThrift.Proofs.Attachments

/-!
# Why a schema cannot be rendered

A writer stops at the first annotation whose value is no quoted string, and it has no other reason
to stop. This is said of programs along with the annotations that they meet, once for each way to
combine programs, so that each writer of a definition follows the order of its own annotations.
-/
namespace RestThrift

/-! ## Reports -/

section Reports

variable {α β : Type} {x : Except RenderError α} {as bs : List Attachment} {error : RenderError}

/-- A computation reports the first fault of some annotations, or succeeds where there is none. -/
def Reports (x : Except RenderError α) (as : List Attachment) : Prop :=
  match as.findSome? Attachment.fault? with
  | some error => x = .error error
  | none => ∃ a, x = .ok a

theorem reports_ok (a : α) : Reports (.ok a) [] := ⟨a, rfl⟩

theorem Reports.bind {f : α → Except RenderError β} (hx : Reports x as)
    (hf : ∀ a, Reports (f a) bs) : Reports (x >>= f) (as ++ bs) := by
  rw [Reports] at hx ⊢
  rw [List.findSome?_append]
  cases hfault : as.findSome? Attachment.fault? with
  | some error =>
    simp only [hfault] at hx
    rw [hx]
    rfl
  | none =>
    simp only [hfault] at hx
    obtain ⟨a, rfl⟩ := hx
    simp only [Option.none_or]
    exact hf a

/-- What is made of a result does not matter. -/
theorem Reports.map {f : α → Except RenderError β} (hx : Reports x as)
    (hf : ∀ a, Reports (f a) []) : Reports (x >>= f) as := by
  have hbind := hx.bind hf
  rwa [List.append_nil] at hbind

theorem reports_mapM {γ : Type} {l : List γ} {f : γ → Except RenderError α}
    {g : γ → List Attachment} (h : ∀ c ∈ l, Reports (f c) (g c)) :
    Reports (l.mapM f) (l.flatMap g) := by
  induction l with
  | nil => exact reports_ok []
  | cons c rest ih =>
    obtain ⟨hc, hrest⟩ := List.forall_mem_cons.mp h
    rw [List.mapM_cons, List.flatMap_cons]
    exact hc.bind fun a => (ih hrest).map fun _ => reports_ok _

theorem Reports.error_iff (h : Reports x as) :
    x = .error error ↔ as.findSome? Attachment.fault? = some error := by
  rw [Reports] at h
  cases hfault : as.findSome? Attachment.fault? with
  | some other =>
    simp only [hfault] at h
    rw [h, Except.error.injEq, Option.some.injEq]
  | none =>
    simp only [hfault] at h
    obtain ⟨a, rfl⟩ := h
    simp

end Reports

/-! ## Pieces of a line -/

section Pieces

variable {owner keyword name : String} {annotations : List Annotation} {field : Field}
  {stems : List String} {fields : List Field} {f : ServiceFunction}

theorem annotationText_reports (owner : String) (a : Annotation) :
    Reports (annotationText owner a) [⟨owner, a⟩] := by
  rw [Reports, List.findSome?_singleton, Attachment.fault?, annotationText]
  cases a.value with
  | none => exact ⟨_, rfl⟩
  | some value =>
    cases hvalue : value.stringValue with
    | ok raw => simp [hvalue]
    | error cause => simp [hvalue]

theorem annotationsText_reports (owner : String) (annotations : List Annotation) :
    Reports (annotationsText owner annotations) (attach owner annotations) := by
  rw [annotationsText]
  cases annotations with
  | nil => exact reports_ok _
  | cons a rest =>
    rw [attach, List.map_eq_flatMap]
    exact (reports_mapM fun a _ => annotationText_reports owner a).map fun _ => reports_ok _

theorem fieldText_reports (keyword name : String) (field : Field) :
    Reports (fieldText keyword name field) field.attachments :=
  (annotationsText_reports field.name field.annotations).map fun _ => reports_ok _

theorem parametersText_reports (stems : List String) (fields : List Field) :
    Reports (parametersText stems fields) (fields.flatMap Field.attachments) :=
  (reports_mapM fun _ _ => fieldText_reports _ _ _).map fun _ => reports_ok _

/-- A list of thrown fields is written only where there is one. -/
theorem functionText_reports (stems : List String) (f : ServiceFunction) :
    Reports (functionText stems f) f.attachments := by
  rw [ServiceFunction.attachments, List.flatMap_append, List.append_assoc]
  refine (parametersText_reports stems f.parameters).bind fun _ => ?_
  have hannotations := annotationsText_reports f.name f.annotations
  cases f.throws with
  | nil => exact hannotations.map fun _ => reports_ok _
  | cons field rest =>
    refine (parametersText_reports stems (field :: rest)).bind fun _ => ?_
    exact hannotations.map fun _ => reports_ok _

end Pieces

/-! ## Writers -/

namespace Writer

section Renders

variable {α β γ : Type} {x : WriterM α} {as bs : List Attachment}

/-- Whatever the writer holds, the program reports the first fault of the annotations. -/
def Renders (x : WriterM α) (as : List Attachment) : Prop :=
  ∀ writer, Reports (x.run.run writer).1 as

theorem run_bind (x : WriterM α) (f : α → WriterM β) (writer : Writer) :
    ((x >>= f).run.run writer).1 =
      (x.run.run writer).1 >>= fun a => ((f a).run.run (x.run.run writer).2).1 := by
  simp only [ExceptT.run_bind, StateT.run_bind]
  rcases x.run.run writer with ⟨_ | a, writer'⟩ <;> rfl

theorem renders_pure (a : α) : Renders (pure a) [] := fun _ => reports_ok a

theorem renders_get : Renders get [] := fun writer => reports_ok writer

theorem renders_modify (f : Writer → Writer) : Renders (modify f) [] := fun _ => reports_ok _

theorem renders_liftExcept {x : Except RenderError α} (h : Reports x as) :
    Renders (liftExcept x) as := by
  intro writer
  cases x <;> exact h

theorem Renders.bind {f : α → WriterM β} (hx : Renders x as) (hf : ∀ a, Renders (f a) bs) :
    Renders (x >>= f) (as ++ bs) := by
  intro writer
  rw [run_bind]
  exact (hx writer).bind fun a => hf a _

/-- What meets no annotation may stand before anything. -/
theorem Renders.before {f : α → WriterM β} (hx : Renders x []) (hf : ∀ a, Renders (f a) bs) :
    Renders (x >>= f) bs := hx.bind hf

/-- What meets no annotation may stand behind anything. -/
theorem Renders.then {f : α → WriterM β} (hx : Renders x as) (hf : ∀ a, Renders (f a) []) :
    Renders (x >>= f) as := by
  have hbind := hx.bind hf
  rwa [List.append_nil] at hbind

theorem renders_forM {l : List γ} {f : γ → WriterM PUnit} {g : γ → List Attachment}
    (h : ∀ c, Renders (f c) (g c)) : Renders (l.forM f) (l.flatMap g) := by
  induction l with
  | nil => exact renders_pure _
  | cons c rest ih => exact (h c).bind fun _ => ih

/-- Items that meet nothing. -/
theorem flatMap_nothing (l : List γ) : (l.flatMap fun _ => ([] : List β)) = [] :=
  List.flatMap_eq_nil_iff.mpr fun _ _ => rfl

theorem renders_line (text : String) : Renders (line text) [] := renders_modify _

theorem renders_lines (texts : List String) : Renders (lines texts) [] := by
  have hall := renders_forM (l := texts) (g := fun _ => []) renders_line
  rwa [flatMap_nothing] at hall

theorem renders_comments (texts : List Comment) : Renders (comments texts) [] := by
  refine renders_get.before fun writer => ?_
  split
  · have hall := renders_forM (l := texts) (g := fun _ => []) fun comment =>
      renders_lines (commentLines comment)
    rwa [flatMap_nothing] at hall
  · exact renders_pure _

theorem renders_annotations (owner : String) (annotations : List Annotation) :
    Renders (Writer.annotations owner annotations) (attach owner annotations) :=
  renders_liftExcept (annotationsText_reports owner annotations)

/-- Between the items of a group stand lines only. -/
theorem renders_separated {write : γ → WriterM Unit} {g : γ → List Attachment}
    (h : ∀ c, Renders (write c) (g c)) (l : List γ) :
    Renders (separated write l) (l.flatMap g) := by
  induction l with
  | nil => exact renders_pure _
  | cons c rest ih =>
    cases rest with
    | nil =>
      rw [List.flatMap_singleton]
      exact h c
    | cons d rest => exact (h c).bind fun _ => (renders_line "").before fun _ => ih

theorem renders_group {write : γ → WriterM Unit} {g : γ → List Attachment}
    (h : ∀ c, Renders (write c) (g c)) (l : List γ) : Renders (group write l) (l.flatMap g) := by
  rw [group]
  cases l with
  | nil => exact renders_pure _
  | cons c rest => exact (renders_separated h _).then fun _ => renders_line ""

theorem renders_block {write : γ → WriterM Unit} {g : γ → List Attachment}
    (h : ∀ c, Renders (write c) (g c)) (l : List γ) : Renders (block write l) (l.flatMap g) := by
  rw [block]
  cases l with
  | nil => exact renders_pure _
  | cons c rest => exact (renders_forM h).then fun _ => renders_line ""

end Renders

/-! ## Definitions -/

theorem renders_namespaceLine (n : Namespace) : Renders (namespaceLine n) n.attachments := by
  refine (renders_comments n.comments).before fun _ => ?_
  exact (renders_annotations n.name n.annotations).then fun _ => renders_line _

theorem renders_includeLine (i : Import) : Renders (includeLine i) [] :=
  (renders_comments i.comments).before fun _ => renders_line _

theorem renders_constant (c : Constant) : Renders (constant c) [] :=
  (renders_comments c.comments).before fun _ => renders_line _

theorem renders_typedef (t : Typedef) : Renders (typedef t) t.attachments := by
  refine (renders_comments t.comments).before fun _ => ?_
  exact (renders_annotations t.name t.annotations).then fun _ => renders_line _

theorem renders_enumMember (separator : String) (m : EnumMember) :
    Renders (enumMember separator m) m.attachments := by
  refine (renders_comments m.comments).before fun _ => ?_
  exact (renders_annotations m.name m.annotations).then fun _ => renders_line _

theorem renders_enumMembers (members : List EnumMember) :
    Renders (enumMembers members) (members.flatMap EnumMember.attachments) := by
  induction members with
  | nil => exact renders_pure _
  | cons m rest ih =>
    cases rest with
    | nil =>
      rw [List.flatMap_singleton]
      exact renders_enumMember "" m
    | cons n rest => exact (renders_enumMember "," m).bind fun _ => ih

/-- What stands between braces is all that is left after the header. -/
theorem renders_braced {header : String} {body : WriterM Unit} {as : List Attachment}
    (h : Renders body as) :
    Renders (do line header; enter; body; leave; line "\x7d") as := by
  refine (renders_line header).before fun _ => (renders_modify _).before fun _ => ?_
  exact h.then fun _ => (renders_modify _).before fun _ => renders_line _

theorem renders_enumeration (e : Enumeration) : Renders (enumeration e) e.attachments := by
  refine (renders_comments e.comments).before fun _ => ?_
  refine (renders_annotations e.name e.annotations).bind fun _ => ?_
  exact renders_braced (renders_enumMembers e.members)

theorem renders_messageField (field : Field) : Renders (messageField field) field.attachments := by
  refine (renders_comments field.comments).before fun _ => ?_
  exact (renders_liftExcept (fieldText_reports _ _ field)).then fun _ => renders_line _

theorem renders_message (m : Message) : Renders (message m) m.attachments := by
  refine (renders_comments m.comments).before fun _ => ?_
  refine (renders_annotations m.name m.annotations).bind fun _ => ?_
  exact renders_braced (renders_forM renders_messageField)

theorem renders_function (separator : String) (f : ServiceFunction) :
    Renders (function separator f) f.attachments := by
  refine (renders_comments f.comments).before fun _ => renders_get.before fun writer => ?_
  exact (renders_liftExcept (functionText_reports writer.stems f)).then fun _ => renders_line _

theorem renders_functions (l : List ServiceFunction) :
    Renders (functions l) (l.flatMap ServiceFunction.attachments) := by
  induction l with
  | nil => exact renders_pure _
  | cons f rest ih =>
    cases rest with
    | nil =>
      rw [List.flatMap_singleton]
      exact renders_function "" f
    | cons g rest =>
      exact (renders_function "," f).bind fun _ => (renders_line "").before fun _ => ih

theorem renders_service (s : Service) : Renders (service s) s.attachments := by
  refine (renders_comments s.comments).before fun _ => ?_
  refine (renders_annotations s.name s.annotations).bind fun _ => ?_
  exact renders_braced (renders_functions s.functions)

/-! ## Files -/

theorem renders_file (f : File) : Renders (file f) f.attachments := by
  have himports := renders_block (g := fun _ => []) renders_includeLine f.imports
  have hconstants := renders_group (g := fun _ => []) renders_constant f.definitions.constants
  rw [flatMap_nothing] at himports hconstants
  simp only [File.attachments, List.append_assoc]
  refine (renders_modify _).before fun _ => ?_
  refine (renders_block renders_namespaceLine f.namespaces).bind fun _ => ?_
  refine himports.before fun _ => hconstants.before fun _ => ?_
  refine (renders_group renders_typedef f.definitions.typedefs).bind fun _ => ?_
  refine (renders_group renders_enumeration f.definitions.enums).bind fun _ => ?_
  refine (renders_group renders_message f.definitions.messages).bind fun _ => ?_
  refine (renders_group renders_service f.definitions.services).then fun _ => ?_
  exact renders_get.before fun writer => renders_pure writer.out

theorem writeAll_reports (files : List File) (writer : Writer) :
    Reports ((writer.writeAll files).mapM id) (files.flatMap File.attachments) := by
  induction files generalizing writer with
  | nil => exact reports_ok []
  | cons f rest ih =>
    rw [writeAll, List.mapM_cons, List.flatMap_cons]
    exact (renders_file f writer).bind fun _ => (ih _).map fun _ => reports_ok _

end Writer

theorem generate_reports (schema : Schema) (withComments : Bool) :
    Reports (generate schema withComments) schema.attachments :=
  (Writer.writeAll_reports schema.files _).map fun _ => reports_ok _

end RestThrift
