import Mathlib
import RestThrift.Proofs.Build
import RestThrift.Proofs.Rendering

/-!
# What a rendered file shows

A writer that ends without an error has only added to its text, and the text of each annotation and
of each function that it met is part of what was added. As with the reasons to stop, this is said
once for each way to combine programs, and then of the writer of each kind of definition.
-/
namespace RestThrift

open RestThrift.Convert (bind_eq_ok)

/-! ## Parts of a text -/

/-- Every piece has a text, and the text is part of the given one. -/
def Covers (text : String) (pieces : List (Except RenderError String)) : Prop :=
  ∀ piece ∈ pieces, ∃ part, piece = .ok part ∧ part.toList <:+: text.toList

/-- What is printed for an annotation. -/
def Attachment.piece (a : Attachment) : Except RenderError String :=
  annotationText a.owner a.annotation

section Covers

variable {α : Type} {text part other sep : String} {parts : List String}
  {pieces others : List (Except RenderError String)}

theorem covers_nil (text : String) : Covers text [] := fun _ h => absurd h List.not_mem_nil

theorem covers_append : Covers text (pieces ++ others) ↔ Covers text pieces ∧ Covers text others :=
  List.forall_mem_append

theorem covers_singleton {piece : Except RenderError String} (h : piece = .ok text) :
    Covers text [piece] :=
  List.forall_mem_singleton.mpr ⟨text, h, List.infix_refl _⟩

theorem Covers.of_within (h : Covers part pieces) (hinside : part.toList <:+: text.toList) :
    Covers text pieces := by
  intro piece hpiece
  obtain ⟨inner, hinner, hwithin⟩ := h piece hpiece
  exact ⟨inner, hinner, hwithin.trans hinside⟩

theorem Covers.before (h : Covers part pieces) (other : String) :
    Covers (other ++ part) pieces :=
  h.of_within ⟨other.toList, [], by simp⟩

theorem Covers.behind (h : Covers part pieces) (other : String) :
    Covers (part ++ other) pieces :=
  h.of_within ⟨[], other.toList, by simp⟩

theorem infix_intercalate (h : part ∈ parts) :
    part.toList <:+: (sep.intercalate parts).toList := by
  rw [String.toList_intercalate]
  induction parts with
  | nil => cases h
  | cons first rest ih =>
    cases rest with
    | nil =>
      obtain rfl := List.mem_singleton.mp h
      simp
    | cons second others =>
      rw [List.map_cons, List.map_cons, List.intercalate_cons_cons]
      rcases List.mem_cons.mp h with rfl | h
      · exact ⟨[], _, by rw [List.nil_append, List.append_assoc]⟩
      · exact (ih h).trans (List.suffix_append _ _).isInfix

theorem forall₂_of_mapM {f : α → Except RenderError String} {l : List α}
    (h : l.mapM f = .ok parts) : List.Forall₂ (fun a part => f a = .ok part) l parts := by
  induction l generalizing parts with
  | nil =>
    obtain rfl := Except.ok.inj h
    exact .nil
  | cons a rest ih =>
    simp only [List.mapM_cons, bind_eq_ok] at h
    obtain ⟨part, hpart, others, hothers, h⟩ := h
    obtain rfl := Except.ok.inj h
    exact .cons hpart (ih hothers)

/-- A list of parts covers what its parts cover. -/
theorem covers_intercalate {f : α → Except RenderError String} {l : List α}
    {g : α → List (Except RenderError String)} (h : l.mapM f = .ok parts)
    (hcovers : ∀ a part, f a = .ok part → Covers part (g a)) :
    Covers (sep.intercalate parts) (l.flatMap g) := by
  refine List.forall_mem_flatMap.mpr fun a ha => ?_
  obtain ⟨part, hpart, hf⟩ := Convert.exists_right_of_forall₂ (forall₂_of_mapM h) ha
  exact (hcovers a part hf).of_within (infix_intercalate hpart)

end Covers

/-! ## Pieces of a line -/

section Pieces

variable {owner keyword name text : String} {annotations : List Annotation} {field : Field}
  {stems : List String} {fields : List Field} {f : ServiceFunction}

theorem annotationsText_covers (h : annotationsText owner annotations = .ok text) :
    Covers text ((attach owner annotations).map Attachment.piece) := by
  rw [annotationsText] at h
  split at h
  · rename_i hempty
    rw [List.isEmpty_iff.mp hempty]
    exact covers_nil _
  · simp only [bind_eq_ok] at h
    obtain ⟨parts, hparts, h⟩ := h
    obtain rfl := Except.ok.inj h
    have hall : Covers (", ".intercalate parts) _ :=
      covers_intercalate hparts fun _ _ => covers_singleton
    rw [attach, List.map_map, List.map_eq_flatMap]
    exact (hall.before _).behind _

theorem fieldText_covers (h : fieldText keyword name field = .ok text) :
    Covers text (field.attachments.map Attachment.piece) := by
  obtain ⟨annotations, hannotations, h⟩ := bind_eq_ok.mp h
  obtain rfl := Except.ok.inj h
  exact (annotationsText_covers hannotations).before _

theorem parametersText_covers (h : parametersText stems fields = .ok text) :
    Covers text ((fields.flatMap Field.attachments).map Attachment.piece) := by
  obtain ⟨parts, hparts, h⟩ := bind_eq_ok.mp h
  obtain rfl := Except.ok.inj h
  rw [List.map_flatMap]
  exact covers_intercalate hparts fun _ _ => fieldText_covers

/-- What stands before the first list of a function's line. -/
def ServiceFunction.opening (f : ServiceFunction) : String :=
  (if f.oneway then "oneway " else "") ++ f.returnType.emit ++ " " ++ f.name

/-- Both lists of a function's line, and its annotations. The list of thrown fields is left out with
its parentheses where it is empty. -/
theorem exists_lists_of_functionText (h : functionText stems f = .ok text) :
    ∃ parameters opened thrown closed annotations,
      parametersText stems f.parameters = .ok parameters ∧
      parametersText stems f.throws = .ok thrown ∧
      annotationsText f.name f.annotations = .ok annotations ∧
      text = f.opening ++ "(" ++ parameters ++ ")" ++ opened ++ thrown ++ closed ++
        annotations := by
  simp only [functionText] at h
  by_cases hempty : f.throws.isEmpty = true
  · simp only [if_pos hempty, bind_eq_ok] at h
    obtain ⟨parameters, hparameters, _, ⟨⟩, annotations, hannotations, h⟩ := h
    obtain rfl := Except.ok.inj h
    refine ⟨parameters, "", "", "", annotations, hparameters, ?_, hannotations, ?_⟩
    · rw [List.isEmpty_iff.mp hempty]
      rfl
    · simp only [ServiceFunction.opening, String.append_empty]
  · simp only [if_neg hempty, bind_eq_ok] at h
    obtain ⟨parameters, hparameters, thrown, hthrown, _, ⟨⟩, annotations, hannotations, h⟩ := h
    obtain rfl := Except.ok.inj h
    refine ⟨parameters, " throws (", thrown, ")", annotations, hparameters, hthrown,
      hannotations, ?_⟩
    simp only [ServiceFunction.opening, String.append_assoc]

theorem functionText_covers (h : functionText stems f = .ok text) :
    Covers text (f.attachments.map Attachment.piece) := by
  obtain ⟨parameters, opened, thrown, closed, annotations, hparameters, hthrown,
    hannotations, rfl⟩ := exists_lists_of_functionText h
  rw [ServiceFunction.attachments, List.flatMap_append, List.map_append, List.map_append]
  refine covers_append.mpr ⟨covers_append.mpr ⟨?_, ?_⟩,
    (annotationsText_covers hannotations).before _⟩
  · have hlist := ((parametersText_covers hparameters).before (f.opening ++ "(")).behind ")"
    exact (((hlist.behind opened).behind thrown).behind closed).behind annotations
  · exact (((parametersText_covers hthrown).before _).behind closed).behind annotations

end Pieces

/-! ## Writers -/

/-- What is printed for a function, and for the annotations at it. -/
def ServiceFunction.pieces (stems : List String) (f : ServiceFunction) :
    List (Except RenderError String) :=
  functionText stems f :: f.attachments.map Attachment.piece

def Service.pieces (stems : List String) (s : Service) : List (Except RenderError String) :=
  (attach s.name s.annotations).map Attachment.piece ++
    s.functions.flatMap (ServiceFunction.pieces stems)

namespace Writer

section Shows

variable {α β γ : Type} {stems : List String} {x : WriterM α}
  {pieces others : List (Except RenderError String)} {writer final : Writer} {a : α} {b : β}

/-- A program that ends without an error keeps the stems, adds to the text, and covers the pieces
with what it adds. -/
def Shows (stems : List String) (x : WriterM α) (pieces : List (Except RenderError String)) :
    Prop :=
  ∀ writer a final, writer.stems = stems → x.run.run writer = (.ok a, final) →
    final.stems = stems ∧ ∃ added, final.out = writer.out ++ added ∧ Covers added pieces

theorem run_bind_eq_ok {f : α → WriterM β} : (x >>= f).run.run writer = (.ok b, final) ↔
    ∃ a next, x.run.run writer = (.ok a, next) ∧ (f a).run.run next = (.ok b, final) := by
  simp only [ExceptT.run_bind, StateT.run_bind]
  rcases x.run.run writer with ⟨error | a, next⟩
  · constructor
    · exact fun h => nomatch h
    · rintro ⟨_, _, h, -⟩
      exact nomatch h
  · constructor
    · exact fun h => ⟨a, next, rfl, h⟩
    · rintro ⟨a, next, ⟨⟩, h⟩
      exact h

theorem shows_pure (a : α) : Shows stems (pure a) [] := by
  rintro writer _ _ hstems ⟨⟩
  exact ⟨hstems, "", by simp, covers_nil _⟩

theorem Shows.bind {f : α → WriterM β} (hx : Shows stems x pieces)
    (hf : ∀ a, Shows stems (f a) others) : Shows stems (x >>= f) (pieces ++ others) := by
  intro writer b final hstems hrun
  obtain ⟨a, next, hfirst, hrest⟩ := run_bind_eq_ok.mp hrun
  obtain ⟨hnext, added, hout, hadded⟩ := hx writer a next hstems hfirst
  obtain ⟨hfinal, more, hout', hmore⟩ := hf a next b final hnext hrest
  refine ⟨hfinal, added ++ more, ?_, covers_append.mpr ⟨hadded.behind more, hmore.before added⟩⟩
  rw [hout', hout, String.append_assoc]

/-- What prints no piece may stand before anything. -/
theorem Shows.before {f : α → WriterM β} (hx : Shows stems x [])
    (hf : ∀ a, Shows stems (f a) pieces) : Shows stems (x >>= f) pieces := hx.bind hf

/-- What prints no piece may stand behind anything. -/
theorem Shows.then {f : α → WriterM β} (hx : Shows stems x pieces)
    (hf : ∀ a, Shows stems (f a) []) : Shows stems (x >>= f) pieces := by
  have hbind := hx.bind hf
  rwa [List.append_nil] at hbind

/-- What is asked of the writer holds its stems. -/
theorem shows_get_bind {f : Writer → WriterM β}
    (hf : ∀ writer, writer.stems = stems → Shows stems (f writer) pieces) :
    Shows stems (get >>= f) pieces := by
  intro writer b final hstems hrun
  obtain ⟨_, _, ⟨⟩, hrest⟩ := run_bind_eq_ok.mp hrun
  exact hf writer hstems writer b final hstems hrest

/-- A piece is printed behind a text that was made for it. -/
theorem shows_liftExcept_bind {x : Except RenderError α} {f : α → WriterM β}
    (hf : ∀ a, x = .ok a → Shows stems (f a) pieces) :
    Shows stems (liftExcept x >>= f) pieces := by
  intro writer b final hstems hrun
  obtain ⟨a, next, hx, hrest⟩ := run_bind_eq_ok.mp hrun
  cases x with
  | error e => cases hx
  | ok c =>
    cases hx
    exact hf _ rfl writer b final hstems hrest

theorem shows_line {text : String} (h : Covers text pieces) : Shows stems (line text) pieces := by
  rintro writer _ _ hstems ⟨⟩
  refine ⟨hstems, _, rfl, ?_⟩
  split
  · rename_i hempty
    rw [String.isEmpty_iff.mp hempty] at h
    exact h.before "\n"
  · exact (h.before _).behind "\n"

theorem shows_lines (texts : List String) : Shows stems (lines texts) [] := by
  induction texts with
  | nil => exact shows_pure _
  | cons text rest ih => exact (shows_line (covers_nil text)).before fun _ => ih

theorem shows_forM {l : List γ} {f : γ → WriterM PUnit}
    {g : γ → List (Except RenderError String)} (h : ∀ c, Shows stems (f c) (g c)) :
    Shows stems (l.forM f) (l.flatMap g) := by
  induction l with
  | nil => exact shows_pure _
  | cons c rest ih => exact (h c).bind fun _ => ih

theorem shows_comments (texts : List Comment) : Shows stems (comments texts) [] := by
  refine shows_get_bind fun writer _ => ?_
  split
  · induction texts with
    | nil => exact shows_pure _
    | cons comment rest ih => exact (shows_lines (commentLines comment)).before fun _ => ih
  · exact shows_pure _

/-- A change of the depth prints nothing. -/
theorem shows_enter : Shows stems enter [] := by
  rintro writer _ _ hstems ⟨⟩
  exact ⟨hstems, "", by simp, covers_nil _⟩

theorem shows_leave : Shows stems leave [] := by
  rintro writer _ _ hstems ⟨⟩
  exact ⟨hstems, "", by simp, covers_nil _⟩

/-- The line of a header shows the annotations that it was made of. -/
theorem shows_annotations_bind {owner : String} {annotations : List Annotation}
    {f : String → WriterM β}
    (hf : ∀ text, Covers text ((attach owner annotations).map Attachment.piece) →
      Shows stems (f text) pieces) :
    Shows stems (Writer.annotations owner annotations >>= f) pieces :=
  shows_liftExcept_bind fun text htext => hf text (annotationsText_covers htext)

/-- Between the items of a group stand lines only. -/
theorem shows_separated {write : γ → WriterM Unit} {g : γ → List (Except RenderError String)}
    (h : ∀ c, Shows stems (write c) (g c)) (l : List γ) :
    Shows stems (separated write l) (l.flatMap g) := by
  induction l with
  | nil => exact shows_pure _
  | cons c rest ih =>
    cases rest with
    | nil =>
      rw [List.flatMap_singleton]
      exact h c
    | cons d rest => exact (h c).bind fun _ => (shows_line (covers_nil "")).before fun _ => ih

theorem shows_group {write : γ → WriterM Unit} {g : γ → List (Except RenderError String)}
    (h : ∀ c, Shows stems (write c) (g c)) (l : List γ) :
    Shows stems (group write l) (l.flatMap g) := by
  rw [group]
  cases l with
  | nil => exact shows_pure _
  | cons c rest => exact (shows_separated h _).then fun _ => shows_line (covers_nil "")

theorem shows_block {write : γ → WriterM Unit} {g : γ → List (Except RenderError String)}
    (h : ∀ c, Shows stems (write c) (g c)) (l : List γ) :
    Shows stems (block write l) (l.flatMap g) := by
  rw [block]
  cases l with
  | nil => exact shows_pure _
  | cons c rest => exact (shows_forM h).then fun _ => shows_line (covers_nil "")

end Shows

/-! ## Definitions -/

section Definitions

variable {stems : List String}

theorem shows_namespaceLine (n : Namespace) :
    Shows stems (namespaceLine n) (n.attachments.map Attachment.piece) := by
  refine (shows_comments n.comments).before fun _ => ?_
  exact shows_annotations_bind fun text htext => shows_line (htext.before _)

theorem shows_includeLine (i : Import) : Shows stems (includeLine i) [] :=
  (shows_comments i.comments).before fun _ => shows_line (covers_nil _)

theorem shows_constant (c : Constant) : Shows stems (constant c) [] :=
  (shows_comments c.comments).before fun _ => shows_line (covers_nil _)

theorem shows_typedef (t : Typedef) :
    Shows stems (typedef t) (t.attachments.map Attachment.piece) := by
  refine (shows_comments t.comments).before fun _ => ?_
  exact shows_annotations_bind fun text htext => shows_line (htext.before _)

theorem shows_enumMember (separator : String) (m : EnumMember) :
    Shows stems (enumMember separator m) (m.attachments.map Attachment.piece) := by
  refine (shows_comments m.comments).before fun _ => ?_
  exact shows_annotations_bind fun text htext => shows_line ((htext.before _).behind separator)

theorem shows_enumMembers (members : List EnumMember) : Shows stems (enumMembers members)
    (members.flatMap fun m => m.attachments.map Attachment.piece) := by
  induction members with
  | nil => exact shows_pure _
  | cons m rest ih =>
    cases rest with
    | nil =>
      rw [List.flatMap_singleton]
      exact shows_enumMember "" m
    | cons n rest => exact (shows_enumMember "," m).bind fun _ => ih

/-- What stands between braces is printed behind the header. -/
theorem shows_braced {header : String} {body : WriterM Unit}
    {pieces inner : List (Except RenderError String)} (hheader : Covers header pieces)
    (hbody : Shows stems body inner) :
    Shows stems (do line header; enter; body; leave; line "\x7d") (pieces ++ inner) := by
  refine (shows_line hheader).bind fun _ => shows_enter.before fun _ => ?_
  exact hbody.then fun _ => shows_leave.before fun _ => shows_line (covers_nil _)

theorem shows_enumeration (e : Enumeration) :
    Shows stems (enumeration e) (e.attachments.map Attachment.piece) := by
  rw [Enumeration.attachments, List.map_append, List.map_flatMap]
  refine (shows_comments e.comments).before fun _ => shows_annotations_bind fun text htext => ?_
  exact shows_braced ((htext.before _).behind _) (shows_enumMembers e.members)

theorem shows_messageField (field : Field) :
    Shows stems (messageField field) (field.attachments.map Attachment.piece) := by
  refine (shows_comments field.comments).before fun _ => shows_liftExcept_bind fun text htext => ?_
  exact shows_line ((fieldText_covers htext).behind ",")

theorem shows_message (m : Message) :
    Shows stems (message m) (m.attachments.map Attachment.piece) := by
  rw [Message.attachments, List.map_append, List.map_flatMap]
  refine (shows_comments m.comments).before fun _ => shows_annotations_bind fun text htext => ?_
  exact shows_braced ((htext.before _).behind _) (shows_forM shows_messageField)

/-- The line of a function is made with the stems that the writer holds. -/
theorem shows_function (separator : String) (f : ServiceFunction) :
    Shows stems (function separator f) (f.pieces stems) := by
  refine (shows_comments f.comments).before fun _ => shows_get_bind fun writer hstems => ?_
  refine shows_liftExcept_bind fun text htext => shows_line ?_
  rw [hstems] at htext
  have hpieces : Covers text (f.pieces stems) :=
    covers_append.mpr ⟨covers_singleton htext, functionText_covers htext⟩
  exact hpieces.behind separator

theorem shows_functions (l : List ServiceFunction) :
    Shows stems (functions l) (l.flatMap (ServiceFunction.pieces stems)) := by
  induction l with
  | nil => exact shows_pure _
  | cons f rest ih =>
    cases rest with
    | nil =>
      rw [List.flatMap_singleton]
      exact shows_function "" f
    | cons g rest =>
      exact (shows_function "," f).bind fun _ => (shows_line (covers_nil "")).before fun _ => ih

theorem shows_service (s : Service) : Shows stems (service s) (s.pieces stems) := by
  refine (shows_comments s.comments).before fun _ => shows_annotations_bind fun text htext => ?_
  exact shows_braced ((htext.before _).behind _) (shows_functions s.functions)

end Definitions

/-! ## Files -/

end Writer

/-- The stems of the included files, as a writer of the file holds them. -/
def File.importStems (f : File) : List String := f.imports.map fun i => Path.stem i.path

def File.pieces (f : File) : List (Except RenderError String) :=
  f.namespaces.flatMap (fun n => n.attachments.map Attachment.piece) ++
    f.definitions.typedefs.flatMap (fun t => t.attachments.map Attachment.piece) ++
    f.definitions.enums.flatMap (fun e => e.attachments.map Attachment.piece) ++
    f.definitions.messages.flatMap (fun m => m.attachments.map Attachment.piece) ++
    f.definitions.services.flatMap (Service.pieces f.importStems)

namespace Writer

section Files

variable {α : Type} {stems : List String} {x : WriterM α} {f : α → WriterM String}
  {pieces others : List (Except RenderError String)}

/-- A program whose result is the text that the writer holds in the end. -/
def Prints (stems : List String) (x : WriterM String) (pieces : List (Except RenderError String)) :
    Prop :=
  ∀ writer text final, writer.stems = stems → x.run.run writer = (.ok text, final) →
    ∃ added, text = writer.out ++ added ∧ Covers added pieces

theorem prints_out : Prints stems (do return (← get).out) [] := by
  rintro writer _ _ - ⟨⟩
  exact ⟨"", by simp, covers_nil _⟩

theorem Shows.prints (hx : Shows stems x pieces) (hf : ∀ a, Prints stems (f a) others) :
    Prints stems (x >>= f) (pieces ++ others) := by
  intro writer text final hstems hrun
  obtain ⟨a, next, hfirst, hrest⟩ := run_bind_eq_ok.mp hrun
  obtain ⟨hnext, added, hout, hadded⟩ := hx writer a next hstems hfirst
  obtain ⟨more, htext, hmore⟩ := hf a next text final hnext hrest
  refine ⟨added ++ more, ?_, covers_append.mpr ⟨hadded.behind more, hmore.before added⟩⟩
  rw [htext, hout, String.append_assoc]

theorem Shows.prints_then (hx : Shows stems x pieces) (hf : ∀ a, Prints stems (f a) []) :
    Prints stems (x >>= f) pieces := by
  have hprints := hx.prints hf
  rwa [List.append_nil] at hprints

theorem Shows.prints_behind (hx : Shows stems x []) (hf : ∀ a, Prints stems (f a) pieces) :
    Prints stems (x >>= f) pieces := hx.prints hf

theorem Prints.covers {x : WriterM String} {writer final : Writer} {text : String}
    (h : Prints stems x pieces) (hstems : writer.stems = stems)
    (hrun : x.run.run writer = (.ok text, final)) : Covers text pieces := by
  obtain ⟨added, rfl, hadded⟩ := h writer text final hstems hrun
  exact hadded.before writer.out

end Files

/-- A rendered file shows the text of each annotation and of each function. -/
theorem write_covers {writer : Writer} {f : File} {text : String}
    (h : (writer.write f).1 = .ok text) : Covers text f.pieces := by
  have himports : Shows f.importStems (block includeLine f.imports)
      (f.imports.flatMap fun _ => []) := shows_block shows_includeLine f.imports
  have hconstants : Shows f.importStems (group constant f.definitions.constants)
      (f.definitions.constants.flatMap fun _ => []) :=
    shows_group shows_constant f.definitions.constants
  rw [flatMap_nothing] at himports hconstants
  obtain ⟨_, start, hstart, hrest⟩ := run_bind_eq_ok.mp (Prod.ext h rfl)
  cases hstart
  refine Prints.covers ?_ rfl hrest
  simp only [File.pieces, List.append_assoc]
  refine (shows_block shows_namespaceLine f.namespaces).prints fun _ => ?_
  refine himports.prints_behind fun _ => hconstants.prints_behind fun _ => ?_
  refine (shows_group shows_typedef f.definitions.typedefs).prints fun _ => ?_
  refine (shows_group shows_enumeration f.definitions.enums).prints fun _ => ?_
  refine (shows_group shows_message f.definitions.messages).prints fun _ => ?_
  exact (shows_group shows_service f.definitions.services).prints_then fun _ => prints_out

end Writer

/-! ## Pieces of a file -/

section FilePieces

variable {f : File} {a : Attachment} {s : Service} {fn : ServiceFunction}

theorem ServiceFunction.piece_mem {stems : List String} (h : a ∈ fn.attachments) :
    a.piece ∈ fn.pieces stems :=
  List.mem_cons_of_mem _ (List.mem_map_of_mem h)

theorem Service.piece_mem {stems : List String} (h : a ∈ s.attachments) :
    a.piece ∈ s.pieces stems := by
  rcases List.mem_append.mp h with h | h
  · exact List.mem_append_left _ (List.mem_map_of_mem h)
  · obtain ⟨fn, hfn, ha⟩ := List.mem_flatMap.mp h
    exact List.mem_append_right _ (List.mem_flatMap_of_mem hfn (ServiceFunction.piece_mem ha))

theorem File.piece_mem (h : a ∈ f.attachments) : a.piece ∈ f.pieces := by
  have hservices : a ∈ f.definitions.services.flatMap Service.attachments →
      a.piece ∈ f.definitions.services.flatMap (Service.pieces f.importStems) := by
    intro h
    obtain ⟨s, hs, ha⟩ := List.mem_flatMap.mp h
    exact List.mem_flatMap_of_mem hs (Service.piece_mem ha)
  simp only [File.attachments, List.mem_append] at h
  simp only [File.pieces, ← List.map_flatMap, List.mem_append]
  exact h.imp (Or.imp (Or.imp (Or.imp List.mem_map_of_mem List.mem_map_of_mem)
    List.mem_map_of_mem) List.mem_map_of_mem) hservices

theorem File.functionText_mem (hs : s ∈ f.definitions.services) (hfn : fn ∈ s.functions) :
    functionText f.importStems fn ∈ f.pieces :=
  List.mem_append_right _ (List.mem_flatMap_of_mem hs
    (List.mem_append_right _ (List.mem_flatMap_of_mem hfn List.mem_cons_self)))

end FilePieces

end RestThrift
