import Mathlib
import RestThrift.Proofs.Reading
import RestThrift.Proofs.Rendering
import RestThrift.Proofs.UniqueNames
import RestThrift.Source.Lower

/-!
# Annotations of finished schemas

Converting a document and lowering parsed sources make annotations of quoted texts only, so that
what they give can be rendered.
-/
namespace RestThrift

/-! ## Quoted texts -/

section Texts

open Text

variable {c : Char} {rest : List Char}

/-- A character is read back from what is written for it, whatever follows. -/
theorem unquoteBody_quoteChar_append :
    unquoteBody (quoteChar c ++ rest) = c :: unquoteBody rest := by
  rw [quoteChar]
  split_ifs with hquote hbackslash hfeed hreturn htab
  · simp [hquote, unquoteBody, unescape]
  · simp [hbackslash, unquoteBody, unescape]
  · simp [hfeed, unquoteBody, unescape]
  · simp [hreturn, unquoteBody, unescape]
  · simp [htab, unquoteBody, unescape]
  · simp [hbackslash, unquoteBody]

theorem unquoteBody_flatMap_quoteChar (raw : List Char) :
    unquoteBody (raw.flatMap quoteChar) = raw := by
  induction raw with
  | nil => rfl
  | cons c rest ih => rw [List.flatMap_cons, unquoteBody_quoteChar_append, ih]

theorem unquote?_quote (raw : List Char) : unquote? (quote raw) = some raw := by
  have hbody : literalBody? (quote raw) = some (raw.flatMap quoteChar) := by
    simp [literalBody?, quote]
  rw [unquote?, hbody, Option.map_some, unquoteBody_flatMap_quoteChar]

theorem stringValue_quoted (raw : String) : (Literal.quoted raw).stringValue = .ok raw := by
  simp only [Literal.quoted, Literal.stringValue, String.toList_ofList, unquote?_quote,
    String.ofList_toList]

end Texts

theorem Attachment.fault?_eq_none {a : Attachment} (h : a.annotation.Quotes) : a.fault? = none := by
  rw [fault?]
  split
  · rfl
  · rename_i value hvalue
    obtain ⟨raw, rfl⟩ := h value hvalue
    rw [stringValue_quoted]

theorem Attachment.fault?_eq_some {a : Attachment} {error : RenderError} :
    a.fault? = some error ↔ ∃ value cause, a.annotation.value = some value ∧
      value.stringValue = .error cause ∧
      error = .malformedValue a.annotation.name a.owner cause := by
  rw [fault?]
  cases a.annotation.value with
  | none => simp
  | some value =>
    simp only [Option.some.injEq, exists_and_left, exists_eq_left']
    cases value.stringValue with
    | ok raw => simp
    | error cause => simp [eq_comm]

/-- Where all annotations quote, there is no reason to stop. -/
theorem Reports.exists_ok {α : Type} {x : Except RenderError α} {as : List Attachment}
    (h : Reports x as) (hquoting : Quoting as) : ∃ a, x = .ok a := by
  have hnone : as.findSome? Attachment.fault? = none :=
    List.findSome?_eq_none_iff.mpr fun a ha => Attachment.fault?_eq_none (hquoting a ha)
  rwa [Reports, hnone] at h

/-! ## Files by their definitions -/

namespace Definitions

variable {d d' : Definitions} {P : Definition → Prop}

theorem forall_mem_entries : (∀ definition ∈ d.entries, P definition) ↔
    (∀ m ∈ d.messages, P (.message m)) ∧ (∀ e ∈ d.enums, P (.enumeration e)) ∧
      (∀ t ∈ d.typedefs, P (.typedef t)) ∧ (∀ c ∈ d.constants, P (.constant c)) ∧
      ∀ s ∈ d.services, P (.service s) := by
  simp only [entries, List.forall_mem_append, List.forall_mem_map, and_assoc]

theorem Rearranges.mem_entries (h : d'.Rearranges d) {definition : Definition} :
    definition ∈ d'.entries ↔ definition ∈ d.entries := by
  simp only [entries, List.mem_append, List.mem_map, h.messages.mem_iff, h.enums.mem_iff,
    h.typedefs.mem_iff, h.constants.mem_iff, h.services.mem_iff]

theorem mem_of_mem_ofEntries {l : List Definition} :
    ∀ definition ∈ (ofEntries l).entries, definition ∈ l := by
  refine forall_mem_entries.mpr ⟨?_, ?_, ?_, ?_, ?_⟩ <;> intro inner hinner <;>
    obtain ⟨definition, hmem, heq⟩ := List.mem_filterMap.mp hinner <;>
    cases definition <;> cases heq <;> exact hmem

end Definitions

theorem File.quoting_iff {f : File} : Quoting f.attachments ↔
    (∀ n ∈ f.namespaces, Quoting n.attachments) ∧
      ∀ definition ∈ f.definitions.entries, Quoting definition.attachments := by
  rw [Definitions.forall_mem_entries]
  simp only [File.attachments, quoting_append, quoting_flatMap, Definition.attachments]
  have hconstants : ∀ c ∈ f.definitions.constants, Quoting [] := fun _ _ => quoting_nil
  tauto

theorem File.quoting_sorted {f : File} (h : Quoting f.attachments) :
    Quoting f.sorted.attachments := by
  obtain ⟨hnamespaces, hdefinitions⟩ := File.quoting_iff.mp h
  refine File.quoting_iff.mpr ⟨hnamespaces, fun definition hmem => ?_⟩
  exact hdefinitions definition (f.definitions.sorted_rearranges.mem_entries.mp hmem)

theorem Schema.quoting_sorted {s : Schema} (h : Quoting s.attachments) :
    Quoting s.sorted.attachments := by
  refine quoting_flatMap.mpr fun f hf => ?_
  obtain ⟨plain, hplain, rfl⟩ := List.mem_map.mp hf
  exact File.quoting_sorted (quoting_flatMap.mp h plain hplain)

theorem ServiceFunction.quoting_iff {f : ServiceFunction} : Quoting f.attachments ↔
    (∀ field ∈ f.parameters, Quoting field.attachments) ∧
      (∀ field ∈ f.throws, Quoting field.attachments) ∧ ∀ a ∈ f.annotations, a.Quotes := by
  simp only [ServiceFunction.attachments, quoting_append, quoting_flatMap, quoting_attach,
    List.forall_mem_append, and_assoc]

/-! ## Converted documents -/

namespace Convert

variable {plan : Plan} {stated : Api.Schema → Prop} {service : String} {answers : List Answer}
  {w : Workspace} {schema : Schema}

theorem Answer.Holds.quoting {a : Answer} (h : a.Holds plan service w) :
    Quoting a.function.attachments := by
  refine ServiceFunction.quoting_iff.mpr ⟨?_, fun field hfield => ?_, ?_⟩
  · rw [h.parameters]
    exact List.forall_mem_singleton.mpr quoting_nil
  · obtain ⟨entry, -, hthrown⟩ := exists_left_of_forall₂ h.throws hfield
    rw [Field.attachments, hthrown.bare]
    exact quoting_nil
  · rw [h.annotations]
    exact List.forall_mem_singleton.mpr <| Annotation.quotes_quoted _ _

theorem Finished.quoting_service (h : Finished plan stated service answers w schema) {file : File}
    (hfile : file ∈ schema.files) {s : Service} (hs : s ∈ file.definitions.services) :
    Quoting s.attachments := by
  rw [h.services_eq hfile, servicesIn, serviceOf] at hs
  split at hs
  · split at hs
    · simp at hs
    · obtain rfl := List.mem_singleton.mp hs
      refine quoting_append.mpr ⟨quoting_nil, quoting_flatMap.mpr fun f hf => ?_⟩
      obtain ⟨a, ha, rfl⟩ := List.mem_map.mp hf
      exact (h.holds a ha).quoting
  · simp at hs

theorem Finished.quoting (h : Finished plan stated service answers w schema) :
    Quoting schema.attachments := by
  refine quoting_flatMap.mpr fun file hfile => ?_
  have htypes := (h.coherent.sound file.path).quoting
  refine File.quoting_iff.mpr ⟨fun n hn => ?_, ?_⟩
  · rw [Namespace.attachments, h.namespaces file hfile n hn]
    exact quoting_nil
  · have hmem : ∀ definition ∈ file.definitions.types, Quoting definition.attachments :=
      fun definition hd => htypes definition ((h.types_perm hfile).mem_iff.mp hd)
    obtain ⟨hmessages, henums, htypedefs⟩ := Definitions.forall_mem_types.mp hmem
    exact Definitions.forall_mem_entries.mpr ⟨hmessages, henums, htypedefs,
      fun _ _ => quoting_nil, fun s hs => h.quoting_service hfile hs⟩

theorem convertDocument_quoting {file : String} {bytes : List UInt8} {options : Options}
    (h : convertDocument file bytes options = .ok schema) : Quoting schema.attachments := by
  obtain ⟨document, plan, answers, w, -, -, -, -, hfinished⟩ := convertDocument_finished h
  exact hfinished.quoting

end Convert

/-! ## Lowered sources -/

open RestThrift.Convert (bind_eq_ok map_eq_ok mapM_keeps)

namespace Source

theorem quotes_annotationsOf {nodes : List AnnotationNode} :
    ∀ a ∈ annotationsOf nodes, a.Quotes := by
  intro a ha value hvalue
  obtain ⟨node, -, rfl⟩ := List.mem_map.mp ha
  obtain ⟨raw, -, rfl⟩ := Option.map_eq_some_iff.mp hvalue
  exact ⟨raw, rfl⟩

theorem quoting_annotationsOf {owner : String} {nodes : List AnnotationNode} :
    Quoting (attach owner (annotationsOf nodes)) := quoting_attach.mpr quotes_annotationsOf

namespace Site

variable {site : Site}

theorem quoting_field {id : Int} {node : FieldNode} {field : Field}
    (h : site.field id node = .ok field) : Quoting field.attachments := by
  simp only [Site.field] at h
  split at h
  · obtain ⟨default, -, h⟩ := bind_eq_ok.mp h
    obtain rfl := Except.ok.inj h
    exact quoting_annotationsOf
  · obtain rfl := Except.ok.inj h
    exact quoting_annotationsOf

theorem quoting_fieldsFrom {last : Int} {nodes : List FieldNode} {fields : List Field}
    (h : site.fieldsFrom last nodes = .ok fields) :
    ∀ field ∈ fields, Quoting field.attachments := by
  induction nodes generalizing last fields with
  | nil =>
    obtain rfl := Except.ok.inj h
    exact fun _ h => absurd h List.not_mem_nil
  | cons node rest ih =>
    simp only [fieldsFrom, bind_eq_ok] at h
    obtain ⟨field, hfield, others, hothers, h⟩ := h
    obtain rfl := Except.ok.inj h
    exact List.forall_mem_cons.mpr ⟨quoting_field hfield, ih hothers⟩

theorem quoting_message {kind : MessageKind} {node : StructNode} {m : Message}
    (h : site.message kind node = .ok m) : Quoting m.attachments := by
  simp only [message, bind_eq_ok] at h
  obtain ⟨fields, hfields, content, -, h⟩ := h
  obtain rfl := Except.ok.inj h
  exact quoting_append.mpr
    ⟨quoting_annotationsOf, quoting_flatMap.mpr (quoting_fieldsFrom hfields)⟩

theorem quoting_members {next : Int} {nodes : List EnumValueNode} :
    ∀ m ∈ members next nodes, Quoting m.attachments := by
  induction nodes generalizing next with
  | nil => exact fun _ h => absurd h List.not_mem_nil
  | cons node rest ih => exact List.forall_mem_cons.mpr ⟨quoting_annotationsOf, ih⟩

theorem quoting_function {service : String} {node : FunctionNode} {f : ServiceFunction}
    (h : site.function service node = .ok f) : Quoting f.attachments := by
  simp only [function, bind_eq_ok] at h
  obtain ⟨parameters, hparameters, throws, hthrows, h⟩ := h
  obtain rfl := Except.ok.inj h
  exact ServiceFunction.quoting_iff.mpr
    ⟨quoting_fieldsFrom hparameters, quoting_fieldsFrom hthrows, quotes_annotationsOf⟩

theorem quoting_service {node : ServiceNode} {s : Service} (h : site.service node = .ok s) :
    Quoting s.attachments := by
  simp only [service, bind_eq_ok] at h
  obtain ⟨functions, hfunctions, content, -, h⟩ := h
  obtain rfl := Except.ok.inj h
  exact quoting_append.mpr ⟨quoting_annotationsOf, quoting_flatMap.mpr
    (mapM_keeps (fun _ _ _ hf => quoting_function hf) hfunctions)⟩

theorem quoting_enumeration {node : EnumNode} {e : Enumeration}
    (h : site.enumeration node = .ok e) : Quoting e.attachments := by
  simp only [enumeration, bind_eq_ok] at h
  obtain ⟨content, -, h⟩ := h
  obtain rfl := Except.ok.inj h
  exact quoting_append.mpr ⟨quoting_annotationsOf, quoting_flatMap.mpr quoting_members⟩

theorem quoting_typedef {node : TypedefNode} {t : Typedef} (h : site.typedef node = .ok t) :
    Quoting t.attachments := by
  simp only [typedef, bind_eq_ok] at h
  obtain ⟨content, -, h⟩ := h
  obtain rfl := Except.ok.inj h
  exact quoting_annotationsOf

theorem quoting_definition {node : DefinitionNode} {d : Definition}
    (h : site.definition node = .ok d) : Quoting d.attachments := by
  cases node <;> obtain ⟨inner, hinner, rfl⟩ := map_eq_ok.mp h
  case message => exact quoting_message hinner
  case enumeration => exact quoting_enumeration hinner
  case constant => exact quoting_nil
  case typedef => exact quoting_typedef hinner
  case service => exact quoting_service hinner

theorem quoting_file {document : Document} {f : File} (h : site.file document = .ok f) :
    Quoting f.attachments := by
  simp only [Site.file, bind_eq_ok] at h
  obtain ⟨definitions, hdefinitions, h⟩ := h
  obtain rfl := Except.ok.inj h
  have hall := mapM_keeps (fun _ _ _ hd => quoting_definition hd) hdefinitions
  refine File.quoting_iff.mpr ⟨fun n hn => ?_, fun d hd => ?_⟩
  · obtain ⟨node, -, rfl⟩ := List.mem_map.mp hn
    exact quoting_annotationsOf
  · exact hall d (Definitions.mem_of_mem_ofEntries d hd)

end Site

theorem lowerProject_quoting {locate : Locator} {project : Project} {sort : Bool} {schema : Schema}
    (h : lowerProject locate project sort = .ok schema) : Quoting schema.attachments := by
  simp only [lowerProject, bind_eq_ok] at h
  obtain ⟨files, hfiles, h⟩ := h
  have hquoting : Quoting (Schema.attachments { files }) :=
    quoting_flatMap.mpr (mapM_keeps (fun _ _ _ hf => Site.quoting_file hf) hfiles)
  obtain rfl := Except.ok.inj h
  split
  · exact Schema.quoting_sorted hquoting
  · exact hquoting

end Source

/-! ## Rendering -/

theorem convertSpec_eq_error_iff {file : String} {bytes : List UInt8} {options : Options}
    {error : ConversionError} : convertSpec file bytes options = .error error ↔
      convertDocument file bytes options = .error error := by
  rw [convertSpec]
  cases hschema : convertDocument file bytes options with
  | error cause => simp [bind, Except.bind]
  | ok schema =>
    obtain ⟨texts, htexts⟩ := (generate_reports schema (!options.noComments)).exists_ok
      (Convert.convertDocument_quoting hschema)
    simp [htexts, bind, Except.bind, pure, Except.pure]

/-- The error is that of the first annotation whose value is no quoted string. -/
theorem generate_eq_error_iff {schema : Schema} {withComments : Bool} {error : RenderError} :
    generate schema withComments = .error error ↔
      ∃ before a after, schema.attachments = before ++ a :: after ∧
        (∀ b ∈ before, b.fault? = none) ∧ a.fault? = some error := by
  rw [(generate_reports schema withComments).error_iff, List.findSome?_eq_some_iff]
  tauto

theorem generate_fails_iff {schema : Schema} {withComments : Bool} :
    (∃ error, generate schema withComments = .error error) ↔
      ∃ a ∈ schema.attachments, ∃ error, a.fault? = some error := by
  simp only [(generate_reports schema withComments).error_iff, ← Option.isSome_iff_exists,
    List.findSome?_isSome_iff]

/-- Rendering fails just where a value is no quoted string, and the error names the first such
annotation with its owner. Schemas that are made of documents or of parsed sources have no such
annotation. -/
theorem generate_fails_on_first_malformed :
    (∀ schema withComments, (∃ error, generate schema withComments = .error error) ↔
      ∃ a ∈ schema.attachments, ∃ value cause, a.annotation.value = some value ∧
        value.stringValue = .error cause) ∧
    (∀ schema withComments error, generate schema withComments = .error error ↔
      ∃ before a after, schema.attachments = before ++ a :: after ∧
        (∀ b ∈ before, b.fault? = none) ∧
        ∃ value cause, a.annotation.value = some value ∧ value.stringValue = .error cause ∧
          error = .malformedValue a.annotation.name a.owner cause) ∧
    (∀ file bytes options schema withComments, convertDocument file bytes options = .ok schema →
      ∃ texts, generate schema withComments = .ok texts) ∧
    (∀ locate project sort schema withComments,
      Source.lowerProject locate project sort = .ok schema →
      ∃ texts, generate schema withComments = .ok texts) ∧
    ∀ file bytes options error, convertSpec file bytes options = .error error ↔
      convertDocument file bytes options = .error error := by
  refine ⟨fun schema withComments => ?_, fun schema withComments error => ?_,
    fun file bytes options schema withComments h => ?_,
    fun locate project sort schema withComments h => ?_, fun _ _ _ _ => convertSpec_eq_error_iff⟩
  · rw [generate_fails_iff]
    simp only [Attachment.fault?_eq_some]
    constructor
    · rintro ⟨a, ha, -, value, cause, hvalue, hcause, -⟩
      exact ⟨a, ha, value, cause, hvalue, hcause⟩
    · rintro ⟨a, ha, value, cause, hvalue, hcause⟩
      exact ⟨a, ha, _, value, cause, hvalue, hcause, rfl⟩
  · simp only [generate_eq_error_iff, Attachment.fault?_eq_some]
  · exact (generate_reports schema withComments).exists_ok (Convert.convertDocument_quoting h)
  · exact (generate_reports schema withComments).exists_ok (Source.lowerProject_quoting h)

/-- A message and a member of an enumeration whose annotations quote no text. -/
def misquotedSchema : Schema :=
  { files := [{ path := "pets.thrift", definitions := {
      messages := [{ name := "Pet", fqn := "pets.Pet"
                     annotations := [{ name := "size", value := some (.int 3) }] }]
      enums := [{ name := "Kind", fqn := "pets.Kind", annotations := [.quoted "label" "kind"]
                  members := [{ name := "CAT", value := 0
                                annotations := [{ name := "rank", value := some (.text "high") }] }]
                }] } }] }

/-- A struct with an annotation for the header and one without a value for the field. -/
def petSources : Source.Project :=
  [("pets.thrift", { document := { definitions := [.message .struct {
      name := "Pet", annotations := [{ name := "api", value := some "say \"pet\"" }]
      fields := [{ name := "name", type := .name "string", annotations := [{ name := "key" }] }]
    }] } })]

theorem petSources_lower :
    ∃ schema, Source.lowerProject petSources.locate petSources true = .ok schema := by
  refine exists_of_isOk ?_
  decide +kernel

theorem misquotedSchema_fails_on_first_malformed :
    generate misquotedSchema true =
        .error (.malformedValue "rank" "CAT" (.notQuoted (.text "high"))) ∧
      (∃ schema, convertDocument "pets.yaml" petDocument { policy := .strict } = .ok schema ∧
        ∃ texts, generate schema true = .ok texts) ∧
      ∃ schema, Source.lowerProject petSources.locate petSources true = .ok schema ∧
        ∃ texts, generate schema true = .ok texts := by
  obtain ⟨-, hfirst, hdocument, hproject, -⟩ := generate_fails_on_first_malformed
  refine ⟨?_, ?_, ?_⟩
  · -- The enumeration is written before the message, its header before its member.
    refine (hfirst misquotedSchema true _).mpr
      ⟨[⟨"Kind", .quoted "label" "kind"⟩],
        ⟨"CAT", { name := "rank", value := some (.text "high") }⟩,
        [⟨"Pet", { name := "size", value := some (.int 3) }⟩], rfl, ?_, _, _, rfl, rfl, rfl⟩
    exact List.forall_mem_singleton.mpr
      (Attachment.fault?_eq_none <| Annotation.quotes_quoted _ _)
  · obtain ⟨schema, h⟩ := petDocument_converts
    exact ⟨schema, h, hdocument _ _ _ _ true h⟩
  · obtain ⟨schema, h⟩ := petSources_lower
    exact ⟨schema, h, hproject _ _ _ _ true h⟩

end RestThrift
