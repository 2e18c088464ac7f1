import Mathlib
import RestThrift.Proofs.Contents
import RestThrift.Proofs.InlineStructs

/-!
# Comments of named schemas

An enumeration and a typedef are documented by the description of their own schema. A struct takes
the first description that is not empty of all that its schema is composed of, where members stand
before the schema itself. So a member that has a description takes the place of the schema's own
one.
-/
namespace RestThrift

def Definition.comments : Definition → List Comment
  | .service s => s.comments
  | .function f => f.comments
  | .message m => m.comments
  | .enumeration e => e.comments
  | .constant c => c.comments
  | .typedef t => t.comments

namespace Convert

open Workspace

variable {plan : Plan} {w w' : Workspace} {g : Glossary} {key name text : String}
  {s object : Api.Schema} {stops : List Stop} {d : Definition}

/-! ## Descriptions of compositions -/

/-- The first description in an expansion that is not empty. -/
def firstDescription (stops : List Stop) : Option String :=
  ((leavesOf stops).filterMap Api.Schema.description).find? fun text => !text.isEmpty

theorem firstDescription_append (first second : List Stop) :
    firstDescription (first ++ second) =
      (firstDescription first).or (firstDescription second) := by
  simp only [firstDescription, leavesOf, List.filterMap_append, List.find?_append]

theorem description_of_effectiveObject (h : g.effectiveObject s = .ok object) :
    ∃ stops, g.Expands [] [s] stops ∧ object.description = firstDescription stops := by
  obtain ⟨stops, hexpands, rfl⟩ := effectiveObject_eq_ok h
  exact ⟨stops, hexpands, (mergeOf_foldl _).description⟩

/-- A composition comes last in its own expansion. -/
theorem firstDescription_composed (h : g.Expands [] [s] stops) (hreference : s.reference = none)
    (hdescription : s.description = some text) (htext : text.isEmpty = false) :
    ∃ inner, g.Expands [] s.parts inner ∧
      firstDescription stops = some ((firstDescription inner).getD text) := by
  cases h with
  | again hrefers _ _ | dangling hrefers _ _ _ | target hrefers _ _ _ _ =>
    cases hreference.symm.trans hrefers
  | @composed _ _ _ inner stops _ hinner hrest =>
    cases hrest with
    | nil =>
      have hself : firstDescription [.leaf s] = some text := by
        simp [firstDescription, leavesOf, Stop.leaf?, hdescription, htext]
      refine ⟨inner, hinner, ?_⟩
      rw [firstDescription_append, hself]
      cases firstDescription inner <;> rfl

/-! ## Comments of definitions -/

/-- How the definition of a named schema is documented: an enumeration and a typedef by the
description of the schema, a struct by the first description in its expansion. -/
inductive Glossary.Documents (g : Glossary) (s : Api.Schema) : Definition → Prop
  | enumeration {e : Enumeration} (hchoices : s.choices ≠ [])
      (hcomments : e.comments = describe s.description) : Documents g s (.enumeration e)
  | typedef {t : Typedef} (hchoices : s.choices = []) (halias : s.isAlias = true)
      (hcomments : t.comments = describe s.description) : Documents g s (.typedef t)
  | message {m : Message} {stops : List Stop} (hchoices : s.choices = [])
      (halias : s.isAlias = false) (hexpands : g.Expands [] [s] stops)
      (hcomments : m.comments = describe (firstDescription stops)) : Documents g s (.message m)

/-- No member speaks for the schema: its definition is no struct, or the first description among its
members that is not empty reads like its own one. -/
def Glossary.SpeaksForItself (g : Glossary) (s : Api.Schema) (text : String) (d : Definition) :
    Prop :=
  ∀ m inner other, d = .message m → g.Expands [] s.parts inner →
    firstDescription inner = some other → Comment.ofDescription other = Comment.ofDescription text

theorem isEmpty_eq_false_of_trim (h : Text.trim text.toList ≠ []) : text.isEmpty = false := by
  cases hempty : text.isEmpty with
  | false => rfl
  | true =>
    rw [String.isEmpty_iff] at hempty
    exact absurd (hempty ▸ rfl) h

/-- A description that is not blank is the comment of the definition exactly if no member speaks for
the schema. -/
theorem Glossary.Documents.eq_iff (h : g.Documents s d) (hreference : s.reference = none)
    (hdescription : s.description = some text) (htext : Text.trim text.toList ≠ []) :
    d.comments = Comment.ofDescription text ↔ g.SpeaksForItself s text d := by
  cases h with
  | enumeration _ hcomments | typedef _ _ hcomments =>
    have hown : describe s.description = Comment.ofDescription text := by rw [hdescription]; rfl
    exact iff_of_true (hcomments.trans hown) (fun _ _ _ hm => nomatch hm)
  | @message m stops _ _ hexpands hcomments =>
    obtain ⟨inner, hinner, hfirst⟩ := firstDescription_composed hexpands hreference hdescription
      (isEmpty_eq_false_of_trim htext)
    have hmembers : g.SpeaksForItself s text (.message m) ↔
        ∀ other, firstDescription inner = some other →
          Comment.ofDescription other = Comment.ofDescription text := by
      constructor
      · exact fun h other => h m inner other rfl hinner
      · rintro h m' inner' other - hinner'
        obtain rfl := hinner.unique hinner'
        exact h other
    rw [Definition.comments, hcomments, hfirst, hmembers]
    cases firstDescription inner with
    | none => exact iff_of_true rfl (by simp)
    | some other => simp [describe]

/-- The definition of a named schema is documented. -/
theorem define_documents (h : Runs (define plan key name s) w () w') :
    ∃ d ∈ (w'.definitions (plan.fileOf key)).types, d.name = name ∧
      plan.glossary.Documents s d := by
  rcases define_runs h with ⟨hchoices, rfl⟩ | ⟨hchoices, halias, target, w₁, -, rfl⟩ |
    ⟨hchoices, halias, object, message, w₁, hobject, hmessage, rfl⟩
  · refine ⟨.enumeration (enumeration (plan.fileOf key) name s),
      Definitions.enumeration_mem_types ?_, rfl, .enumeration (by simpa using hchoices) rfl⟩
    simp [definitions_addEnum]
  · refine ⟨.typedef { name, fqn := fqnOf (plan.fileOf key) name, target
                       comments := describe s.description },
      Definitions.typedef_mem_types ?_, rfl, .typedef (by simpa using hchoices) halias rfl⟩
    simp [definitions_addTypedef]
  · obtain ⟨stops, hexpands, hdescription⟩ := description_of_effectiveObject hobject
    obtain ⟨fields, -, rfl⟩ := structMessage_built
      (fun entry _ place => typeOf_adds plan place entry.2) hmessage
    refine ⟨.message { name, fqn := fqnOf (plan.fileOf key) name, fields := renumber fields
                       comments := describe object.description },
      Definitions.message_mem_types ?_, rfl,
      .message (by simpa using hchoices) halias hexpands (by rw [hdescription])⟩
    simp [definitions_addMessage]

/-! ## Finished schemas -/

/-- There is one definition of the name of a named schema in its file, and it is documented. Its
comments are those of the schema's own description, if that is not blank and the schema is no
reference, exactly if no member speaks for the schema. -/
def DocumentsSchema (plan : Plan) (schema : Schema) (key : String) (s : Api.Schema) : Prop :=
  ∃ f ∈ schema.files, ∃ d, f.path = plan.fileOf key ∧
    f.definitions.types.filter (fun other => other.name = plan.nameOf key) = [d] ∧
    plan.glossary.Documents s d ∧
    ∀ text, s.reference = none → s.description = some text → Text.trim text.toList ≠ [] →
      (d.comments = Comment.ofDescription text ↔ plan.glossary.SpeaksForItself s text d)

theorem Finished.documentsSchema {stated : Api.Schema → Prop} {service : String}
    {answers : List Answer} {schema : Schema} (h : Finished plan stated service answers w schema)
    (hd : d ∈ (w.definitions (plan.fileOf key)).types) (hname : d.name = plan.nameOf key)
    (hdocuments : plan.glossary.Documents s d) :
    DocumentsSchema plan schema key s := by
  obtain ⟨f, hf, hpath, hsingle⟩ := h.exists_type hd
  rw [hname] at hsingle
  exact ⟨f, hf, d, hpath, hsingle, hdocuments,
    fun text hreference hdescription htext => hdocuments.eq_iff hreference hdescription htext⟩

end Convert

/-- A named schema that is no reference and has a description that is not blank is documented by it
exactly if its definition is no struct, or its members have no description before, or one that reads
alike. -/
theorem convertDocument_documents_schemas {file : String} {bytes : List UInt8} {options : Options}
    {schema : Schema} (h : convertDocument file bytes options = .ok schema) :
    ∃ document plan w₀ w, readDocument file bytes = .ok document ∧
      Convert.Course file options document plan w₀ w schema ∧
      plan.glossary = ⟨document.schemas, options.policy⟩ ∧
      ∀ key s, document.schemas.get? key = some s → Convert.DocumentsSchema plan schema key s := by
  obtain ⟨document, plan, w₀, w, hread, hn, hglossary, hcourse, answers, w', hle, hfinished⟩ :=
    Convert.convertDocument_course h
  refine ⟨document, plan, w₀, w, hread, hcourse, hglossary, fun key s hget => ?_⟩
  obtain ⟨u, u', -, hdefine, hlater⟩ := hcourse.defines hn (Table.mem_of_get? hget)
  obtain ⟨d, hd, hname, hdocuments⟩ := Convert.define_documents hdefine
  have hd' := Convert.types_subset (hlater.le.trans hle) _ hd
  exact hfinished.documentsSchema hd' hname hdocuments

/-- A composition with a description of its own, and a member that has another one. -/
def heirDocument : List UInt8 :=
  ("swagger: \"2.0\"\npaths: {}\ndefinitions:\n" ++
    "  Base:\n    description: base\n    properties:\n      id:\n        type: integer\n" ++
    "  Pet:\n    description: A pet\n" ++
    "    allOf:\n    - $ref: \"#/definitions/Base\"\n").toUTF8.data.toList

def baseSchema : Api.Schema :=
  { description := some "base", properties := [("id", { typeNames := some (.single "integer") })] }

def heirSchema : Api.Schema :=
  { description := some "A pet", parts := [{ reference := some "#/definitions/Base" }] }

theorem readDocument_heirDocument :
    readDocument "pets.yaml" heirDocument =
      .ok ⟨.swagger2, "2.0", [], [("Base", baseSchema), ("Pet", heirSchema)]⟩ := by
  have hparse : Yaml.parse? heirDocument = some (object [("swagger", .text "2.0"),
      ("paths", object []), ("definitions", object [
        ("Base", object [("description", .text "base"),
          ("properties", object [("id", object [("type", .text "integer")])])]),
        ("Pet", object [("description", .text "A pet"),
          ("allOf", .sequence [object [("$ref", .text "#/definitions/Base")]])])])]) := by
    decide +kernel
  rw [Convert.readDocument_eq hparse]
  rfl

theorem heirDocument_converts :
    ∃ schema, convertDocument "pets.yaml" heirDocument {} = .ok schema ∧
      (schema.files.flatMap fun f => f.definitions.types.map fun d =>
        (f.path, d.name, d.comments)) =
        [("pets/pets.thrift", "Base", [{ text := "/** base */" }]),
          ("pets/pets.thrift", "Pet", [{ text := "/** base */" }])] := by
  rw [convertDocument_of_read readDocument_heirDocument]
  refine exists_of_toOption ?_
  decide +kernel

theorem heirDocument_documents_schemas :
    ∃ schema, convertDocument "pets.yaml" heirDocument {} = .ok schema ∧
      ∃ document plan w₀ w, readDocument "pets.yaml" heirDocument = .ok document ∧
        Convert.Course "pets.yaml" {} document plan w₀ w schema ∧
        plan.glossary = ⟨document.schemas, .lenient⟩ ∧
        ∀ key s, document.schemas.get? key = some s →
          Convert.DocumentsSchema plan schema key s := by
  obtain ⟨schema, h, -⟩ := heirDocument_converts
  exact ⟨schema, h, convertDocument_documents_schemas h⟩

/-- The composition's own description is nowhere in the schema. -/
theorem heirDocument_loses_description :
    ∃ schema, convertDocument "pets.yaml" heirDocument {} = .ok schema ∧
      ∃ document, readDocument "pets.yaml" heirDocument = .ok document ∧
        document.schemas.get? "Pet" = some heirSchema ∧ heirSchema.reference = none ∧
        heirSchema.description = some "A pet" ∧ Text.trim "A pet".toList ≠ [] ∧
        ∀ f ∈ schema.files, ∀ d ∈ f.definitions.types,
          d.comments ≠ Comment.ofDescription "A pet" := by
  obtain ⟨schema, h, hcomments⟩ := heirDocument_converts
  refine ⟨schema, h, _, readDocument_heirDocument, rfl, rfl, rfl, by decide,
    fun f hf d hd heq => ?_⟩
  have hmem : (f.path, d.name, d.comments) ∈ schema.files.flatMap fun f =>
      f.definitions.types.map fun d => (f.path, d.name, d.comments) :=
    List.mem_flatMap.mpr ⟨f, hf, List.mem_map_of_mem hd⟩
  rw [hcomments, heq] at hmem
  have hne : Comment.ofDescription "A pet" ≠ [{ text := "/** base */" }] := by decide +kernel
  simp [hne] at hmem

end RestThrift
