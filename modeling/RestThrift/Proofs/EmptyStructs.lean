import Mathlib
import RestThrift.Proofs.Contents
import RestThrift.Proofs.InlineStructs

/-!
# Structs without fields

A composition and a named reference become a struct with the properties of all that they are
composed of, and nothing else of it is kept. So a struct has no fields exactly if nothing that its
schema is composed of has properties, also where that lists values or is no object.
-/
namespace RestThrift

/-- A schema whose values are no objects: it lists its values, or declares another kind. -/
def Api.Schema.IsNoObject (s : Api.Schema) : Prop := s.choices ≠ [] ∨ s.isObjectLike = false

namespace Convert

variable {plan : Plan} {stated : Api.Schema → Prop} {service : String} {answers : List Answer}
  {w w₀ w' : Workspace} {schema : Schema} {file name : String} {s object : Api.Schema}
  {m other : Message}

/-- The schemas for which there is a struct of the name in the file: a named schema, or one that was
given the struct in the course of a conversion. -/
inductive Plan.StructFor (p : Plan) (w₀ w : Workspace) : String → String → Api.Schema → Prop
  | named {key : String} {s : Api.Schema} (hget : p.glossary.schemas.get? key = some s) :
      StructFor p w₀ w (p.fileOf key) (p.nameOf key) s
  | inline {steps : Nat} {inlining : List String} {place : Place} {s : Api.Schema}
      {u u' : Workspace} {name : String} (hs : s.MakesStruct) (hbefore : p.Proceeds w₀ u)
      (hrun : Runs (typeWithin p (steps + 1) inlining place s) u (localType place.file name) u')
      (hlater : p.Proceeds u' w) : StructFor p w₀ w place.file name s

theorem Glossary.StructOf.properties_eq_nil_iff {g : Glossary} (h : g.StructOf s object)
    (hs : s.MakesStruct) :
    object.properties = [] ↔ ∀ part, g.ComposedOf s part → part.properties = [] := by
  cases h with
  | composed _ hobject => exact effectiveObject_properties_eq_nil_iff hobject
  | plain hparts =>
    obtain ⟨hreference, ⟨hcomposed, -⟩ | ⟨-, -, -, hproperties⟩⟩ := hs
    · exact absurd hparts hcomposed
    · refine iff_of_false hproperties fun hnil => hproperties ?_
      exact hnil s (g.composedOf_self hreference)

theorem nil_iff_of_forall₂ {α β : Type} {R : α → β → Prop} {l : List α} {l' : List β}
    (h : List.Forall₂ R l l') : l' = [] ↔ l = [] := by
  rw [← List.length_eq_zero_iff, ← h.length_eq, List.length_eq_zero_iff]

theorem Coherent.message_unique (h : Coherent plan stated w [])
    (hm : m ∈ (w.definitions file).messages) (hother : other ∈ (w.definitions file).messages)
    (hname : other.name = m.name) : other = m :=
  Definition.message.inj <| h.type_unique (Definitions.message_mem_types hm)
    (Definitions.message_mem_types hother) hname

theorem Finished.fields_eq_nil_iff (h : Finished plan stated service answers w' schema)
    (hle : w ≤ w') {f : File} (hf : f ∈ schema.files) (hm : m ∈ f.definitions.messages)
    (hs : plan.StructFor w₀ w f.path m.name s) :
    m.fields = [] ↔ ∀ part, plan.glossary.ComposedOf s part → part.properties = [] := by
  have hm' : m ∈ (w'.definitions f.path).messages := (h.files f hf).messages.mem_iff.mp hm
  generalize hfile : f.path = file, hname : m.name = name at hs hm'
  cases hs with
  | @named key s hget =>
    obtain ⟨d, hd, hdefined⟩ := h.defined _ (Table.mem_of_get? hget)
    have hsame : d = .message m := h.coherent.type_unique (Definitions.message_mem_types hm') hd
      (hdefined.name_eq.trans hname.symm)
    subst hsame
    cases hdefined with
    | message _ _ hobject hformed =>
      obtain ⟨fields, hfields, rfl⟩ := hformed
      rw [← effectiveObject_properties_eq_nil_iff hobject, ← nil_iff_of_forall₂ hfields,
        ← List.length_eq_zero_iff, length_renumber, List.length_eq_zero_iff]
  | inline hs _ hrun hlater =>
    obtain ⟨object, hobject, other, hother, htype, hfields⟩ := typeWithin_keeps hs hrun
    obtain ⟨hsame, -⟩ := TypeRef.named.inj htype
    have hother' := ((hlater.le.trans hle).messages _).subset hother
    obtain rfl := h.coherent.message_unique hm' hother' (hsame.symm.trans hname.symm)
    rw [← hobject.properties_eq_nil_iff hs, nil_iff_of_forall₂ hfields]

end Convert

/-- The struct of a schema has no fields exactly if nothing that the schema is composed of has
properties, whatever else is reached from it. -/
theorem convertDocument_fields_eq_nil_iff {file : String} {bytes : List UInt8} {options : Options}
    {schema : Schema} (h : convertDocument file bytes options = .ok schema) :
    ∃ document plan w₀ w, readDocument file bytes = .ok document ∧
      Convert.Course file options document plan w₀ w schema ∧
      plan.glossary = ⟨document.schemas, options.policy⟩ ∧
      ∀ f ∈ schema.files, ∀ m ∈ f.definitions.messages, ∀ s,
        plan.StructFor w₀ w f.path m.name s →
          (m.fields = [] ↔ ∀ part, plan.glossary.ComposedOf s part → part.properties = []) := by
  obtain ⟨document, plan, w₀, w, hread, -, hglossary, hcourse, answers, w', hle, hfinished⟩ :=
    Convert.convertDocument_course h
  exact ⟨document, plan, w₀, w, hread, hcourse, hglossary,
    fun f hf m hm s hs => hfinished.fields_eq_nil_iff hle hf hm hs⟩

/-- A named reference to a text. -/
def nickDocument : List UInt8 :=
  ("swagger: \"2.0\"\npaths: {}\ndefinitions:\n  Name:\n    type: string\n" ++
    "  Nick:\n    $ref: \"#/definitions/Name\"\n").toUTF8.data.toList

def nameSchema : Api.Schema := { typeNames := some (.single "string") }

def nickSchema : Api.Schema := { reference := some "#/definitions/Name" }

theorem readDocument_nickDocument :
    readDocument "pets.yaml" nickDocument =
      .ok ⟨.swagger2, "2.0", [], [("Name", nameSchema), ("Nick", nickSchema)]⟩ := by
  have hparse : Yaml.parse? nickDocument = some (object [("swagger", .text "2.0"),
      ("paths", object []), ("definitions", object [("Name", object [("type", .text "string")]),
        ("Nick", object [("$ref", .text "#/definitions/Name")])])]) := by
    decide +kernel
  rw [Convert.readDocument_eq hparse]
  rfl

theorem nickDocument_converts :
    ∃ schema, convertDocument "pets.yaml" nickDocument {} = .ok schema ∧
      (schema.files.flatMap fun f => f.definitions.messages.map fun m =>
        (f.path, m.name, m.fields.length)) = [("pets/pets.thrift", "Nick", 0)] := by
  rw [convertDocument_of_read readDocument_nickDocument]
  refine exists_of_toOption ?_
  decide +kernel

theorem nickDocument_fields_eq_nil_iff :
    ∃ schema, convertDocument "pets.yaml" nickDocument {} = .ok schema ∧
      ∃ document plan w₀ w, readDocument "pets.yaml" nickDocument = .ok document ∧
        Convert.Course "pets.yaml" {} document plan w₀ w schema ∧
        plan.glossary = ⟨document.schemas, .lenient⟩ ∧
        ∀ f ∈ schema.files, ∀ m ∈ f.definitions.messages, ∀ s,
          plan.StructFor w₀ w f.path m.name s →
            (m.fields = [] ↔ ∀ part, plan.glossary.ComposedOf s part → part.properties = []) := by
  obtain ⟨schema, h, -⟩ := nickDocument_converts
  exact ⟨schema, h, convertDocument_fields_eq_nil_iff h⟩

/-- The reference leads to a text, and its struct has no fields. -/
theorem nickDocument_degrades :
    ∃ schema, convertDocument "pets.yaml" nickDocument {} = .ok schema ∧
      ∃ document plan w₀ w, readDocument "pets.yaml" nickDocument = .ok document ∧
        Convert.Course "pets.yaml" {} document plan w₀ w schema ∧
        ∃ f ∈ schema.files, ∃ m ∈ f.definitions.messages,
          plan.StructFor w₀ w f.path m.name nickSchema ∧
          plan.glossary.Enters [] nickSchema nameSchema ∧ nameSchema.IsNoObject ∧
            m.fields = [] := by
  obtain ⟨schema, h, hmessages⟩ := nickDocument_converts
  obtain ⟨document, plan, w₀, w, hread, -, -, hcourse, -⟩ := Convert.convertDocument_course h
  obtain rfl := Except.ok.inj (readDocument_nickDocument.symm.trans hread)
  obtain ⟨f, hf, hmem⟩ := List.mem_flatMap.mp (hmessages ▸ List.mem_singleton_self _)
  obtain ⟨m, hm, heq⟩ := List.mem_map.mp hmem
  obtain ⟨hpath, hrest⟩ := Prod.mk.inj heq
  obtain ⟨hname, hlength⟩ := Prod.mk.inj hrest
  have hplan := (Prod.mk.inj hcourse.planned).1
  have hstruct : plan.StructFor w₀ w (plan.fileOf "Nick") (plan.nameOf "Nick") nickSchema := by
    rw [← hplan]
    exact .named rfl
  refine ⟨schema, h, _, plan, w₀, w, hread, hcourse, f, hf, m, hm, ?_, ?_, .inr rfl,
    List.length_eq_zero_iff.mp hlength⟩
  · rw [hpath, hname]
    rw [← hplan] at hstruct ⊢
    exact hstruct
  · rw [← hplan]
    exact .target rfl List.not_mem_nil rfl

end RestThrift
