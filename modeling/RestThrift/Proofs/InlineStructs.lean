import Mathlib
import RestThrift.Proofs.KeyOrder
import RestThrift.Proofs.Progress
import RestThrift.Proofs.References
import RestThrift.Proofs.Shapes

/-!
# Structs of inline objects

An inline object shares the struct of an earlier one only where both have the same shape, and no
later definition changes a struct. So what an inline object became in the end has a field for each
of its properties, as it was built for this object; only a default may be written differently, by
another double that is equal to it.
-/
namespace RestThrift

/-- A schema of which a struct is made: a composition of more than one reference, or an object with
properties. -/
def Api.Schema.MakesStruct (s : Api.Schema) : Prop :=
  s.reference = none ∧ (s.parts ≠ [] ∧ s.soleReference? = none ∨
    s.parts = [] ∧ s.choices = [] ∧ s.isObjectLike = true ∧ s.properties ≠ [])

/-- A field that stands for one that was built: its type has the same shape, and its default is the
same or equal to it, where doubles are compared as numbers. -/
structure Field.StandsFor (field built : Field) : Prop where
  name : field.name = built.name
  requiredness : field.requiredness = built.requiredness
  default : field.default = built.default ∨ (field.default == built.default) = true
  type : field.type.sameShape built.type = true

namespace Convert

open Workspace

variable {plan : Plan} {w w' u : Workspace} {place : Place} {file parent name : String}
  {inlining : List String} {steps : Nat} {s object : Api.Schema} {type : TypeRef}

/-! ## Schemas of structs -/

/-- The object whose properties are the fields of a struct: all that the schema is composed of, or
the schema itself. -/
inductive Glossary.StructOf (g : Glossary) (s : Api.Schema) : Api.Schema → Prop
  | composed {object : Api.Schema} (hparts : s.parts ≠ [])
      (hobject : g.effectiveObject s = .ok object) : StructOf g s object
  | plain (hparts : s.parts = []) : StructOf g s s

theorem Branch.of_makesStruct (plan : Plan) (inlining : List String) (file : String)
    (h : s.MakesStruct) : (∃ cause, Branch.of plan inlining file s = .failure cause) ∨
      ∃ object, Branch.of plan inlining file s = .struct object ∧
        plan.glossary.StructOf s object := by
  obtain ⟨hreference, ⟨hparts, hsole⟩ | ⟨hparts, hchoices, hobject, hproperties⟩⟩ := h
  · have hof : Branch.of plan inlining file s = Branch.ofParts plan.glossary s := by
      simp [Branch.of, hreference, hparts]
    rw [hof, Branch.ofParts, hsole]
    cases heffective : plan.glossary.effectiveObject s with
    | error cause => exact .inl ⟨cause, rfl⟩
    | ok object => exact .inr ⟨object, rfl, .composed hparts heffective⟩
  · have hof : Branch.of plan inlining file s = Branch.ofObject s := by
      simp only [Branch.of, hreference, hparts, hchoices, List.isEmpty_nil, Bool.not_true,
        Branch.ofKind]
      simp only [Api.Schema.isObjectLike, Bool.or_eq_true, beq_iff_eq] at hobject
      rcases hobject with hkind | hkind <;> simp [hkind]
    have hstruct : Branch.ofObject s = .struct s := by
      simp [Branch.ofObject, hproperties]
    exact .inr ⟨s, hof.trans hstruct, .plain hparts⟩

/-! ## Fields of structs -/

/-- The field stands for what was built for a property between the workspaces. -/
def KeepsField (typeOf : Place → Api.Schema → Build TypeRef) (file parent : String)
    (required : List String) (w w' : Workspace) (entry : String × Api.Schema) (field : Field) :
    Prop :=
  ∃ built, BuiltField typeOf file parent required w w' entry built ∧ field.StandsFor built

section Fields

variable {typeOf : Place → Api.Schema → Build TypeRef} {required : List String}
  {entries : List (String × Api.Schema)} {fields others : List Field} {field built : Field}

theorem standsFor_numbered (built : Field) (id : Int) : { built with id }.StandsFor built :=
  ⟨rfl, rfl, .inl rfl, TypeRef.sameShape_self _⟩

theorem standsFor_of_sameShape {id : Int} (h : field.sameShape { built with id } = true) :
    field.StandsFor built := by
  simp only [Field.sameShape, Bool.and_eq_true, beq_iff_eq] at h
  obtain ⟨⟨⟨⟨⟨-, hname⟩, hrequiredness⟩, hdefault⟩, -⟩, htype⟩ := h
  exact ⟨hname, hrequiredness, .inr hdefault, htype⟩

theorem built_renumber
    (h : List.Forall₂ (BuiltField typeOf file parent required w w') entries fields) :
    List.Forall₂ (fun entry field => ∃ built id,
      BuiltField typeOf file parent required w w' entry built ∧ field = { built with id })
      entries (renumber fields) := by
  refine forall₂_renumber ?_ (h.imp fun _ built hbuilt => ⟨built, built.id, hbuilt, rfl⟩)
  rintro entry field id ⟨built, -, hbuilt, rfl⟩
  exact ⟨built, id, hbuilt, rfl⟩

end Fields

/-! ## Structs -/

/-- What a struct type stands for: a message of the name has a field for each property, as it was
built in this run. -/
theorem structType_keeps {typeOf : Place → Api.Schema → Build TypeRef}
    (hadds : ∀ entry ∈ object.properties, ∀ place, Along Adds (typeOf place entry.2))
    (h : Runs (structType typeOf place object) w type w') :
    ∃ m ∈ (w'.definitions place.file).messages, type = localType place.file m.name ∧
      List.Forall₂ (KeepsField typeOf place.file place.base object.required w w')
        object.properties m.fields := by
  obtain ⟨message, w₁, hmessage, hcases⟩ := structType_runs h
  obtain ⟨fields, hbuilt, heq⟩ := structMessage_built hadds hmessage
  have hfields : message.fields = renumber fields := congrArg Message.fields heq
  rcases hcases with ⟨name, hname, rfl, rfl⟩ | ⟨hnew, rfl, rfl⟩
  · obtain ⟨m, hm, rfl, hshape⟩ := matching?_eq_some hname
    simp only [Message.sameShape, Bool.and_eq_true] at hshape
    refine ⟨m, hm, rfl, forall₂_of_sameFields (built_renumber hbuilt) (hfields ▸ hshape.2) ?_⟩
    rintro entry field other ⟨built, id, hfield, rfl⟩ hsame
    exact ⟨built, hfield, standsFor_of_sameShape hsame⟩
  · have hgains : w₁.Gains (w₁.newStruct place message) := .single (.struct place message hnew)
    refine ⟨{ message with
      name := (w₁.claim place.file place.base).1
      fqn := fqnOf place.file (w₁.claim place.file place.base).1 }, ?_, rfl, ?_⟩
    · simp [newStruct, definitions_addMessage]
    · rw [hfields]
      refine (built_renumber hbuilt).imp ?_
      rintro entry field ⟨built, id, hfield, rfl⟩
      exact ⟨built, hfield.mono hgains, standsFor_numbered built id⟩

theorem typeWithin_keeps (hs : s.MakesStruct)
    (h : Runs (typeWithin plan (steps + 1) inlining place s) w type w') :
    ∃ object, plan.glossary.StructOf s object ∧
      ∃ m ∈ (w'.definitions place.file).messages, type = localType place.file m.name ∧
        List.Forall₂ (KeepsField (typeWithin plan steps inlining) place.file place.base
          object.required w w') object.properties m.fields := by
  rw [typeWithin_succ] at h
  rcases Branch.of_makesStruct plan inlining place.file hs with
    ⟨cause, hbranch⟩ | ⟨object, hbranch, hobject⟩
  · rw [hbranch] at h
    exact absurd h runs_throw
  · rw [hbranch] at h
    exact ⟨object, hobject,
      structType_keeps (fun entry _ place => typeWithin_adds plan steps inlining place entry.2) h⟩

/-! ## Finished schemas -/

/-- A definition of the workspace is all that has its name in its file of the finished schema. -/
theorem Finished.exists_type {plan : Plan} {stated : Api.Schema → Prop} {service : String}
    {answers : List Answer} {schema : Schema} (h : Finished plan stated service answers w schema)
    {d : Definition} (hd : d ∈ (w.definitions file).types) : ∃ f ∈ schema.files, f.path = file ∧
      f.definitions.types.filter (fun other => other.name = d.name) = [d] := by
  obtain ⟨f, hf, rfl⟩ := List.mem_map.mp (h.present file (List.ne_nil_of_mem hd))
  exact ⟨f, hf, rfl, filter_eq_singleton (f := Definition.name) (h.nodup_names hf)
    ((h.types_perm hf).mem_iff.mpr hd)⟩

theorem Finished.exists_message {stated : Api.Schema → Prop} {service : String}
    {answers : List Answer} {schema : Schema} (h : Finished plan stated service answers w schema)
    {m : Message} (hm : m ∈ (w.definitions file).messages) : ∃ f ∈ schema.files, f.path = file ∧
      f.definitions.types.filter (fun d => d.name = m.name) = [.message m] :=
  h.exists_type (Definitions.message_mem_types hm)

/-- Whenever a struct is made of a schema, before the end of a conversion, the definition of its
name in its file is a message that has, for each property of the object and in their order, a field
that stands for what was built for the property then. -/
def KeepsStructs (plan : Plan) (w : Workspace) (schema : Schema) : Prop :=
  ∀ ⦃steps inlining place s u type u'⦄, s.MakesStruct →
    Runs (typeWithin plan (steps + 1) inlining place s) u type u' → plan.Proceeds u' w →
    ∃ object f m, plan.glossary.StructOf s object ∧ f ∈ schema.files ∧ f.path = place.file ∧
      type = localType f.path m.name ∧
      f.definitions.types.filter (fun d => d.name = m.name) = [.message m] ∧
      List.Forall₂ (KeepsField (typeWithin plan steps inlining) place.file place.base
        object.required u u') object.properties m.fields

end Convert

/-- Inline objects are not conflated: a converted schema keeps the structs of all runs of the
synthesis in its course, whatever structs are made before or after. -/
theorem convertDocument_keeps_structs {file : String} {bytes : List UInt8} {options : Options}
    {schema : Schema} (h : convertDocument file bytes options = .ok schema) :
    ∃ document plan w₀ w, readDocument file bytes = .ok document ∧
      Convert.Course file options document plan w₀ w schema ∧ plan.Proceeds w₀ w ∧
      Convert.KeepsStructs plan w schema := by
  obtain ⟨document, plan, w₀, w, hread, hn, -, hcourse, answers, w', hle, hfinished⟩ :=
    Convert.convertDocument_course h
  refine ⟨document, plan, w₀, w, hread, hcourse, hcourse.proceeds hn, ?_⟩
  intro steps inlining place s u type u' hs hrun hlater
  obtain ⟨object, hobject, m, hm, htype, hfields⟩ := Convert.typeWithin_keeps hs hrun
  obtain ⟨f, hf, hpath, hsingle⟩ :=
    hfinished.exists_message (((hlater.le.trans hle).messages place.file).subset hm)
  exact ⟨object, f, m, hobject, hf, hpath, hpath ▸ htype, hsingle, hfields⟩

/-! ## Doubles that are equal -/

/-- Two objects ask for one name, with defaults that are equal as numbers. -/
def boxesDocument : List UInt8 :=
  let box (property default : String) : String := "      " ++ property ++
    ":\n        properties:\n          size:\n            type: number\n" ++
    "            default: " ++ default ++ "\n"
  ("swagger: \"2.0\"\npaths: {}\ndefinitions:\n  Pet:\n    properties:\n" ++
    box "a-box" "0.0" ++ box "a_box" "-0.0").toUTF8.data.toList

def sizeSchema (x : Float) : Api.Schema :=
  { typeNames := some (.single "number"), default := some (.number (.float x)) }

def boxSchema (x : Float) : Api.Schema := { properties := [("size", sizeSchema x)] }

def boxesSchema : Api.Schema :=
  { properties := [("a-box", boxSchema 0.0), ("a_box", boxSchema (-0.0))] }

theorem readDocument_boxesDocument :
    readDocument "pets.yaml" boxesDocument =
      .ok ⟨.swagger2, "2.0", [], [("Pet", boxesSchema)]⟩ := by
  let box (x : Float) : Yaml.Value := object [("properties", object [("size",
    object [("type", .text "number"), ("default", .number (.float x))])])]
  have hparse : Yaml.parse? boxesDocument = some (object [("swagger", .text "2.0"),
      ("paths", object []), ("definitions", object [("Pet", object [("properties",
        object [("a-box", box 0.0), ("a_box", box (-0.0))])])])]) := by
    decide +kernel
  rw [Convert.readDocument_eq hparse]
  rfl

def boxesPlan : Convert.Plan := (Convert.Plan.of "pets.yaml" {} [("Pet", boxesSchema)]).1

/-- The bits of a literal that is a double. -/
def Literal.bits? : Literal → Option UInt64
  | .float x => some x.toBits
  | _ => none

theorem boxesDocument_converts :
    ∃ schema, convertDocument "pets.yaml" boxesDocument {} = .ok schema ∧
      (schema.files.flatMap fun f => f.definitions.messages.flatMap fun m =>
        m.fields.filterMap fun field => field.default.bind Literal.bits?) = [0] := by
  rw [convertDocument_of_read readDocument_boxesDocument]
  refine exists_of_toOption ?_
  decide +kernel

theorem boxesDocument_keeps_structs :
    ∃ schema, convertDocument "pets.yaml" boxesDocument {} = .ok schema ∧
      ∃ document plan w₀ w, readDocument "pets.yaml" boxesDocument = .ok document ∧
        Convert.Course "pets.yaml" {} document plan w₀ w schema ∧ plan.Proceeds w₀ w ∧
        Convert.KeepsStructs plan w schema := by
  obtain ⟨schema, h, -⟩ := boxesDocument_converts
  exact ⟨schema, h, convertDocument_keeps_structs h⟩

theorem boxSchema_makesStruct (x : Float) : (boxSchema x).MakesStruct :=
  ⟨rfl, .inr ⟨rfl, rfl, rfl, List.cons_ne_nil _ _⟩⟩

/-- The default that is built for the second object is nowhere in the schema. -/
theorem boxesDocument_conflates :
    ∃ schema, convertDocument "pets.yaml" boxesDocument {} = .ok schema ∧
      ∃ document w₀ w, readDocument "pets.yaml" boxesDocument = .ok document ∧
        Convert.Course "pets.yaml" {} document boxesPlan w₀ w schema ∧
        ∃ place u type u', (boxSchema (-0.0)).MakesStruct ∧ boxesPlan.Proceeds w₀ u ∧
          Convert.Runs (Convert.typeOf boxesPlan place (boxSchema (-0.0))) u type u' ∧
          boxesPlan.Proceeds u' w ∧
          Convert.propertyDefault u' place.file "size" (sizeSchema (-0.0)) (.primitive .double) =
            .ok (some (.float (-0.0))) ∧
          ∀ f ∈ schema.files, ∀ m ∈ f.definitions.messages, ∀ field ∈ m.fields,
            field.default ≠ some (.float (-0.0)) := by
  obtain ⟨schema, h, hbits⟩ := boxesDocument_converts
  obtain ⟨document, plan, w₀, w, hread, hn, -, hcourse, -⟩ := Convert.convertDocument_course h
  obtain rfl := Except.ok.inj (readDocument_boxesDocument.symm.trans hread)
  obtain rfl : boxesPlan = plan := (Prod.mk.inj hcourse.planned).1
  have hbox : ("a_box", boxSchema (-0.0)) ∈ boxesSchema.properties :=
    List.mem_cons_of_mem _ (List.mem_singleton_self _)
  obtain ⟨u, type, u', hbefore, hrun, hafter⟩ :=
    hcourse.finds hn (List.mem_singleton_self _) rfl rfl rfl hbox
  refine ⟨schema, h, _, w₀, w, hread, hcourse, _, u, type, u', boxSchema_makesStruct _, hbefore,
    hrun, hafter, rfl, fun f hf m hm field hfield heq => ?_⟩
  have hmem : (-0.0 : Float).toBits ∈ schema.files.flatMap fun f =>
      f.definitions.messages.flatMap fun m =>
        m.fields.filterMap fun field => field.default.bind Literal.bits? :=
    List.mem_flatMap.mpr ⟨f, hf, List.mem_flatMap.mpr ⟨m, hm,
      List.mem_filterMap.mpr ⟨field, hfield, by rw [heq]; rfl⟩⟩⟩
  rw [hbits, List.mem_singleton] at hmem
  exact absurd hmem (by decide +kernel)

end RestThrift
