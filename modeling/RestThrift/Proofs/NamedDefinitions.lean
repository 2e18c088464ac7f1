import Mathlib
import RestThrift.Proofs.References
import RestThrift.Proofs.Splitting

/-!
# Definitions that stand for named schemas

Every named schema of a document has its own definition in the schema that is made. A struct has one
field for each property of what the schema is composed of. References follow keys: also where
several keys ask for one name in one file, a reference stands for the definition of its own key.
-/
namespace RestThrift

namespace Naming

/-- The namespace of a key is what stands before its last dot, with an underscore for each dash, dot
and blank in it; a key without a dot belongs to the main namespace. -/
inductive SpaceOf (key : String) : String → Prop
  | dotted {space : String} {before behind : List Char}
      (hkey : key.toList = before ++ '.' :: behind) (hlast : '.' ∉ behind)
      (hspace : space.toList =
        before.map fun c => if c = '-' ∨ c = '.' ∨ c = ' ' then '_' else c) :
      SpaceOf key space
  | undotted (hkey : '.' ∉ key.toList) : SpaceOf key "main"

theorem spaceOf_splitDefinition (key : String) : SpaceOf key (splitDefinition key).1 := by
  by_cases hdot : '.' ∈ key.toList
  · obtain ⟨before, behind, hkey, hlast⟩ := exists_last_split hdot
    rw [splitDefinition, hkey, splitLast_append_cons hlast]
    refine .dotted hkey hlast ?_
    simp only [namespaceName, String.toList_ofList, Bool.or_eq_true, decide_eq_true_eq, or_assoc]
  · rw [splitDefinition, splitLast_of_not_mem hdot]
    exact .undotted hdot

end Naming

namespace Convert

variable {plan : Plan} {stated : Api.Schema → Prop} {service : String} {answers : List Answer}
  {w : Workspace} {schema : Schema} {glossary : Glossary} {named object : Api.Schema}
  {file name key : String} {entry : String × Api.Schema} {field : Field} {required : List String}
  {d : Definition} {definition : String → Definition}

/-! ## What stands for a schema -/

/-- The field that stands for a property of a struct. A reference to a schema that is no alias
stands for the definition of that schema's key. -/
structure FieldFor (glossary : Glossary) (definition : String → Definition)
    (required : List String) (entry : String × Api.Schema) (field : Field) : Prop where
  name : field.name = Naming.fieldName entry.1
  required : field.requiredness = .required ↔ entry.1 ∈ required
  reference : ∀ reference target, entry.2.reference = some reference →
    glossary.resolve? reference = some target → target.isAlias = false →
    ∃ written,
      field.type = .named written (some (definition (definitionKey reference)).fqn)

/-- A schema with listed values is an enumeration, an alias a typedef, and any other schema a struct
with numbered fields for the properties of all that it is composed of. -/
inductive Represents (glossary : Glossary) (definition : String → Definition)
    (named : Api.Schema) : Definition → Prop
  | enumeration {e : Enumeration} (hchoices : named.choices ≠ []) :
      Represents glossary definition named (.enumeration e)
  | typedef {t : Typedef} (hchoices : named.choices = []) (halias : named.isAlias = true) :
      Represents glossary definition named (.typedef t)
  | message {m : Message} {object : Api.Schema} (hchoices : named.choices = [])
      (halias : named.isAlias = false) (hobject : glossary.effectiveObject named = .ok object)
      (hsorted : Table.Sorted object.properties)
      (hfields : List.Forall₂ (FieldFor glossary definition object.required) object.properties
        m.fields)
      (hids : m.fields.map Field.id =
        (List.range m.fields.length).map fun i : Nat => (i : Int) + 1) :
      Represents glossary definition named (.message m)

/-- The full name of a named schema's definition. -/
def Plan.fqnFor (p : Plan) (key : String) : String := fqnOf (p.fileOf key) (p.nameOf key)

theorem typeFor_eq (plan : Plan) (key file : String) :
    ∃ written, plan.typeFor key file = .named written (some (plan.fqnFor key)) :=
  ⟨_, rfl⟩

section Represents

variable (hfqn : ∀ key ∈ plan.glossary.schemas.keys, (definition key).fqn = plan.fqnFor key)
include hfqn

theorem FieldOf.fieldFor (h : FieldOf plan w file required entry field) :
    FieldFor plan.glossary definition required entry field where
  name := congrArg Field.name h.shape
  required := by
    have hrequiredness := congrArg Field.requiredness h.shape
    rw [hrequiredness, Requiredness.ofRequired, ← List.contains_iff_mem]
    split
    · rename_i hyes
      exact iff_of_true rfl hyes
    · rename_i hno
      exact iff_of_false (by simp) hno
  reference reference target hreference htarget halias := by
    obtain ⟨written, htype⟩ := typeFor_eq plan (definitionKey reference) file
    refine ⟨written, ?_⟩
    rw [h.denotes.eq_typeFor hreference htarget halias, htype,
      hfqn _ (Table.mem_keys_of_get? htarget)]

theorem Defined.represents (h : Defined plan w file name named d) :
    Represents plan.glossary definition named d := by
  cases h with
  | enumeration hchoices => exact .enumeration (by simpa using hchoices)
  | typedef hchoices halias _ _ => exact .typedef (by simpa using hchoices) halias
  | message hchoices halias hobject hformed =>
    obtain ⟨fields, hfields, rfl⟩ := hformed
    refine .message (by simpa using hchoices) halias hobject (sorted_effectiveObject hobject) ?_ ?_
    · refine forall₂_renumber (fun _ _ _ h => ⟨h.name, h.required, h.reference⟩) ?_
      exact hfields.imp fun _ _ h => h.fieldFor hfqn
    · rw [length_renumber]
      exact map_id_renumber fields

end Represents

/-! ## Definitions of a finished schema -/

namespace Finished

variable (h : Finished plan stated service answers w schema)
include h

/-- A named schema has exactly one definition of its full name. -/
theorem exists_definition (hkey : key ∈ plan.glossary.schemas.keys) :
    ∃ entry : File × Definition, entry.2.fqn = plan.fqnFor key ∧
      schema.types.filter (fun other => other.2.fqn = plan.fqnFor key) = [entry] ∧
      entry.1.path = plan.fileOf key := by
  obtain ⟨f, d, hfilter, hpath, -⟩ := h.exists_unique_bearer (h.reserved key hkey)
  have hmem : (f, d) ∈ schema.types.filter fun other => other.2.fqn = plan.fqnFor key := by
    rw [Plan.fqnFor, hfilter]
    exact List.mem_singleton_self _
  exact ⟨(f, d), of_decide_eq_true (List.mem_filter.mp hmem).2, hfilter, hpath⟩

/-- The definition of a named schema's full name is the one that was made for it. -/
theorem defined_of_fqn {entry : File × Definition}
    (hnamed : plan.glossary.schemas.get? key = some named)
    (hfilter : schema.types.filter (fun other => other.2.fqn = plan.fqnFor key) = [entry]) :
    Defined plan w (plan.fileOf key) (plan.nameOf key) named entry.2 := by
  obtain ⟨d, hd, hdefined⟩ := h.defined _ (Table.mem_of_get? hnamed)
  have hpath := h.present (plan.fileOf key) (List.ne_nil_of_mem hd)
  obtain ⟨f, hf, hfile⟩ := List.mem_map.mp hpath
  rw [← hfile] at hd
  have hdf : d ∈ f.definitions.types := (h.types_perm hf).mem_iff.mpr hd
  have hfqn : d.fqn = plan.fqnFor key := by
    rw [(h.fqn_eq hf hdf).1, hdefined.name_eq, hfile, Plan.fqnFor]
  have hmem : (f, d) ∈ schema.types.filter fun other => other.2.fqn = plan.fqnFor key := by
    refine List.mem_filter.mpr ⟨?_, decide_eq_true hfqn⟩
    exact List.mem_flatMap.mpr ⟨f, hf, List.mem_map.mpr ⟨d, hdf, rfl⟩⟩
  rw [hfilter, List.mem_singleton] at hmem
  rw [← hmem]
  exact hdefined

/-- Different keys have different full names. -/
theorem injOn_fqnFor : Set.InjOn plan.fqnFor {key | key ∈ plan.glossary.schemas.keys} := by
  intro key hkey other hother heq
  have hplain := h.coherent.plain _ _ (h.reserved key hkey)
  have hplain' := h.coherent.plain _ _ (h.reserved other hother)
  obtain ⟨hfile, hname⟩ := (fqnOf_inj hplain hplain').mp heq
  exact List.inj_on_of_nodup_map h.homes hkey hother (Prod.ext hfile hname)

end Finished

end Convert

/-- Each key of a document has a definition of its own in the schema, found exactly once under its
full name, in the file of the key's namespace, and this definition represents the key's schema. -/
theorem convertDocument_represents_schemas {file : String} {bytes : List UInt8} {options : Options}
    {schema : Schema} (h : convertDocument file bytes options = .ok schema) :
    ∃ document, readDocument file bytes = .ok document ∧
      ∃ definition : String → File × Definition,
        Set.InjOn (fun key => (definition key).2.fqn) {key | key ∈ document.schemas.keys} ∧
        ∀ key named, document.schemas.get? key = some named →
          schema.types.filter (fun entry => entry.2.fqn = (definition key).2.fqn) =
            [definition key] ∧
          (∃ space, Naming.SpaceOf key space ∧
            (definition key).1.path = Convert.spaceFile (Convert.outputStem file) space) ∧
          Convert.Represents ⟨document.schemas, options.policy⟩ (fun key => (definition key).2)
            named (definition key).2 := by
  obtain ⟨document, plan, answers, w, hread, hstem, hglossary, -, hfinished⟩ :=
    Convert.convertDocument_finished h
  have hschemas : plan.glossary.schemas = document.schemas := by rw [hglossary]
  choose! definition hfqn hfilter hpath using
    fun key (hkey : key ∈ plan.glossary.schemas.keys) => hfinished.exists_definition hkey
  refine ⟨document, hread, definition, ?_, ?_⟩
  · rw [← hschemas]
    intro key hkey other hother heq
    have hsame : (definition key).2.fqn = (definition other).2.fqn := heq
    rw [hfqn key hkey, hfqn other hother] at hsame
    exact hfinished.injOn_fqnFor hkey hother hsame
  · rw [← hschemas]
    intro key named hnamed
    have hkey := Table.mem_keys_of_get? hnamed
    have hdefined := hfinished.defined_of_fqn hnamed (hfilter key hkey)
    refine ⟨?_, ?_, ?_⟩
    · rw [hfqn key hkey]
      exact hfilter key hkey
    · refine ⟨_, Naming.spaceOf_splitDefinition key, ?_⟩
      rw [hpath key hkey, Convert.Plan.fileOf, hstem]
    · rw [hschemas, ← hglossary]
      exact hdefined.represents hfqn

/-- Two keys ask for one name in one file and refer to each other. -/
def kennelDocument : List UInt8 :=
  ("swagger: \"2.0\"\npaths: {}\ndefinitions:\n" ++
    "  a-b.Pet:\n    required: [kind]\n    properties:\n      kind:\n        $ref: Kind\n" ++
    "      rival:\n        $ref: a_b.Pet\n" ++
    "  a_b.Pet:\n    allOf:\n    - $ref: a-b.Pet\n    - properties:\n" ++
    "        friend:\n          $ref: a-b.Pet\n" ++
    "  Kind:\n    enum: [cat, dog]\n" ++
    "  Names:\n    type: array\n    items:\n      type: string\n").toUTF8.data.toList

def kennelTypes : List (String × String) :=
  [("kennel/a_b.thrift", "Pet"), ("kennel/a_b.thrift", "Pet_2"), ("kennel/kennel.thrift", "Kind"),
    ("kennel/kennel.thrift", "Names")]

theorem kennelDocument_converts :
    ∃ schema, convertDocument "kennel.yaml" kennelDocument { policy := .strict } = .ok schema ∧
      schema.types.map (fun entry => (entry.1.path, entry.2.name)) = kennelTypes := by
  refine exists_of_toOption ?_
  decide +kernel

theorem kennelDocument_represents_schemas :
    ∃ schema, convertDocument "kennel.yaml" kennelDocument { policy := .strict } = .ok schema ∧
      schema.types.map (fun entry => (entry.1.path, entry.2.name)) = kennelTypes ∧
      ∃ document, readDocument "kennel.yaml" kennelDocument = .ok document ∧
        ∃ definition : String → File × Definition,
          Set.InjOn (fun key => (definition key).2.fqn) {key | key ∈ document.schemas.keys} ∧
          ∀ key named, document.schemas.get? key = some named →
            schema.types.filter (fun entry => entry.2.fqn = (definition key).2.fqn) =
              [definition key] ∧
            (∃ space, Naming.SpaceOf key space ∧ (definition key).1.path =
              Convert.spaceFile (Convert.outputStem "kennel.yaml") space) ∧
            Convert.Represents ⟨document.schemas, .strict⟩ (fun key => (definition key).2) named
              (definition key).2 := by
  obtain ⟨schema, h, htypes⟩ := kennelDocument_converts
  exact ⟨schema, h, htypes, convertDocument_represents_schemas h⟩

end RestThrift
