import Mathlib
import RestThrift.Convert.Function
import RestThrift.Proofs.Composition

/-!
# Where definitions come from

A conversion looks at no other schemas than those that the document holds: the named ones, those
that are stated for its operations, and what lies inside of these. The objects whose properties
become fields are such schemas, as they are or merged with what they are composed of. Definitions
go to the main file or to the file of a named schema.
-/
namespace RestThrift

namespace Api

/-- The schemas that a document holds, where `stated` are those of its operations. -/
inductive Held (schemas : Table Schema) (stated : Schema → Prop) : Schema → Prop
  | stated {s : Schema} (h : stated s) : Held schemas stated s
  | named {key : String} {s : Schema} (h : (key, s) ∈ schemas) : Held schemas stated s
  | property {s : Schema} {entry : String × Schema} (h : Held schemas stated s)
      (hentry : entry ∈ s.properties) : Held schemas stated entry.2
  | items {s inner : Schema} (h : Held schemas stated s) (hitems : s.items = some inner) :
      Held schemas stated inner
  | part {s inner : Schema} (h : Held schemas stated s) (hpart : inner ∈ s.parts) :
      Held schemas stated inner
  | value {s inner : Schema} (h : Held schemas stated s) (hvalue : s.valueSchema? = some inner) :
      Held schemas stated inner

/-- The schemas that are stated for an operation: for its parameters, its body and its responses. -/
inductive Operation.States (operation : Operation) (item : PathItem) : Schema → Prop
  | parameter {p : Parameter} (hp : p ∈ operation.effectiveParameters item) :
      States operation item p.effectiveSchema
  | body {b : Body} (hbody : operation.body? (operation.effectiveParameters item) = some b) :
      States operation item b.schema
  | response {entry : String × Response} {schema : Schema} (hentry : entry ∈ operation.responses)
      (hschema : entry.2.effectiveSchema? = some schema) : States operation item schema

/-- The schemas that are stated for the operations of a table of paths. -/
def StatedIn (paths : Table PathItem) (s : Schema) : Prop :=
  ∃ entry ∈ paths, ∃ method operation,
    entry.2.operation? method = some operation ∧ operation.States entry.2 s

theorem Operation.states_successSchema {operation : Operation} {item : PathItem} {schema : Schema}
    (h : operation.successSchema? = some schema) : operation.States item schema := by
  rw [successSchema?] at h
  split at h
  · rename_i hok
    obtain rfl := Option.some.inj h
    obtain ⟨response, hresponse, hschema⟩ := Option.bind_eq_some_iff.mp hok
    exact .response (Table.mem_of_get? hresponse) hschema
  · obtain ⟨entry, hentry, hschema⟩ := List.exists_of_findSome?_eq_some h
    exact .response (List.mem_of_mem_filter hentry) hschema

end Api

namespace Convert

open Api (Held)

variable {glossary : Glossary} {stated : Api.Schema → Prop} {schema object : Api.Schema}
  {entry : String × Api.Schema}

/-- The schemas that a conversion looks at. -/
def Glossary.Holds (g : Glossary) (stated : Api.Schema → Prop) : Api.Schema → Prop :=
  Held g.schemas stated

/-! ## Objects -/

/-- The objects whose properties become fields. -/
inductive Glossary.ObjectOf (g : Glossary) (stated : Api.Schema → Prop) : Api.Schema → Prop
  | plain {object : Api.Schema} (h : g.Holds stated object) : ObjectOf g stated object
  | composed {schema object : Api.Schema} (h : g.Holds stated schema)
      (hobject : g.effectiveObject schema = .ok object) : ObjectOf g stated object

/-- A composed object is merged of the leaves of its schema. -/
theorem effectiveObject_eq_ok (h : glossary.effectiveObject schema = .ok object) :
    ∃ stops, glossary.Expands [] [schema] stops ∧
      object = { (leavesOf stops).foldl Glossary.mergeLeaf {} with
        additional := schema.additional } := by
  obtain ⟨stops, hexpands, hflatten⟩ := flatten_gathers glossary [schema]
  simp only [Glossary.effectiveObject, bind_eq_ok, hflatten, map_eq_ok, gather_eq_ok] at h
  obtain ⟨_, ⟨_, ⟨-, rfl⟩, rfl⟩, hobject⟩ := h
  exact ⟨stops, hexpands, (Except.ok.inj hobject).symm⟩

/-- A property of a composed object is one of a schema that is reached from the composed one by
parts and references. -/
theorem exists_leaf_of_effectiveObject {P : Api.Schema → Prop}
    (hpart : ∀ s part, s.reference = none → part ∈ s.parts → P s → P part)
    (htarget : ∀ s target, glossary.Targets s target → P s → P target)
    (h : glossary.effectiveObject schema = .ok object) (hs : P schema)
    (hentry : entry ∈ object.properties) :
    ∃ leaf, leaf.reference = none ∧ P leaf ∧ entry ∈ leaf.properties := by
  obtain ⟨stops, hexpands, rfl⟩ := effectiveObject_eq_ok h
  obtain ⟨leaf, hleaf, hentry⟩ :=
    (mem_properties_foldl_mergeLeaf hentry).resolve_right List.not_mem_nil
  obtain ⟨hreference, hP⟩ :=
    hexpands.forall_leaves hpart htarget (List.forall_mem_singleton.mpr hs) leaf hleaf
  exact ⟨leaf, hreference, hP, hentry⟩

/-- The properties of a composed object stand in the order of their names. -/
theorem sorted_effectiveObject (h : glossary.effectiveObject schema = .ok object) :
    Table.Sorted object.properties := by
  obtain ⟨stops, -, rfl⟩ := effectiveObject_eq_ok h
  exact sorted_foldl_mergeLeaf Table.sorted_nil

/-- The schemas of an object's properties are held, too. -/
theorem Glossary.ObjectOf.property (h : glossary.ObjectOf stated object)
    (hentry : entry ∈ object.properties) : glossary.Holds stated entry.2 := by
  cases h with
  | plain h => exact .property h hentry
  | composed h hobject =>
    obtain ⟨leaf, -, hleaf, hentry⟩ := exists_leaf_of_effectiveObject
      (fun _ _ _ hpart hs => Held.part hs hpart)
      (fun _ _ ⟨_, _, hresolve⟩ _ => Held.named (Table.mem_of_get? hresolve)) hobject h hentry
    exact .property hleaf hentry

/-! ## Result types -/

/-- The data property of a wrapper object, where it is a reference. -/
def wrappedData? (resolved : Option Api.Schema) : Option Api.Schema :=
  match resolved.filter Api.Schema.isObjectLike with
  | some wrapper => (["Data", "data"].findSome? fun name => wrapper.properties.lookup name).filter
      fun data => data.reference.isSome
  | none => none

theorem resultSchema_eq (glossary : Glossary) (schema : Api.Schema) :
    resultSchema glossary schema =
      match wrappedData? (schema.reference.elim (some schema) glossary.resolve?) with
      | some data => (data, "Data")
      | none => (schema, "Response") := by
  rw [resultSchema]
  cases schema.reference <;> rfl

theorem holds_wrappedData {resolved : Option Api.Schema}
    (hresolved : ∀ wrapper ∈ resolved, glossary.Holds stated wrapper)
    (h : wrappedData? resolved = some schema) : glossary.Holds stated schema := by
  rw [wrappedData?] at h
  split at h
  · rename_i wrapper hwrapper
    obtain ⟨hwrapper, -⟩ := Option.filter_eq_some_iff.mp hwrapper
    obtain ⟨hfound, -⟩ := Option.filter_eq_some_iff.mp h
    obtain ⟨name, -, hlookup⟩ := List.exists_of_findSome?_eq_some hfound
    exact .property (hresolved wrapper hwrapper) (Table.mem_of_lookup hlookup)
  · cases h

/-- The schema that a result type is taken from. -/
theorem holds_resultSchema (hs : glossary.Holds stated schema) :
    glossary.Holds stated (resultSchema glossary schema).1 := by
  have hresolved : ∀ wrapper ∈ schema.reference.elim (some schema) glossary.resolve?,
      glossary.Holds stated wrapper := by
    intro wrapper hwrapper
    cases hreference : schema.reference with
    | none =>
      rw [hreference] at hwrapper
      exact Option.some.inj hwrapper ▸ hs
    | some reference =>
      rw [hreference] at hwrapper
      exact .named (Table.mem_of_get? hwrapper)
  rw [resultSchema_eq]
  cases hdata : wrappedData? (schema.reference.elim (some schema) glossary.resolve?) with
  | none => exact hs
  | some data => exact holds_wrappedData hresolved hdata

/-! ## Files -/

/-- The files that definitions go to. -/
def Plan.IsHome (p : Plan) (file : String) : Prop :=
  file = p.mainFile ∨
    ∃ key ∈ p.glossary.schemas.keys, file = spaceFile p.stem (Naming.splitDefinition key).1

theorem Plan.isHome_mainFile (p : Plan) : p.IsHome p.mainFile := .inl rfl

end Convert

end RestThrift
