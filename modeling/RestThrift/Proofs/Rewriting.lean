import Mathlib
import RestThrift.Proofs.Edits
import RestThrift.Proofs.Reading

/-!
# Reading rewritten values

A rewriting changes the values of a document by what they are read as. If the readers of texts,
lists, tables and records see no more than that, then a rewritten document is read into an edited
one: the same tables and records, with references and default values changed.
-/
namespace RestThrift.Api.Reading

open RestThrift.Yaml (Value)

/-! ## Lists of readings -/

section Lists

variable {α β γ δ : Type} {φ : α → β}

theorem bind_follows {ψ : γ → δ} {x : Option α} {x' : Option β} {g : α → Option γ}
    {g' : β → Option δ} (hx : x' = x.map φ) (hg : ∀ a, g' (φ a) = (g a).map ψ) :
    x' >>= g' = (x >>= g).map ψ := by
  subst hx
  cases x with
  | none => rfl
  | some a => exact hg a

theorem mapM_follows {g : γ → Option α} {g' : δ → Option β} {ψ : γ → δ} {l : List γ}
    (h : ∀ c ∈ l, g' (ψ c) = (g c).map φ) :
    (l.map ψ).mapM g' = (l.mapM g).map (List.map φ) := by
  induction l with
  | nil => rfl
  | cons c rest ih =>
    obtain ⟨hc, hrest⟩ := List.forall_mem_cons.mp h
    simp only [List.map_cons, List.mapM_cons]
    exact bind_follows hc fun a => bind_follows (ih hrest) fun others => rfl

end Lists

/-! ## Roles -/

/-- What a value is read as. -/
inductive Role
  /-- A default value, which is kept as it is. -/
  | default
  /-- Texts, flags and listed values, and whatever is not read. -/
  | plain
  | reference
  | schema
  /-- A table or a list of schemas. -/
  | schemas
  /-- Any other part of a document that has fields. -/
  | object
  /-- A table or a list of such parts. -/
  | objects
  deriving DecidableEq

namespace Role

/-- The role of what stands under a name. -/
def field (role : Role) (name : String) : Role :=
  match role with
  | .default => .default
  | .plain | .reference => if name = "$ref" then .reference else .plain
  | .schema => (List.lookup name [("$ref", reference), ("properties", schemas), ("allOf", schemas),
      ("items", schema), ("additionalProperties", schema), ("default", default)]).getD .plain
  | .schemas => .schema
  | .object => (List.lookup name ([("$ref", reference), ("schema", schema), ("items", schema),
      ("schemas", schemas), ("definitions", schemas), ("content", objects), ("responses", objects),
      ("parameters", objects), ("paths", objects), ("requestBody", object),
      ("components", object)] ++ Method.all.map fun method => (method.name, object))).getD .plain
  | .objects => .object

/-- Tables of the first role hold values of the second one. -/
inductive Tables : Role → Role → Prop
  | schemas : Tables .schemas .schema
  | objects : Tables .objects .object

/-- Lists of the first role hold values of the second one. -/
inductive Lists : Role → Role → Prop
  | plain : Lists .plain .plain
  | table {outer inner : Role} (h : outer.Tables inner) : Lists outer inner

/-- Values of the role are read as records with these fields. -/
inductive HasFields : Role → Setting → List String → Prop
  | schema (s : Setting) : HasFields .schema s schemaFields
  | object (names : List String) : HasFields .object .lenient names

end Role

/-! ## Rewritings -/

/-- A change of values, and what it makes of references and of default values. -/
structure Rewriting where
  apply : Role → Value → Value
  edit : Edit
  /-- The values that it is meant for. -/
  Fits : Value → Prop

variable {R : Rewriting}

/-- From a rewritten value a reader gets what it gets from the value, changed by `φ`. -/
def Rewriting.Follows {α : Type} (R : Rewriting) (role : Role) (read : Value → Option α)
    (φ : α → α) : Prop :=
  ∀ v : Value, R.Fits v → read (R.apply role v) = (read v).map φ

/-- The known fields of a value and those of the rewritten value. -/
structure Rewriting.Records (R : Rewriting) (role : Role) (fields fields' : Fields) : Prop where
  lookup : ∀ name, fields'.lookup name = (fields.lookup name).map (R.apply (role.field name))
  fits : ∀ name v, fields.lookup name = some v → R.Fits v

/-- The readers of single values see nothing else of a rewriting, and neither do lists, tables and
records of them. -/
structure Rewriting.Lawful (R : Rewriting) : Prop where
  keeps : R.edit.keeps = true
  null (role : Role) (v : Value) : R.apply role v = .null ↔ v = .null
  bool (role : Role) (v : Value) (b : Bool) : R.apply role v = .bool b ↔ v = .bool b
  depth (role : Role) {v : Value} (h : R.Fits v) : (R.apply role v).depth = v.depth
  hasTag (role : Role) {v : Value} (h : R.Fits v) : (R.apply role v).hasTag = v.hasTag
  default (v : Value) : R.apply .default v = R.edit.default v
  reference (s : Setting) : R.Follows .reference s.text? R.edit.reference
  text (s : Setting) : R.Follows .plain s.text? id
  flag (s : Setting) : R.Follows .plain s.flag? id
  choice : R.Follows .plain choice? id
  typeNames : R.Follows .plain typeNames? id
  list {α : Type} {φ : α → α} {read : Value → Option α} {outer inner : Role} (s : Setting)
    (h : outer.Lists inner) (hread : R.Follows inner read φ) :
    R.Follows outer (s.list? read) (List.map φ)
  table {α : Type} {φ : α → α} {read : Value → Option α} {outer inner : Role} (s : Setting)
    {name? : Value → Option String} (h : outer.Tables inner)
    (hname : ∀ text, name? (.text text) = some text) (hread : R.Follows inner read φ) :
    R.Follows outer (s.table? name? read) (Table.mapValues φ)
  record {role : Role} {s : Setting} {names : List String} (h : role.HasFields s names) {v : Value}
    (hv : R.Fits v) : (s.record? names v = none ∧ s.record? names (R.apply role v) = none) ∨
      ∃ fields fields', s.record? names v = some fields ∧
        s.record? names (R.apply role v) = some fields' ∧ R.Records role fields fields'

/-! ## Records -/

section Records

variable {α β : Type} {φ : α → α} {read : Value → Option α} {role inner : Role} {s : Setting}
  {names : List String} {name : String} {fields fields' : Fields} {v : Value}

/-- What is read from the fields of a record follows, if it does for fields that follow. -/
theorem Rewriting.Lawful.record_bind {ψ : α → β} {g : Fields → Option α} {g' : Fields → Option β}
    (hR : R.Lawful) (h : role.HasFields s names) (hv : R.Fits v)
    (hg : ∀ fields fields', R.Records role fields fields' → g' fields' = (g fields).map ψ) :
    s.record? names (R.apply role v) >>= g' = (s.record? names v >>= g).map ψ := by
  rcases hR.record h hv with ⟨hnone, hnone'⟩ | ⟨fields, fields', h, h', hfollows⟩
  · rw [hnone, hnone']
    rfl
  · rw [h, h']
    exact hg fields fields' hfollows

theorem Rewriting.Records.required (h : R.Records role fields fields')
    (hread : R.Follows (role.field name) read φ) :
    fields'.required name read = (fields.required name read).map φ := by
  rw [Fields.required, Fields.required, h.lookup]
  cases hfound : fields.lookup name with
  | none => rfl
  | some v => exact hread v (h.fits name v hfound)

theorem Rewriting.Records.withDefault {otherwise : α} (h : R.Records role fields fields')
    (hread : R.Follows (role.field name) read φ) (hotherwise : φ otherwise = otherwise) :
    fields'.withDefault name otherwise read = (fields.withDefault name otherwise read).map φ := by
  rw [Fields.withDefault, Fields.withDefault, h.lookup]
  cases hfound : fields.lookup name with
  | none => exact congrArg some hotherwise.symm
  | some v => exact hread v (h.fits name v hfound)

/-- Null and a field that is left out are the same, and stay so. -/
theorem Rewriting.Records.optional (hR : R.Lawful) (h : R.Records role fields fields')
    (hread : R.Follows (role.field name) read φ) :
    fields'.optional name read = (fields.optional name read).map (Option.map φ) := by
  have hlookup := h.lookup name
  cases hfound : fields.lookup name with
  | none =>
    rw [hfound] at hlookup
    rw [Fields.optional, Fields.optional, hfound, hlookup]
    rfl
  | some v =>
    rw [hfound, Option.map_some] at hlookup
    by_cases hv : v = .null
    · have hnull := (hR.null (role.field name) v).mpr hv
      rw [Fields.optional, Fields.optional, hfound, hlookup, hnull, hv]
      rfl
    · have hnull := mt (hR.null (role.field name) v).mp hv
      rw [Fields.optional_eq hlookup hnull, Fields.optional_eq hfound hv,
        hread v (h.fits name v hfound), Option.map_map, Option.map_map]
      rfl

end Records

/-! ## Schemas -/

namespace Rewriting.Lawful

variable (hR : R.Lawful)

include hR

theorem additional? {read : Value → Option Schema}
    (hread : R.Follows .schema read (Schema.edit R.edit)) :
    R.Follows .schema (Reading.additional? read) (Additional.map (Schema.edit R.edit)) := by
  have hvalues : ∀ {v : Value}, (∀ b, v ≠ .bool b) → Reading.additional? read v =
      if v.hasTag then none else (read v).map .values := by
    intro v hv
    cases v with
    | bool b => exact absurd rfl (hv b)
    | _ => rfl
  intro v hv
  by_cases hbool : ∃ b, v = .bool b
  · obtain ⟨b, rfl⟩ := hbool
    rw [(hR.bool .schema _ b).mpr rfl]
    rfl
  · have hother := not_exists.mp hbool
    rw [hvalues hother, hvalues fun b => mt (hR.bool .schema v b).mp (hother b),
      hR.hasTag .schema hv, hread v hv]
    split
    · rfl
    · rw [Option.map_map, Option.map_map]
      rfl

theorem schemaWithin? (depth : Nat) (s : Setting) :
    R.Follows .schema (Reading.schemaWithin? depth s) (Schema.edit R.edit) := by
  induction depth generalizing s with
  | zero => exact fun _ _ => rfl
  | succ depth ih =>
    intro v hv
    have hname : ∀ text, s.text? (.text text) = some text := fun _ => by cases s <;> rfl
    have hdefault : R.Follows .default some R.edit.default := fun v _ => by rw [hR.default]; rfl
    refine hR.record_bind (.schema s) hv fun fields fields' h => ?_
    refine bind_follows (h.optional hR (hR.reference s)) fun reference => ?_
    refine bind_follows (h.optional hR hR.typeNames) fun typeNames => ?_
    refine bind_follows (h.optional hR (hR.text s)) fun format => ?_
    refine bind_follows (h.optional hR (hR.text s)) fun description => ?_
    refine bind_follows (h.withDefault (hR.table s .schemas hname (ih s)) rfl)
      fun properties => ?_
    refine bind_follows (h.withDefault (hR.list s .plain (hR.text s)) rfl) fun required => ?_
    refine bind_follows (h.optional hR (ih s)) fun items => ?_
    refine bind_follows (h.withDefault (hR.list s .plain hR.choice) rfl) fun choices => ?_
    refine bind_follows (h.withDefault (hR.list s .plain (hR.text s)) rfl) fun choiceNames => ?_
    refine bind_follows (h.withDefault (hR.list s (.table .schemas) (ih s)) rfl) fun parts => ?_
    refine bind_follows (h.optional hR (hR.additional? (ih .strict))) fun additional => ?_
    refine bind_follows (h.optional hR hdefault) fun default => ?_
    simp only [Option.map_id, List.map_id_fun, id_eq]
    refine congrArg some ?_
    rw [Schema.edit_eq, R.edit.text_of_keeps hR.keeps]

theorem schema? : R.Follows .schema Reading.schema? (Schema.edit R.edit) := by
  intro v hv
  rw [Reading.schema?, hR.depth .schema hv]
  exact hR.schemaWithin? v.depth .lenient v hv

/-! ## Operations -/

theorem parameter? : R.Follows .object Reading.parameter? (Parameter.edit R.edit) := by
  intro v hv
  refine hR.record_bind (.object _) hv fun fields fields' h => ?_
  refine bind_follows (h.required (hR.text .lenient)) fun name => ?_
  refine bind_follows (h.required (hR.text .lenient)) fun place => ?_
  refine bind_follows (h.optional hR (hR.text .lenient)) fun description => ?_
  refine bind_follows (h.withDefault (hR.flag .lenient) rfl) fun required => ?_
  refine bind_follows (h.optional hR hR.schema?) fun schema => ?_
  refine bind_follows (h.optional hR (hR.text .lenient)) fun typeName => ?_
  refine bind_follows (h.optional hR (hR.text .lenient)) fun format => ?_
  refine bind_follows (h.optional hR hR.schema?) fun items => ?_
  refine bind_follows (h.withDefault (hR.list .lenient .plain hR.choice) rfl) fun choices => ?_
  refine bind_follows (h.withDefault (hR.list .lenient .plain (hR.text .lenient)) rfl)
    fun choiceNames => ?_
  simp only [Option.map_id, List.map_id_fun, id_eq]
  refine congrArg some ?_
  rw [Parameter.edit, R.edit.text_of_keeps hR.keeps]

theorem mediaType? : R.Follows .object Reading.mediaType? (Option.map (Schema.edit R.edit)) := by
  intro v hv
  exact hR.record_bind (.object _) hv fun fields fields' h => h.optional hR hR.schema?

theorem content? : R.Follows .objects Reading.content? (Content.edit R.edit) :=
  hR.table .lenient .objects (fun _ => rfl) hR.mediaType?

theorem requestBody? : R.Follows .object Reading.requestBody? (RequestBody.edit R.edit) := by
  intro v hv
  refine hR.record_bind (.object _) hv fun fields fields' h => ?_
  refine bind_follows (h.optional hR (hR.text .lenient)) fun description => ?_
  refine bind_follows (h.withDefault (hR.flag .lenient) rfl) fun required => ?_
  refine bind_follows (h.withDefault hR.content? rfl) fun content => ?_
  simp only [Option.map_id, id_eq]
  refine congrArg some ?_
  rw [RequestBody.edit, R.edit.text_of_keeps hR.keeps]

theorem response? : R.Follows .object Reading.response? (Response.edit R.edit) := by
  intro v hv
  refine hR.record_bind (.object _) hv fun fields fields' h => ?_
  refine bind_follows (h.optional hR (hR.text .lenient)) fun description => ?_
  refine bind_follows (h.withDefault hR.content? rfl) fun content => ?_
  refine bind_follows (h.optional hR hR.schema?) fun schema => ?_
  simp only [Option.map_id, id_eq]
  refine congrArg some ?_
  rw [Response.edit, R.edit.text_of_keeps hR.keeps]

theorem operation? : R.Follows .object Reading.operation? (Operation.edit R.edit) := by
  intro v hv
  have hcode : ∀ text, statusCode? (.text text) = some text := fun _ => rfl
  refine hR.record_bind (.object _) hv fun fields fields' h => ?_
  refine bind_follows (h.optional hR (hR.text .lenient)) fun summary => ?_
  refine bind_follows (h.optional hR (hR.text .lenient)) fun description => ?_
  refine bind_follows (h.withDefault (hR.list .lenient (.table .objects) hR.parameter?) rfl)
    fun parameters => ?_
  refine bind_follows (h.optional hR hR.requestBody?) fun requestBody => ?_
  refine bind_follows (h.withDefault (hR.table .lenient .objects hcode hR.response?) rfl)
    fun responses => ?_
  simp only [Option.map_id, id_eq]
  refine congrArg some ?_
  rw [Operation.edit, R.edit.text_of_keeps hR.keeps, R.edit.text_of_keeps hR.keeps]

theorem pathItem? : R.Follows .object Reading.pathItem? (PathItem.edit R.edit) := by
  intro v hv
  refine hR.record_bind (.object _) hv fun fields fields' h => ?_
  let reading (fields : Fields) (method : Method) : Option (Option (Method × Operation)) := do
    let operation ← fields.optional method.name Reading.operation?
    return operation.map fun operation => (method, operation)
  have hreading : ∀ method ∈ Method.all, reading fields' method = (reading fields method).map
      (Option.map (Prod.map id (Operation.edit R.edit))) := by
    intro method _
    have hrole : Role.object.field method.name = .object := by cases method <;> rfl
    refine bind_follows (h.optional hR (hrole ▸ hR.operation?)) fun operation => congrArg some ?_
    cases operation <;> rfl
  have hoperations : Method.all.mapM (reading fields') = (Method.all.mapM (reading fields)).map
      (List.map (Option.map (Prod.map id (Operation.edit R.edit)))) :=
    mapM_follows (ψ := id) hreading
  refine bind_follows hoperations fun operations => ?_
  refine bind_follows (h.withDefault (hR.list .lenient (.table .objects) hR.parameter?) rfl)
    fun parameters => ?_
  rw [List.filterMap_map]
  refine congrArg some ?_
  rw [PathItem.edit, List.map_filterMap]
  rfl

/-! ## Documents -/

theorem schemas? : R.Follows .schemas Reading.schemas? (Table.mapValues (Schema.edit R.edit)) :=
  hR.table .lenient .schemas (fun _ => rfl) hR.schema?

theorem paths? : R.Follows .objects (Setting.lenient.table? lenientText? Reading.pathItem?)
    (Table.mapValues (PathItem.edit R.edit)) :=
  hR.table .lenient .objects (fun _ => rfl) hR.pathItem?

theorem components? :
    R.Follows .object Reading.components? (Table.mapValues (Schema.edit R.edit)) := by
  intro v hv
  exact hR.record_bind (.object _) hv fun fields fields' h => h.withDefault hR.schemas? rfl

theorem document? (dialect : Dialect) (version : String) :
    R.Follows .object (Reading.document? dialect version) (Document.edit R.edit) := by
  intro v hv
  refine hR.record_bind (.object _) hv fun fields fields' h => ?_
  refine bind_follows (h.withDefault hR.paths? rfl) fun paths => ?_
  refine bind_follows (h.optional hR hR.components?) fun components => ?_
  refine bind_follows (h.withDefault hR.schemas? rfl) fun definitions => ?_
  refine congrArg some ?_
  cases dialect with
  | openApi3 => cases components <;> rfl
  | swagger2 => rfl

end Rewriting.Lawful

end RestThrift.Api.Reading
