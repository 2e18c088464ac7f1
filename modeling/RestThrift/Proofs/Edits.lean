import Mathlib
import RestThrift.Proofs.Origins

/-!
# Edited documents

An edit changes the references and the default values in all schemas of a document, and may take
all descriptions away. Besides these themselves nothing that is asked of a schema or of an operation
depends on them.
-/
namespace RestThrift

namespace Api

open RestThrift.Yaml (Value)

/-- What becomes of references and of default values, and whether descriptions stay. -/
structure Edit where
  reference : String → String := id
  default : Value → Value := id
  keeps : Bool := true

/-- What becomes of a description or of a summary. -/
def Edit.text (e : Edit) (description : Option String) : Option String :=
  match e.keeps with
  | true => description
  | false => none

/-- What becomes of the comments that are made of descriptions. -/
def Edit.comments (e : Edit) (comments : List Comment) : List Comment :=
  match e.keeps with
  | true => comments
  | false => []

variable {e : Edit}

theorem Edit.text_empty (description : Option String) : Edit.text {} description = description :=
  rfl

theorem Edit.text_none {e : Edit} : e.text none = none := by
  rw [text]
  cases e.keeps <;> rfl

theorem Edit.describe_text (description : Option String) :
    describe (e.text description) = e.comments (describe description) := by
  rw [text, comments]
  cases e.keeps <;> rfl

theorem Edit.comments_of_keeps (h : e.keeps = true) : e.comments = id := by
  funext comments
  rw [Edit.comments, h, id]

theorem Edit.text_of_keeps (h : e.keeps = true) (description : Option String) :
    e.text description = description := by
  rw [text, h]

/-! ## Schemas -/

def Additional.map {α β : Type} (φ : α → β) : Additional α → Additional β
  | .unspecified => .unspecified
  | .values a => .values (φ a)

namespace Schema

mutual
/-- The schema with the references, default values and descriptions in it changed. -/
def edit (e : Edit) (s : Schema) : Schema :=
  match s with
  | { reference, typeNames, format, description, properties, required, items, choices, choiceNames
      parts, additional, default } =>
    { typeNames, format, required, choices, choiceNames
      reference := reference.map e.reference, description := e.text description
      properties := editProperties e properties, items := editItems e items
      parts := editParts e parts, additional := editAdditional e additional
      default := default.map e.default }

def editProperties (e : Edit) : List (String × Schema) → List (String × Schema)
  | [] => []
  | (name, s) :: rest => (name, edit e s) :: editProperties e rest

def editItems (e : Edit) : Option Schema → Option Schema
  | none => none
  | some s => some (edit e s)

def editParts (e : Edit) : List Schema → List Schema
  | [] => []
  | s :: rest => edit e s :: editParts e rest

def editAdditional (e : Edit) : Option (Additional Schema) → Option (Additional Schema)
  | none => none
  | some .unspecified => some .unspecified
  | some (.values s) => some (.values (edit e s))
end

theorem editProperties_eq (properties : List (String × Schema)) :
    editProperties e properties = Table.mapValues (edit e) properties := by
  induction properties with
  | nil => rfl
  | cons entry rest ih =>
    rw [editProperties, ih]
    rfl

theorem editItems_eq (items : Option Schema) : editItems e items = items.map (edit e) := by
  cases items <;> rfl

theorem editParts_eq (parts : List Schema) : editParts e parts = parts.map (edit e) := by
  induction parts with
  | nil => rfl
  | cons part rest ih => rw [editParts, ih, List.map_cons]

theorem editAdditional_eq (additional : Option (Additional Schema)) :
    editAdditional e additional = additional.map (Additional.map (edit e)) := by
  rcases additional with _ | _ | _ <;> rfl

theorem edit_eq (s : Schema) : s.edit e =
    { s with
      reference := s.reference.map e.reference
      description := e.text s.description
      properties := Table.mapValues (edit e) s.properties
      items := s.items.map (edit e)
      parts := s.parts.map (edit e)
      additional := s.additional.map (Additional.map (edit e))
      default := s.default.map e.default } := by
  cases s
  simp only [edit, editProperties_eq, editItems_eq, editParts_eq, editAdditional_eq]

section Fields

variable (s : Schema)

@[simp] theorem reference_edit : (s.edit e).reference = s.reference.map e.reference := by
  rw [edit_eq]

@[simp] theorem typeNames_edit : (s.edit e).typeNames = s.typeNames := by
  rw [edit_eq]

@[simp] theorem format_edit : (s.edit e).format = s.format := by
  rw [edit_eq]

@[simp] theorem description_edit : (s.edit e).description = e.text s.description := by
  rw [edit_eq]

@[simp] theorem properties_edit :
    (s.edit e).properties = Table.mapValues (edit e) s.properties := by
  rw [edit_eq]

@[simp] theorem required_edit : (s.edit e).required = s.required := by
  rw [edit_eq]

@[simp] theorem items_edit : (s.edit e).items = s.items.map (edit e) := by
  rw [edit_eq]

@[simp] theorem choices_edit : (s.edit e).choices = s.choices := by
  rw [edit_eq]

@[simp] theorem choiceNames_edit : (s.edit e).choiceNames = s.choiceNames := by
  rw [edit_eq]

@[simp] theorem parts_edit : (s.edit e).parts = s.parts.map (edit e) := by
  rw [edit_eq]

@[simp] theorem additional_edit :
    (s.edit e).additional = s.additional.map (Additional.map (edit e)) := by
  rw [edit_eq]

@[simp] theorem default_edit : (s.edit e).default = s.default.map e.default := by
  rw [edit_eq]

@[simp] theorem isEmpty_mapValues {α β : Type} {φ : α → β} (table : Table α) :
    (Table.mapValues φ table).isEmpty = table.isEmpty := List.isEmpty_map

@[simp] theorem kind?_edit : (s.edit e).kind? = s.kind? := by
  simp only [kind?, typeNames_edit]

@[simp] theorem isObjectLike_edit : (s.edit e).isObjectLike = s.isObjectLike := by
  simp only [isObjectLike, kind?_edit]

@[simp] theorem isUnconstrained_edit :
    (s.edit e).isUnconstrained = s.isUnconstrained := by
  simp [isUnconstrained]

@[simp] theorem isAlias_edit : (s.edit e).isAlias = s.isAlias := by
  simp [isAlias]

theorem valueSchema?_edit :
    (s.edit e).valueSchema? = s.valueSchema?.map (edit e) := by
  simp only [valueSchema?, additional_edit]
  rcases s.additional with _ | _ | _ <;> rfl

theorem soleReference?_edit :
    (s.edit e).soleReference? = s.soleReference?.map (edit e) := by
  simp only [soleReference?, parts_edit, properties_edit, isEmpty_mapValues]
  match s.parts with
  | [] => rfl
  | [part] =>
    simp only [List.map_cons, List.map_nil, reference_edit, Option.isSome_map]
    split <;> rfl
  | _ :: _ :: _ => rfl

end Fields

mutual
theorem size_edit (s : Schema) : (s.edit e).size = s.size := by
  match s with
  | { properties, items, parts, additional, .. } =>
    simp only [edit, size]
    rw [size_editProperties properties, size_editItems items, size_editParts parts,
      size_editAdditional additional]

theorem size_editProperties (properties : List (String × Schema)) :
    sizeProperties (editProperties e properties) = sizeProperties properties := by
  match properties with
  | [] => rfl
  | (_, s) :: rest =>
    simp only [editProperties, sizeProperties]
    rw [size_edit s, size_editProperties rest]

theorem size_editItems (items : Option Schema) :
    sizeItems (editItems e items) = sizeItems items := by
  match items with
  | none => rfl
  | some s =>
    simp only [editItems, sizeItems]
    exact size_edit s

theorem size_editParts (parts : List Schema) :
    sizeParts (editParts e parts) = sizeParts parts := by
  match parts with
  | [] => rfl
  | s :: rest =>
    simp only [editParts, sizeParts]
    rw [size_edit s, size_editParts rest]

theorem size_editAdditional (additional : Option (Additional Schema)) :
    sizeAdditional (editAdditional e additional) = sizeAdditional additional := by
  match additional with
  | none => rfl
  | some .unspecified => rfl
  | some (.values s) =>
    simp only [editAdditional, sizeAdditional]
    exact size_edit s
end

mutual
theorem edit_empty (s : Schema) : s.edit {} = s := by
  match s with
  | { properties, items, parts, additional, .. } =>
    simp only [edit, Edit.text_empty, Option.map_id, id_eq]
    rw [editProperties_empty properties, editItems_empty items, editParts_empty parts,
      editAdditional_empty additional]

theorem editProperties_empty (properties : List (String × Schema)) :
    editProperties {} properties = properties := by
  match properties with
  | [] => rfl
  | (_, s) :: rest => rw [editProperties, edit_empty s, editProperties_empty rest]

theorem editItems_empty (items : Option Schema) : editItems {} items = items := by
  match items with
  | none => rfl
  | some s => rw [editItems, edit_empty s]

theorem editParts_empty (parts : List Schema) : editParts {} parts = parts := by
  match parts with
  | [] => rfl
  | s :: rest => rw [editParts, edit_empty s, editParts_empty rest]

theorem editAdditional_empty (additional : Option (Additional Schema)) :
    editAdditional {} additional = additional := by
  match additional with
  | none => rfl
  | some .unspecified => rfl
  | some (.values s) => rw [editAdditional, edit_empty s]
end

end Schema

/-! ## Operations -/

def Parameter.edit (e : Edit) (p : Parameter) : Parameter :=
  { p with
    description := e.text p.description
    schema := p.schema.map (Schema.edit e)
    items := p.items.map (Schema.edit e) }

def Content.edit (e : Edit) (content : Content) : Content :=
  Table.mapValues (Option.map (Schema.edit e)) content

def RequestBody.edit (e : Edit) (body : RequestBody) : RequestBody :=
  { body with description := e.text body.description, content := body.content.edit e }

def Response.edit (e : Edit) (response : Response) : Response :=
  { response with
    description := e.text response.description
    content := response.content.edit e
    schema := response.schema.map (Schema.edit e) }

def Operation.edit (e : Edit) (operation : Operation) : Operation :=
  { operation with
    summary := e.text operation.summary
    description := e.text operation.description
    parameters := operation.parameters.map (Parameter.edit e)
    requestBody := operation.requestBody.map (RequestBody.edit e)
    responses := Table.mapValues (Response.edit e) operation.responses }

def PathItem.edit (e : Edit) (item : PathItem) : PathItem :=
  { operations := item.operations.map (Prod.map id (Operation.edit e))
    parameters := item.parameters.map (Parameter.edit e) }

def Document.edit (e : Edit) (document : Document) : Document :=
  { document with
    paths := Table.mapValues (PathItem.edit e) document.paths
    schemas := Table.mapValues (Schema.edit e) document.schemas }

def Body.edit (e : Edit) (body : Body) : Body :=
  { body with schema := body.schema.edit e, description := e.text body.description }

theorem Parameter.description_edit (p : Parameter) :
    (p.edit e).description = e.text p.description := rfl

theorem Response.description_edit (response : Response) :
    (response.edit e).description = e.text response.description := rfl

theorem Parameter.effectiveSchema_edit (p : Parameter) :
    (p.edit e).effectiveSchema = p.effectiveSchema.edit e := by
  obtain ⟨name, place, description, required, schema, typeName, format, items, choices, names⟩ := p
  cases schema with
  | some schema => rfl
  | none => rw [Schema.edit_eq]; rfl

theorem Content.schema?_edit (content : Content) :
    (content.edit e).schema? = content.schema?.map (Schema.edit e) := by
  have hjson : ((content.edit e).get? "application/json").join =
      ((content.get? "application/json").join).map (Schema.edit e) := by
    rw [edit, Table.get?_mapValues, Option.join_map_eq_map_join]
  rw [schema?, schema?, hjson]
  cases (content.get? "application/json").join with
  | some schema => rfl
  | none =>
    simp only [Option.map_none, edit, Table.mapValues, List.findSome?_map,
      List.map_findSome?]
    rfl

theorem Response.effectiveSchema?_edit (response : Response) :
    (response.edit e).effectiveSchema? =
      response.effectiveSchema?.map (Schema.edit e) := by
  obtain ⟨description, content, schema⟩ := response
  cases schema with
  | some schema => rfl
  | none => exact content.schema?_edit

theorem PathItem.operation?_edit (item : PathItem) (method : Method) :
    (item.edit e).operation? method =
      (item.operation? method).map (Operation.edit e) :=
  Table.lookup_map item.operations

theorem Operation.successSchema?_edit (operation : Operation) :
    (operation.edit e).successSchema? =
      operation.successSchema?.map (Schema.edit e) := by
  have hok : ((operation.edit e).responses.get? "200").bind Response.effectiveSchema? =
      ((operation.responses.get? "200").bind Response.effectiveSchema?).map
        (Schema.edit e) := by
    simp only [edit, Table.get?_mapValues, Option.bind_map, Option.map_bind]
    exact congrArg _ (funext Response.effectiveSchema?_edit)
  rw [successSchema?, successSchema?, hok]
  cases (operation.responses.get? "200").bind Response.effectiveSchema? with
  | some schema => rfl
  | none =>
    simp only [Option.map_none, edit, Table.mapValues, List.filter_map, List.findSome?_map,
      List.map_findSome?]
    exact congrArg (List.findSome? · _)
      (funext fun entry => Response.effectiveSchema?_edit entry.2)

theorem Operation.documentation?_edit (operation : Operation) :
    (operation.edit e).documentation? = e.text operation.documentation? := by
  obtain ⟨reference, default, keeps⟩ := e
  cases keeps <;> rfl

theorem Operation.effectiveParameters_edit (operation : Operation) (item : PathItem) :
    (operation.edit e).effectiveParameters (item.edit e) =
      (operation.effectiveParameters item).map (Parameter.edit e) := by
  simp only [effectiveParameters, edit, PathItem.edit, List.filter_map, List.any_map,
    List.map_append]
  rfl

theorem Operation.body?_edit (operation : Operation) (parameters : List Parameter) :
    (operation.edit e).body? (parameters.map (Parameter.edit e)) =
      (operation.body? parameters).map (Body.edit e) := by
  obtain ⟨summary, description, own, requestBody, responses⟩ := operation
  cases requestBody with
  | some body =>
    simp only [body?, edit, Option.map_some, RequestBody.edit,
      Content.schema?_edit, Option.map_map]
    rfl
  | none =>
    simp only [body?, edit, Option.map_none, List.filter_map, List.findSome?_map,
      List.map_findSome?]
    refine congrArg (List.findSome? · _) (funext fun p => ?_)
    simp only [Function.comp_apply, Parameter.edit, Option.map_map]
    rfl

theorem Document.edit_empty (document : Document) : document.edit {} = document := by
  have hschema : Schema.edit {} = id := funext Schema.edit_empty
  have hvalues : ∀ {α : Type}, Table.mapValues (id : α → α) = id := by
    intro α
    funext table
    rw [Table.mapValues, Prod.map_id, List.map_id, id]
  have hcontent : Content.edit {} = id := by
    funext content
    rw [Content.edit, hschema, Option.map_id, hvalues]
  have hparameter : Parameter.edit {} = id := by
    funext p
    simp only [Parameter.edit, Edit.text_empty, hschema, Option.map_id, id_eq]
  have hbody : RequestBody.edit {} = id := by
    funext body
    simp only [RequestBody.edit, Edit.text_empty, hcontent, id_eq]
  have hresponse : Response.edit {} = id := by
    funext response
    simp only [Response.edit, Edit.text_empty, hcontent, hschema, Option.map_id, id_eq]
  have hoperation : Operation.edit {} = id := by
    funext operation
    simp only [Operation.edit, Edit.text_empty, hparameter, hbody, hresponse, hvalues,
      Option.map_id, List.map_id, id_eq]
  have hitem : PathItem.edit {} = id := by
    funext item
    simp only [PathItem.edit, hparameter, hoperation, Prod.map_id, List.map_id, id_eq]
  simp only [edit, hitem, hschema, hvalues, id_eq]

end Api

namespace Convert

variable {e : Api.Edit}

theorem wrappedData?_edit (resolved : Option Api.Schema) :
    wrappedData? (resolved.map (Api.Schema.edit e)) =
      (wrappedData? resolved).map (Api.Schema.edit e) := by
  cases resolved with
  | none => rfl
  | some wrapper =>
    simp only [wrappedData?, Option.map_some, Option.filter_some,
      Api.Schema.isObjectLike_edit]
    cases wrapper.isObjectLike with
    | false => rfl
    | true =>
      have hdata : (["Data", "data"].findSome? fun name =>
            (wrapper.edit e).properties.lookup name) =
          (["Data", "data"].findSome? fun name => wrapper.properties.lookup name).map
            (Api.Schema.edit e) := by
        rw [List.map_findSome?]
        refine congrArg (List.findSome? · _) (funext fun name => ?_)
        rw [Api.Schema.properties_edit, Table.mapValues, Table.lookup_map]
        rfl
      simp only [if_true, hdata]
      cases ["Data", "data"].findSome? fun name => wrapper.properties.lookup name with
      | none => rfl
      | some data =>
        simp only [Option.map_some, Option.filter_some, Api.Schema.reference_edit,
          Option.isSome_map]
        cases data.reference.isSome <;> rfl

/-- The edited references name the same schemas. -/
def KeepsKeys (e : Api.Edit) : Prop :=
  ∀ reference, definitionKey (e.reference reference) = definitionKey reference

theorem resultSchema_edit {glossary other : Glossary} (hkeys : KeepsKeys e)
    (hschemas : other.schemas = Table.mapValues (Api.Schema.edit e) glossary.schemas)
    (schema : Api.Schema) : resultSchema other (schema.edit e) =
      Prod.map (Api.Schema.edit e) id (resultSchema glossary schema) := by
  have hresolve : ∀ reference, other.resolve? (e.reference reference) =
      (glossary.resolve? reference).map (Api.Schema.edit e) := by
    intro reference
    rw [Glossary.resolve?, hkeys, hschemas, Table.get?_mapValues, Glossary.resolve?]
  have hresolved : (schema.edit e).reference.elim (some (schema.edit e))
      other.resolve? = (schema.reference.elim (some schema) glossary.resolve?).map
        (Api.Schema.edit e) := by
    rw [Api.Schema.reference_edit]
    cases schema.reference with
    | none => rfl
    | some reference => exact hresolve reference
  rw [resultSchema_eq, resultSchema_eq, hresolved, wrappedData?_edit]
  cases wrappedData? (schema.reference.elim (some schema) glossary.resolve?) <;> rfl

/-! ## Merged leaves -/

theorem mergeLeaf_edit (merged leaf : Api.Schema) :
    Glossary.mergeLeaf (merged.edit e) (leaf.edit e) =
      (Glossary.mergeLeaf merged leaf).edit e := by
  have hproperties : (leaf.edit e).properties.foldl
      (fun table entry => Table.insert entry.1 entry.2 table) (merged.edit e).properties =
      Table.mapValues (Api.Schema.edit e) (leaf.properties.foldl
        (fun table entry => Table.insert entry.1 entry.2 table) merged.properties) := by
    rw [Api.Schema.properties_edit, Api.Schema.properties_edit]
    exact Table.insertAll_mapValues leaf.properties merged.properties
  have hdescription : (Glossary.mergeLeaf (merged.edit e) (leaf.edit e)).description =
      e.text (Glossary.mergeLeaf merged leaf).description := by
    simp only [Glossary.mergeLeaf, Api.Schema.description_edit, Api.Edit.text]
    cases e.keeps <;> rfl
  rw [Api.Schema.edit_eq (Glossary.mergeLeaf merged leaf), ← hdescription, Glossary.mergeLeaf,
    hproperties, Api.Schema.required_edit, Api.Schema.required_edit, Api.Schema.edit_eq merged]
  rfl

theorem foldl_mergeLeaf_edit (leaves : List Api.Schema) (merged : Api.Schema) :
    (leaves.map (Api.Schema.edit e)).foldl Glossary.mergeLeaf (merged.edit e) =
      (leaves.foldl Glossary.mergeLeaf merged).edit e := by
  induction leaves generalizing merged with
  | nil => rfl
  | cons leaf rest ih =>
    rw [List.map_cons, List.foldl_cons, mergeLeaf_edit, ih, List.foldl_cons]

end Convert

end RestThrift
