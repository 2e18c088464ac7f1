import Mathlib
import RestThrift.Proofs.Reading

/-!
# Schemas that are read

The properties of a schema are read into a sorted table, at every depth of the document. So are
those of every schema that a conversion looks at: no object names a property twice. Integers among
listed values have 64 bits.
-/
namespace RestThrift

namespace Api

/-- Integers have 64 bits with their signs. -/
def Choice.Sized : Choice → Prop
  | .int n => isSigned64 n = true
  | _ => True

theorem Choice.sized_ofInt (n : Int) : (ofInt n).Sized := by
  rw [ofInt]
  split
  · assumption
  · trivial

/-- The properties stand in the order of their names and listed integers have 64 bits, here and in
all schemas inside. -/
inductive Schema.Tidy : Schema → Prop
  | intro {s : Schema} (hsorted : Table.Sorted s.properties)
      (hproperties : ∀ entry ∈ s.properties, Tidy entry.2) (hitems : ∀ inner ∈ s.items, Tidy inner)
      (hparts : ∀ part ∈ s.parts, Tidy part)
      (hvalues : ∀ inner, s.valueSchema? = some inner → Tidy inner)
      (hchoices : ∀ choice ∈ s.choices, choice.Sized) : Tidy s

theorem Schema.Tidy.sorted {s : Schema} (h : s.Tidy) : Table.Sorted s.properties := by
  cases h with
  | intro hsorted => exact hsorted

theorem Schema.Tidy.choices {s : Schema} (h : s.Tidy) : ∀ choice ∈ s.choices, choice.Sized := by
  cases h with
  | intro _ _ _ _ _ hchoices => exact hchoices

/-- What a tidy document holds is tidy. -/
theorem Held.tidy {schemas : Table Schema} {stated : Schema → Prop} {s : Schema}
    (hnamed : ∀ entry ∈ schemas, entry.2.Tidy) (hstated : ∀ s, stated s → s.Tidy)
    (h : Held schemas stated s) : s.Tidy := by
  induction h with
  | stated h => exact hstated _ h
  | named h => exact hnamed _ h
  | property _ hentry ih =>
    cases ih with
    | intro _ hproperties => exact hproperties _ hentry
  | items _ hitems ih =>
    cases ih with
    | intro _ _ hinner => exact hinner _ hitems
  | part _ hpart ih =>
    cases ih with
    | intro _ _ _ hparts => exact hparts _ hpart
  | value _ hvalue ih =>
    cases ih with
    | intro _ _ _ _ hvalues => exact hvalues _ hvalue

namespace Reading

open RestThrift.Yaml (Value)

variable {value : Value}

/-! ## Schemas -/

theorem list?_keeps {α : Type} {s : Setting} {read : Value → Option α} {P : α → Prop}
    {items : List α} (hread : ∀ value a, read value = some a → P a)
    (h : s.list? read value = some items) : ∀ item ∈ items, P item := by
  obtain ⟨values, -, h⟩ := Option.bind_eq_some_iff.mp h
  intro item hitem
  obtain ⟨v, -, hv⟩ := exists_of_mem_mapM h hitem
  exact hread _ _ hv

theorem additional?_keeps {read : Value → Option Schema} {P : Schema → Prop}
    {additional : Additional Schema} (hread : ∀ value s, read value = some s → P s)
    (h : additional? read value = some additional) : ∀ s, additional = .values s → P s := by
  rintro s rfl
  simp only [additional?] at h
  split at h
  · cases h
  · split at h
    · cases h
    · obtain ⟨inner, hinner, heq⟩ := Option.map_eq_some_iff.mp h
      obtain rfl := Additional.values.inj heq
      exact hread _ _ hinner

theorem sized_choice? {choice : Choice} (h : choice? value = some choice) : choice.Sized := by
  cases value with
  | number n =>
    cases n with
    | int n => exact Option.some.inj h ▸ Choice.sized_ofInt n
    | float x => exact Option.some.inj h ▸ trivial
  | text _ => exact Option.some.inj h ▸ trivial
  | bool _ => exact Option.some.inj h ▸ trivial
  | null => exact Option.some.inj h ▸ trivial
  | _ => cases h

/-- A list of values that may be left out. -/
theorem sized_choices {fields : Fields} {s : Setting} {name : String} {choices : List Choice}
    (h : fields.withDefault name [] (s.list? choice?) = some choices) :
    ∀ choice ∈ choices, choice.Sized :=
  Fields.withDefault_keeps (P := fun choices : List Choice => ∀ choice ∈ choices, choice.Sized)
    (fun _ h => absurd h List.not_mem_nil)
    (fun _ _ h => list?_keeps (fun _ _ h => sized_choice? h) h) h

theorem tidy_schemaWithin? {depth : Nat} {s : Setting} {schema : Schema}
    (h : schemaWithin? depth s value = some schema) : schema.Tidy := by
  induction depth generalizing s value schema with
  | zero => cases h
  | succ depth ih =>
    have hread : ∀ s value inner, schemaWithin? depth s value = some inner → inner.Tidy :=
      fun _ _ _ h => ih h
    obtain ⟨fields, -, h⟩ := Option.bind_eq_some_iff.mp h
    obtain ⟨reference, -, h⟩ := Option.bind_eq_some_iff.mp h
    obtain ⟨typeNames, -, h⟩ := Option.bind_eq_some_iff.mp h
    obtain ⟨format, -, h⟩ := Option.bind_eq_some_iff.mp h
    obtain ⟨description, -, h⟩ := Option.bind_eq_some_iff.mp h
    obtain ⟨properties, hproperties, h⟩ := Option.bind_eq_some_iff.mp h
    obtain ⟨required, -, h⟩ := Option.bind_eq_some_iff.mp h
    obtain ⟨items, hitems, h⟩ := Option.bind_eq_some_iff.mp h
    obtain ⟨choices, hchoices, h⟩ := Option.bind_eq_some_iff.mp h
    obtain ⟨choiceNames, -, h⟩ := Option.bind_eq_some_iff.mp h
    obtain ⟨parts, hparts, h⟩ := Option.bind_eq_some_iff.mp h
    obtain ⟨additional, hadditional, h⟩ := Option.bind_eq_some_iff.mp h
    obtain ⟨default, -, h⟩ := Option.bind_eq_some_iff.mp h
    obtain rfl := Option.some.inj h
    refine .intro ?_ ?_ ?_ ?_ (fun inner hinner => ?_) (sized_choices hchoices)
    · exact Fields.withDefault_keeps Table.sorted_nil (fun _ _ h => sorted_table? h) hproperties
    · exact Fields.withDefault_keeps (P := fun table : Table Schema => ∀ entry ∈ table,
        entry.2.Tidy) (fun _ h => absurd h List.not_mem_nil)
        (fun _ _ h => table?_keeps (hread s) h) hproperties
    · exact Fields.optional_keeps (hread s) hitems
    · exact Fields.withDefault_keeps (P := fun parts : List Schema => ∀ part ∈ parts, part.Tidy)
        (fun _ h => absurd h List.not_mem_nil) (fun _ _ h => list?_keeps (hread s) h) hparts
    · have hall := Fields.optional_keeps
        (fun _ _ h => additional?_keeps (hread .strict) h) hadditional
      simp only [Schema.valueSchema?] at hinner
      split at hinner
      · obtain rfl := Option.some.inj hinner
        exact hall _ rfl _ rfl
      · cases hinner

theorem tidy_schema? {schema : Schema} (h : schema? value = some schema) : schema.Tidy :=
  tidy_schemaWithin? h

theorem tidy_schemas? {table : Table Schema} (h : schemas? value = some table) :
    ∀ entry ∈ table, entry.2.Tidy :=
  table?_keeps (fun _ _ h => tidy_schema? h) h

end Reading

/-! ## Operations -/

/-- The schemas in a parameter are tidy. -/
structure Parameter.Tidy (p : Parameter) : Prop where
  schema : ∀ s ∈ p.schema, s.Tidy
  items : ∀ s ∈ p.items, s.Tidy
  choices : ∀ choice ∈ p.choices, choice.Sized

/-- The schemas of all media types are tidy. -/
def Content.Tidy (content : Content) : Prop := ∀ entry ∈ content, ∀ s ∈ entry.2, Schema.Tidy s

structure Response.Tidy (r : Response) : Prop where
  content : r.content.Tidy
  schema : ∀ s ∈ r.schema, s.Tidy

structure Operation.Tidy (operation : Operation) : Prop where
  parameters : ∀ p ∈ operation.parameters, p.Tidy
  body : ∀ body ∈ operation.requestBody, body.content.Tidy
  responses : ∀ entry ∈ operation.responses, entry.2.Tidy

structure PathItem.Tidy (item : PathItem) : Prop where
  operations : ∀ entry ∈ item.operations, entry.2.Tidy
  parameters : ∀ p ∈ item.parameters, p.Tidy

theorem Parameter.Tidy.effectiveSchema {p : Parameter} (h : p.Tidy) : p.effectiveSchema.Tidy := by
  rw [Parameter.effectiveSchema]
  split
  · rename_i schema hschema
    exact h.schema _ hschema
  · refine .intro Table.sorted_nil ?_ h.items ?_ ?_ h.choices
    · exact fun _ h => absurd h List.not_mem_nil
    · exact fun _ h => absurd h List.not_mem_nil
    · rintro _ ⟨⟩

theorem Content.Tidy.schema? {content : Content} (h : content.Tidy) :
    ∀ s ∈ content.schema?, s.Tidy := by
  intro s hs
  rw [Option.mem_def, Content.schema?] at hs
  split at hs
  · rename_i schema hjson
    obtain rfl := Option.some.inj hs
    exact h _ (Table.mem_of_get? (Option.join_eq_some_iff.mp hjson)) _ rfl
  · obtain ⟨entry, hentry, hschema⟩ := List.exists_of_findSome?_eq_some hs
    exact h entry hentry s hschema

theorem Response.Tidy.effectiveSchema? {r : Response} (h : r.Tidy) :
    ∀ s ∈ r.effectiveSchema?, s.Tidy := by
  intro s hs
  rw [Option.mem_def, Response.effectiveSchema?] at hs
  split at hs
  · rename_i schema hschema
    obtain rfl := Option.some.inj hs
    exact h.schema _ hschema
  · exact h.content.schema? s hs

section Operations

variable {operation : Operation} {item : PathItem}

theorem PathItem.Tidy.effectiveParameters (hitem : item.Tidy) (h : operation.Tidy) :
    ∀ p ∈ operation.effectiveParameters item, p.Tidy :=
  List.forall_mem_append.mpr
    ⟨fun p hp => hitem.parameters p (List.mem_of_mem_filter hp), h.parameters⟩

theorem Operation.Tidy.body? (h : operation.Tidy) {parameters : List Parameter}
    (hparameters : ∀ p ∈ parameters, p.Tidy) {b : Body} (hb : operation.body? parameters = some b) :
    b.schema.Tidy := by
  rw [Operation.body?] at hb
  split at hb
  · rename_i body hbody
    obtain ⟨schema, hschema, rfl⟩ := Option.map_eq_some_iff.mp hb
    exact (h.body body hbody).schema? schema hschema
  · obtain ⟨p, hp, hschema⟩ := List.exists_of_findSome?_eq_some hb
    obtain ⟨schema, hfound, rfl⟩ := Option.map_eq_some_iff.mp hschema
    exact (hparameters p (List.mem_of_mem_filter hp)).schema schema hfound

theorem Operation.States.tidy {s : Schema} (hitem : item.Tidy) (h : operation.Tidy)
    (hs : operation.States item s) : s.Tidy := by
  have hparameters := hitem.effectiveParameters h
  cases hs with
  | parameter hp => exact (hparameters _ hp).effectiveSchema
  | body hbody => exact h.body? hparameters hbody
  | response hentry hschema => exact (h.responses _ hentry).effectiveSchema? _ hschema

end Operations

namespace Reading

open RestThrift.Yaml (Value)

variable {value : Value}

theorem tidy_parameter? {p : Parameter} (h : parameter? value = some p) : p.Tidy := by
  simp only [parameter?, Convert.bind_eq_some] at h
  obtain ⟨fields, -, _, -, _, -, _, -, _, -, schema, hschema, _, -, _, -, items, hitems, choices,
    hchoices, _, -, h⟩ := h
  obtain rfl := Option.some.inj h
  exact ⟨Fields.optional_keeps (fun _ _ h => tidy_schema? h) hschema,
    Fields.optional_keeps (fun _ _ h => tidy_schema? h) hitems, sized_choices hchoices⟩

theorem tidy_mediaType? {schema : Option Schema} (h : mediaType? value = some schema) :
    ∀ s ∈ schema, s.Tidy := by
  obtain ⟨fields, -, h⟩ := Option.bind_eq_some_iff.mp h
  exact Fields.optional_keeps (fun _ _ h => tidy_schema? h) h

theorem tidy_content? {content : Content} (h : content? value = some content) : content.Tidy :=
  table?_keeps (P := fun schema : Option Schema => ∀ s ∈ schema, s.Tidy)
    (fun _ _ h => tidy_mediaType? h) h

/-- A content that may be left out is tidy. -/
theorem tidy_contentField {fields : Fields} {name : String} {content : Content}
    (h : fields.withDefault name [] content? = some content) : content.Tidy :=
  Fields.withDefault_keeps (P := Content.Tidy) (fun _ h => absurd h List.not_mem_nil)
    (fun _ _ h => tidy_content? h) h

theorem tidy_requestBody? {body : RequestBody} (h : requestBody? value = some body) :
    body.content.Tidy := by
  simp only [requestBody?, Convert.bind_eq_some] at h
  obtain ⟨fields, -, _, -, _, -, content, hcontent, h⟩ := h
  obtain rfl := Option.some.inj h
  exact tidy_contentField hcontent

theorem tidy_response? {r : Response} (h : response? value = some r) : r.Tidy := by
  simp only [response?, Convert.bind_eq_some] at h
  obtain ⟨fields, -, _, -, content, hcontent, schema, hschema, h⟩ := h
  obtain rfl := Option.some.inj h
  exact ⟨tidy_contentField hcontent, Fields.optional_keeps (fun _ _ h => tidy_schema? h) hschema⟩

/-- Parameters that may be left out are tidy. -/
theorem tidy_parameters {fields : Fields} {name : String} {parameters : List Parameter}
    (h : fields.withDefault name [] (Setting.lenient.list? parameter?) = some parameters) :
    ∀ p ∈ parameters, p.Tidy :=
  Fields.withDefault_keeps (P := fun parameters : List Parameter => ∀ p ∈ parameters, p.Tidy)
    (fun _ h => absurd h List.not_mem_nil)
    (fun _ _ h => list?_keeps (fun _ _ h => tidy_parameter? h) h) h

theorem tidy_operation? {operation : Operation} (h : operation? value = some operation) :
    operation.Tidy := by
  simp only [operation?, Convert.bind_eq_some] at h
  obtain ⟨fields, -, _, -, _, -, parameters, hparameters, body, hbody, responses, hresponses, h⟩ :=
    h
  obtain rfl := Option.some.inj h
  refine ⟨tidy_parameters hparameters, ?_, ?_⟩
  · exact Fields.optional_keeps (fun _ _ h => tidy_requestBody? h) hbody
  · exact Fields.withDefault_keeps (P := fun table : Table Response => ∀ entry ∈ table,
      entry.2.Tidy) (fun _ h => absurd h List.not_mem_nil)
      (fun _ _ h => table?_keeps (fun _ _ h => tidy_response? h) h) hresponses

theorem tidy_pathItem? {item : PathItem} (h : pathItem? value = some item) : item.Tidy := by
  simp only [pathItem?, Convert.bind_eq_some] at h
  obtain ⟨fields, -, operations, hoperations, parameters, hparameters, h⟩ := h
  obtain rfl := Option.some.inj h
  refine ⟨fun entry hentry => ?_, tidy_parameters hparameters⟩
  obtain ⟨found, hfound, rfl⟩ := List.mem_filterMap.mp hentry
  obtain ⟨method, -, hread⟩ := exists_of_mem_mapM hoperations hfound
  obtain ⟨read, hoperation, heq⟩ := Option.bind_eq_some_iff.mp hread
  obtain ⟨operation, rfl, rfl⟩ := Option.map_eq_some_iff.mp (Option.some.inj heq)
  exact Fields.optional_keeps (fun _ _ h => tidy_operation? h) hoperation operation rfl

end Reading

/-! ## Documents -/

/-- All schemas of a document are tidy. -/
structure Document.Tidy (document : Document) : Prop where
  schemas : ∀ entry ∈ document.schemas, entry.2.Tidy
  paths : ∀ entry ∈ document.paths, entry.2.Tidy

theorem Document.Tidy.statedIn {document : Document} (h : document.Tidy) {s : Schema}
    (hs : StatedIn document.paths s) : s.Tidy := by
  obtain ⟨entry, hentry, method, operation, hoperation, hstates⟩ := hs
  have hitem := h.paths entry hentry
  exact hstates.tidy hitem (hitem.operations _ (Table.mem_of_lookup hoperation))

theorem Reading.document?_tidy {dialect : Dialect} {version : String} {root : Yaml.Value}
    {document : Document} (h : document? dialect version root = some document) :
    document.Tidy := by
  obtain ⟨hschemas, hpaths⟩ := document?_keeps (P := fun table => ∀ entry ∈ table, entry.2.Tidy)
    (Q := fun table => ∀ entry ∈ table, entry.2.Tidy) (fun _ h => absurd h List.not_mem_nil)
    (fun _ _ h => tidy_schemas? h) (fun _ h => absurd h List.not_mem_nil)
    (fun _ _ h => table?_keeps (fun _ _ h => tidy_pathItem? h) h) h
  exact ⟨hschemas, hpaths⟩

end Api

theorem readDocument_tidy {file : String} {bytes : List UInt8} {document : Api.Document}
    (h : readDocument file bytes = .ok document) : document.Tidy := by
  obtain ⟨entries, dialect, version, -, -, hdocument⟩ := readDocument_spec h
  exact Api.Reading.document?_tidy hdocument

namespace Convert

variable {document : Api.Document} {policy : ReferencePolicy} {object : Api.Schema}

/-- The objects whose properties become fields name each property once. -/
theorem Glossary.ObjectOf.sorted (htidy : document.Tidy)
    (h : Glossary.ObjectOf ⟨document.schemas, policy⟩ (Api.StatedIn document.paths) object) :
    Table.Sorted object.properties := by
  cases h with
  | plain hheld =>
    exact (Api.Held.tidy htidy.schemas (fun _ hs => htidy.statedIn hs) hheld).sorted
  | composed _ hobject => exact sorted_effectiveObject hobject

end Convert

end RestThrift
