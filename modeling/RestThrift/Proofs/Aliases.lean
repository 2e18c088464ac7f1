import Mathlib
import RestThrift.Proofs.KeyOrder
import RestThrift.Proofs.NamedDefinitions
import RestThrift.Proofs.Quoting

/-!
# Aliases are replaced

A type refers to a typedef only where the alias comes back to itself. Where no alias does, every
reference to one is replaced by what the alias stands for, also through several references and
inside of lists and maps.
-/
namespace RestThrift

namespace Convert

variable {plan : Plan} {stated : Api.Schema → Prop} {service : String} {answers : List Answer}
  {w : Workspace} {schema : Schema} {f g : File} {d : Definition} {key written : String}
  {named : Api.Schema} {fqn : Option String}

/-! ## What is left of aliases -/

/-- The typedefs that types refer to are those of aliases that come back to themselves, where
`follow` tells what a part of a composition stands for. -/
def KeepsOnlyRecurring (plan : Plan) (follow : Api.Schema → Api.Schema → Prop) (schema : Schema) :
    Prop :=
  ∀ f ∈ schema.files, ∀ g ∈ schema.files, ∀ t ∈ g.definitions.typedefs, ∀ written,
    f.Uses written (some t.fqn) → ∃ key named, plan.glossary.schemas.get? key = some named ∧
      named.isAlias = true ∧ t.fqn = plan.fqnFor key ∧ plan.glossary.Reenters follow key

/-- What stands in a definition for a named schema: an alias denotes the target of its typedef, and
the properties of an object denote the types of the fields. -/
inductive DenotedBy (plan : Plan) (file : String) (named : Api.Schema) : Definition → Prop
  | enumeration {e : Enumeration} (hchoices : named.choices ≠ []) :
      DenotedBy plan file named (.enumeration e)
  | typedef {t : Typedef} (halias : named.isAlias = true) (h : plan.Denotes file named t.target) :
      DenotedBy plan file named (.typedef t)
  | message {m : Message} {object : Api.Schema}
      (hobject : plan.glossary.effectiveObject named = .ok object)
      (hfields : List.Forall₂ (fun entry field => plan.Denotes file entry.2 field.type)
        object.properties m.fields) : DenotedBy plan file named (.message m)

theorem Defined.denotedBy {file name : String} (h : Defined plan w file name named d) :
    DenotedBy plan file named d := by
  cases h with
  | enumeration hchoices => exact .enumeration (by simpa using hchoices)
  | typedef _ halias _ hdenotes => exact .typedef halias hdenotes
  | message _ _ hobject hformed =>
    obtain ⟨fields, hfields, rfl⟩ := hformed
    refine .message hobject (forall₂_renumber (fun _ _ _ h => h) ?_)
    exact hfields.imp fun _ _ hfield => hfield.denotes

namespace Finished

variable (h : Finished plan stated service answers w schema)
include h

/-- The types of all definitions are mentioned: there are no constants. -/
theorem mem_mentioned (hf : f ∈ schema.files) {t : TypeRef} (hd : d ∈ f.definitions.entries)
    (ht : t ∈ d.typeRefs) : t ∈ mentioned f.definitions := by
  suffices hall : ∀ d ∈ f.definitions.entries, t ∈ d.typeRefs → t ∈ mentioned f.definitions from
    hall d hd ht
  refine Definitions.forall_mem_entries.mpr ⟨fun m hm ht => ?_, fun e _ ht => ?_,
    fun definition hdefinition ht => ?_, fun c hc _ => ?_, fun s hs ht => ?_⟩
  · exact List.mem_append_left _ (List.mem_append_right _ (List.mem_flatMap.mpr ⟨m, hm, ht⟩))
  · cases ht
  · obtain rfl := List.mem_singleton.mp ht
    exact List.mem_append_right _ (List.mem_map_of_mem hdefinition)
  · rw [h.constants_eq_nil hf] at hc
    cases hc
  · exact List.mem_append_left _ (List.mem_append_left _ (List.mem_flatMap.mpr ⟨s, hs, ht⟩))

/-- The definition with the full name of a key is the one of the key's schema. -/
theorem defined_of_mem (hnamed : plan.glossary.schemas.get? key = some named)
    (hf : f ∈ schema.files) (hd : d ∈ f.definitions.types) (hfqn : d.fqn = plan.fqnFor key) :
    f.path = plan.fileOf key ∧ Defined plan w (plan.fileOf key) (plan.nameOf key) named d := by
  obtain ⟨entry, -, hfilter, hpath⟩ := h.exists_definition (Table.mem_keys_of_get? hnamed)
  have hmem : (f, d) ∈ schema.types.filter fun other => other.2.fqn = plan.fqnFor key := by
    refine List.mem_filter.mpr ⟨?_, decide_eq_true hfqn⟩
    exact List.mem_flatMap.mpr ⟨f, hf, List.mem_map.mpr ⟨d, hd, rfl⟩⟩
  rw [hfilter] at hmem
  obtain rfl := List.mem_singleton.mp hmem
  exact ⟨hpath, h.defined_of_fqn hnamed hfilter⟩

/-- A named schema is denoted by a definition with the full name of its key. -/
theorem exists_denotedBy (hnamed : plan.glossary.schemas.get? key = some named) : ∃ f ∈ schema.files,
    ∃ d ∈ f.definitions.types, d.fqn = plan.fqnFor key ∧ DenotedBy plan f.path named d := by
  obtain ⟨entry, hfqn, hfilter, hpath⟩ := h.exists_definition (Table.mem_keys_of_get? hnamed)
  have hmem := (List.mem_filter.mp (hfilter ▸ List.mem_singleton_self entry)).1
  obtain ⟨f, hf, hd⟩ := List.mem_flatMap.mp hmem
  obtain ⟨d, hdefinition, rfl⟩ := List.mem_map.mp hd
  refine ⟨f, hf, d, hdefinition, hfqn, ?_⟩
  rw [hpath]
  exact (h.defined_of_fqn hnamed hfilter).denotedBy

/-- Two definitions of one full name are the same one. -/
theorem eq_of_fqn_eq {e : Definition} (hf : f ∈ schema.files) (hd : d ∈ f.definitions.types)
    (hg : g ∈ schema.files) (he : e ∈ g.definitions.types) (hfqn : d.fqn = e.fqn) : d = e := by
  have hmem : ∀ {f d}, f ∈ schema.files → d ∈ f.definitions.types → (f, d) ∈ schema.types :=
    fun hf hd => List.mem_flatMap.mpr ⟨_, hf, List.mem_map.mpr ⟨_, hd, rfl⟩⟩
  exact (Prod.mk.inj (List.inj_on_of_nodup_map h.nodup_types (hmem hf hd) (hmem hg he) hfqn)).2

/-- A type refers to a typedef only where its alias comes back to itself. -/
theorem keepsOnlyRecurring : KeepsOnlyRecurring plan plan.glossary.Chain schema := by
  rintro f hf g hg t ht written ⟨d, hd, type, htype, hwalk⟩
  have htypedef : Definition.typedef t ∈ g.definitions.types := Definitions.typedef_mem_types ht
  have htyped := h.typed hf (h.mem_mentioned hf hd htype)
  rcases htyped.named_cases hwalk with ⟨-, hnone⟩ | ⟨key, named, hnamed, hrecurs, hkey⟩ |
    ⟨definition, hdefinition, hnotypedef, hlocal⟩
  · cases hnone
  · have hfqn : t.fqn = plan.fqnFor key := Option.some.inj (writtenIn_typeFor hkey).1
    obtain ⟨-, hdefined⟩ := h.defined_of_mem hnamed hg htypedef hfqn
    cases hdefined with
    | typedef _ halias _ _ => exact ⟨key, named, hnamed, halias, hfqn, hrecurs halias⟩
  · -- A struct or an enumeration of the file bears another full name than a typedef.
    have hmem := (h.types_perm hf).mem_iff.mpr hdefinition
    have hfqn : definition.fqn = t.fqn := by
      rw [(h.fqn_eq hf hmem).1]
      exact Option.some.inj (TypeRef.named.inj hlocal).2
    rw [h.eq_of_fqn_eq hf hmem hg htypedef hfqn] at hnotypedef
    cases hnotypedef

end Finished

end Convert

/-- Aliases are replaced: a type refers to a typedef only where its alias comes back to itself, and
so to none where no alias does. A definition denotes its schema with all other aliases replaced. -/
theorem convertDocument_replaces_aliases {file : String} {bytes : List UInt8} {options : Options}
    {schema : Schema} (h : convertDocument file bytes options = .ok schema) :
    ∃ document plan, readDocument file bytes = .ok document ∧
      plan = (Convert.Plan.of file options document.schemas).1 ∧
      Convert.KeepsOnlyRecurring plan plan.glossary.Chain schema ∧
      ((∀ key named, document.schemas.get? key = some named → named.isAlias = true →
          ¬ plan.glossary.Reenters plan.glossary.Chain key) →
        ∀ f ∈ schema.files, ∀ g ∈ schema.files, ∀ t ∈ g.definitions.typedefs, ∀ written,
          ¬ f.Uses written (some t.fqn)) ∧
      ∀ key named, document.schemas.get? key = some named → ∃ f ∈ schema.files,
        ∃ d ∈ f.definitions.types, d.fqn = plan.fqnFor key ∧
          Convert.DenotedBy plan f.path named d := by
  obtain ⟨document, hread, hconvert⟩ := Convert.bind_eq_ok.mp h
  obtain ⟨_, _, -, hfinished⟩ :=
    Convert.convert_finished (readDocument_sorted hread).schemas.nodup hconvert
  have hkeeps := hfinished.keepsOnlyRecurring
  refine ⟨document, _, hread, rfl, hkeeps, fun hnone f hf g hg t ht written huses => ?_,
    fun key named hnamed => hfinished.exists_denotedBy hnamed⟩
  obtain ⟨key, named, hnamed, halias, -, hrecurs⟩ := hkeeps f hf g hg t ht written huses
  exact hnone key named hnamed halias hrecurs

/-! ## An alias behind two references -/

/-- The items of the alias are composed of a schema that is itself a reference, and the schema
behind it refers to the alias. -/
def chainDocument : List UInt8 :=
  ("swagger: \"2.0\"\npaths: {}\ndefinitions:\n" ++
    "  Base:\n    $ref: \"#/definitions/Node\"\n" ++
    "  Node:\n    properties:\n      children:\n        $ref: \"#/definitions/Tree\"\n" ++
    "  Tree:\n    type: array\n    items:\n      allOf:\n      - $ref: \"#/definitions/Base\"\n" ++
    "      - properties:\n          name:\n            type: string\n").toUTF8.data.toList

/-- A schema that refers to a named one. -/
def refersTo (name : String) : Api.Schema := { reference := some ("#/definitions/" ++ name) }

def plainText : Api.Schema := { typeNames := some (.single "string") }

/-- The other part of the items. -/
def namedPart : Api.Schema := { properties := [("name", plainText)] }

/-- The items of the alias. -/
def composedItems : Api.Schema := { parts := [refersTo "Base", namedPart] }

def chainAlias : Api.Schema :=
  { typeNames := some (.single "array"), items := some composedItems }

def chainSchemas : Table Api.Schema :=
  [("Base", refersTo "Node"), ("Node", { properties := [("children", refersTo "Tree")] }),
    ("Tree", chainAlias)]

theorem readDocument_chainDocument :
    readDocument "pets.yaml" chainDocument = .ok ⟨.swagger2, "2.0", [], chainSchemas⟩ := by
  let refers (name : String) : Yaml.Value := object [("$ref", .text ("#/definitions/" ++ name))]
  have hparse : Yaml.parse? chainDocument = some (object [("swagger", .text "2.0"),
      ("paths", object []), ("definitions", object [("Base", refers "Node"),
        ("Node", object [("properties", object [("children", refers "Tree")])]),
        ("Tree", object [("type", .text "array"), ("items", object [("allOf", .sequence
          [refers "Base", object [("properties", object [("name",
            object [("type", .text "string")])])]])])])])]) := by
    decide +kernel
  rw [Convert.readDocument_eq hparse]
  rfl

theorem chainDocument_converts :
    ∃ schema, convertDocument "pets.yaml" chainDocument {} = .ok schema ∧
      decide (∃ f ∈ schema.files, ∃ m ∈ f.definitions.messages, ∃ field ∈ m.fields,
        ∃ t ∈ f.definitions.typedefs, field.type = .named t.name (some t.fqn)) = true := by
  rw [convertDocument_of_read readDocument_chainDocument]
  refine exists_of_toOption ?_
  decide +kernel

theorem chainDocument_replaces_aliases :
    ∃ schema, convertDocument "pets.yaml" chainDocument {} = .ok schema ∧
      ∃ document plan, readDocument "pets.yaml" chainDocument = .ok document ∧
        plan = (Convert.Plan.of "pets.yaml" {} document.schemas).1 ∧
        Convert.KeepsOnlyRecurring plan plan.glossary.Chain schema ∧
        ((∀ key named, document.schemas.get? key = some named → named.isAlias = true →
            ¬ plan.glossary.Reenters plan.glossary.Chain key) →
          ∀ f ∈ schema.files, ∀ g ∈ schema.files, ∀ t ∈ g.definitions.typedefs, ∀ written,
            ¬ f.Uses written (some t.fqn)) ∧
        ∀ key named, document.schemas.get? key = some named → ∃ f ∈ schema.files,
          ∃ d ∈ f.definitions.types, d.fqn = plan.fqnFor key ∧
            Convert.DenotedBy plan f.path named d := by
  obtain ⟨schema, h, -⟩ := chainDocument_converts
  exact ⟨schema, h, convertDocument_replaces_aliases h⟩

/-- All that is reached from the alias by the targets of the parts alone. -/
def chainReached : List Api.Schema :=
  [chainAlias, composedItems, refersTo "Base", namedPart, plainText, refersTo "Node"]

theorem leads_refersTo {g : Convert.Glossary} {follow : Api.Schema → Api.Schema → Prop}
    {name : String} {target : Api.Schema} (h : g.Leads follow (refersTo name) target) :
    g.resolve? ("#/definitions/" ++ name) = some target ∧ target.isAlias = true := by
  cases h with
  | target htarget halias =>
    obtain ⟨reference, hreference, htarget⟩ := htarget
    obtain rfl := Option.some.inj hreference
    exact ⟨htarget, halias⟩
  | property h | items h | value h | part h | member h _ => cases h

/-- What is reached is closed under the steps: neither `Base` nor `Node` is an alias. -/
theorem mem_chainReached {policy : ReferencePolicy} {s target : Api.Schema}
    (h : Convert.Glossary.Leads ⟨chainSchemas, policy⟩
      (Convert.Glossary.Targets ⟨chainSchemas, policy⟩) s target) (hs : s ∈ chainReached) :
    target ∈ chainReached := by
  simp only [chainReached, List.mem_cons, List.not_mem_nil, or_false] at hs ⊢
  rcases hs with rfl | rfl | rfl | rfl | rfl | rfl
  · cases h with
    | items hitems => exact .inr (.inl (Option.some.inj hitems).symm)
    | property h | value h | part h | member h _ => cases h
    | target h _ => cases h.choose_spec.1
  · cases h with
    | part hpart =>
      rcases List.mem_pair.mp hpart with rfl | rfl
      · exact .inr (.inr (.inl rfl))
      · exact .inr (.inr (.inr (.inl rfl)))
    | member hpart hfollow =>
      obtain ⟨reference, hreference, htarget⟩ := hfollow
      rcases List.mem_pair.mp hpart with rfl | rfl
      · obtain rfl := Option.some.inj hreference
        exact .inr (.inr (.inr (.inr (.inr (Option.some.inj htarget).symm))))
      · cases hreference
    | property h | items h | value h => cases h
    | target h _ => cases h.choose_spec.1
  · obtain ⟨htarget, halias⟩ := leads_refersTo h
    obtain rfl := Option.some.inj htarget
    cases halias
  · cases h with
    | property hentry =>
      obtain rfl := List.mem_singleton.mp hentry
      exact .inr (.inr (.inr (.inr (.inl rfl))))
    | items h | value h | part h | member h _ => cases h
    | target h _ => cases h.choose_spec.1
  · cases h with
    | property h | items h | value h | part h | member h _ => cases h
    | target h _ => cases h.choose_spec.1
  · obtain ⟨htarget, halias⟩ := leads_refersTo h
    obtain rfl := Option.some.inj htarget
    cases halias

theorem not_reenters_chainAlias {policy : ReferencePolicy} :
    ¬ Convert.Glossary.Reenters ⟨chainSchemas, policy⟩
      (Convert.Glossary.Targets ⟨chainSchemas, policy⟩) "Tree" := by
  rintro ⟨s, reference, hreached, hreference, hkey⟩
  have hs : s ∈ chainReached := by
    refine hreached.keeps (fun named hnamed => ?_) fun _ _ => mem_chainReached
    obtain rfl := Option.some.inj hnamed
    exact List.mem_cons_self
  have hothers : ∀ s ∈ chainReached, ∀ reference ∈ s.reference,
      Convert.definitionKey reference ≠ "Tree" := by
    decide
  exact hothers s hs reference hreference hkey

/-- A type refers to the typedef of the alias, although the targets of the parts alone do not lead
back to it. -/
theorem chainDocument_not_keepsOnlyRecurring :
    ∃ schema, convertDocument "pets.yaml" chainDocument {} = .ok schema ∧
      ∃ document plan, readDocument "pets.yaml" chainDocument = .ok document ∧
        plan = (Convert.Plan.of "pets.yaml" {} document.schemas).1 ∧
        ¬ Convert.KeepsOnlyRecurring plan plan.glossary.Targets schema := by
  obtain ⟨schema, hschema, huses⟩ := chainDocument_converts
  obtain ⟨f, hf, m, hm, field, hfield, t, ht, htype⟩ := of_decide_eq_true huses
  refine ⟨schema, hschema, _, _, readDocument_chainDocument, rfl, fun hkeeps => ?_⟩
  have hwalk : TypeRef.named t.name (some t.fqn) ∈ field.type.walk := by
    rw [htype]
    exact List.mem_singleton_self _
  have hentry : Definition.message m ∈ f.definitions.entries :=
    (Definitions.forall_mem_entries.mp fun _ h => h).1 m hm
  obtain ⟨key, named, hnamed, halias, -, hreenters⟩ := hkeeps f hf f hf t ht t.name
    ⟨.message m, hentry, field.type, List.mem_map_of_mem hfield, hwalk⟩
  have honly : ∀ entry ∈ chainSchemas, entry.2.isAlias = true → entry.1 = "Tree" := by decide
  obtain rfl : key = "Tree" := honly _ (Table.mem_of_get? hnamed) halias
  exact not_reenters_chainAlias hreenters

end RestThrift
