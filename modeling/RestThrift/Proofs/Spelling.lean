import Mathlib
import RestThrift.Proofs.Collisions
import RestThrift.Proofs.Identifiers
import RestThrift.Proofs.References

/-!
# The spelling of generated names

Names of fields are identifiers for every document. Any other name is one exactly when the text
spells one that it is made of: the short name of a key, a parent and its field, the method and the
path of an operation, or the text of a value. A key without any letter or digit may leave a
definition without a name, and a key that is spelled like a built-in type gives its definition that
name.
-/
namespace RestThrift

open Text

/-- All names of the schema are identifiers, and no type has the name of a built-in one. -/
structure Schema.Identified (A : Alphabet) (schema : Schema) : Prop where
  types : ∀ f ∈ schema.files, ∀ d ∈ f.definitions.types, A.IsName d.name.toList
  fields : ∀ f ∈ schema.files, ∀ m ∈ f.definitions.messages, ∀ field ∈ m.fields,
    A.IsName field.name.toList
  members : ∀ f ∈ schema.files, ∀ e ∈ f.definitions.enums, ∀ m ∈ e.members, A.IsName m.name.toList
  functions : ∀ f ∈ schema.files, ∀ s ∈ f.definitions.services, ∀ fn ∈ s.functions,
    A.IsName fn.name.toList ∧ ∀ field ∈ fn.parameters ++ fn.throws, A.IsName field.name.toList
  distinct : ∀ f ∈ schema.files, ∀ d ∈ f.definitions.types, ∀ p : Primitive, d.name ≠ p.name

namespace Naming

variable {method : Api.Method} {path : String}

/-- The text that a function is named for. -/
def routeText (method : Api.Method) (path : String) : List Char :=
  let spaced := path.toList.map fun c => if c = '/' then ' ' else c
  pascal method.name.toList ++ pascal ((colonFrom false spaced).flatMap spellColon)

theorem functionName_eq : functionName method path =
    definitionName (String.ofList (routeText method path)) := rfl

/-- The method is in the name of a function, so that this has a letter. -/
theorem hasAlphanumeric_functionName (method : Api.Method) (path : String) :
    HasAlphanumeric (functionName method path).toList := by
  have hmethod : HasAlphanumeric method.name.toList := by
    have hhead : ∃ c ∈ method.name.toList.head?, isAlphanumeric c = true := by
      cases method <;> exact ⟨_, rfl, by decide⟩
    obtain ⟨c, hc, hletter⟩ := hhead
    exact ⟨c, List.mem_of_mem_head? hc, hletter⟩
  rw [functionName_eq, hasAlphanumeric_definitionName, String.toList_ofList, routeText,
    hasAlphanumeric_append, hasAlphanumeric_pascal]
  exact .inl hmethod

end Naming

namespace Convert

open Naming

variable {A : Alphabet} {p : Plan} {file base parent name : String}

/-! ## Types -/

/-- What the name of a type is made of, and when it is an identifier. -/
inductive TypeNamed (A : Alphabet) (p : Plan) (file name : String) : Prop
  | key {key : String} {n : Nat} (hkey : key ∈ p.glossary.schemas.keys)
      (hname : name = numbered (wantedName key) n)
      (hspelled : A.IsName name.toList ↔ isIdentifier (splitDefinition key).2.toList = true ∨
        Spells A (splitDefinition key).2.toList ∨ wantedName key = "" ∧ n ≠ 0)
  | request {method : Api.Method} {path : String} {n : Nat}
      (hname : name = numbered (definitionName (functionName method path ++ "Request")) n)
      (hspelled : A.IsName name.toList ↔ Spells A (functionName method path ++ "Request").toList)
  | place {parent field : String} {n : Nat} (hparent : p.Heads file parent)
      (hname : name = numbered (nestedName parent field) n)
      (hspelled : A.IsName name.toList ↔ Spells A (pascal parent.toList ++ pascal field.toList) ∨
        nestedName parent field = "" ∧ n ≠ 0)

theorem Plan.Asks.typeNamed (h : p.Asks file base) (n : Nat) :
    TypeNamed A p file (numbered base n) := by
  cases h with
  | key hkey =>
    refine .key hkey rfl ?_
    rw [isName_numbered, wantedName, isName_identifier, or_assoc]
  | request method path =>
    refine .request rfl ?_
    have hletter := hasAlphanumeric_definitionName.mpr
      (hasAlphanumeric_append_left (b := "Request") (hasAlphanumeric_functionName method path))
    rw [isName_numbered, isName_definitionName,
      or_iff_left fun h => ne_empty_of_hasAlphanumeric hletter h.1]
  | place hparent field =>
    refine .place hparent rfl ?_
    rw [isName_numbered, nestedName, isName_definitionName, String.toList_ofList]

/-- Where all keys have a letter or digit, all names that are asked for have one: a place has that
of its parent. -/
theorem Plan.Asks.hasAlphanumeric
    (hkeys : ∀ key ∈ p.glossary.schemas.keys, HasAlphanumeric (splitDefinition key).2.toList)
    (h : p.Asks file base) : HasAlphanumeric base.toList := by
  refine @Plan.Asks.rec p (fun _ base _ => HasAlphanumeric base.toList)
    (fun _ parent _ => HasAlphanumeric parent.toList) ?key ?request ?place ?definition ?function
    ?failure file base h
  case key => exact fun hkey => hasAlphanumeric_identifier.mpr (hkeys _ hkey)
  case request =>
    exact fun method path => hasAlphanumeric_definitionName.mpr
      (hasAlphanumeric_append_left (hasAlphanumeric_functionName method path))
  case place => exact fun _ _ hparent => hasAlphanumeric_nestedName.mpr (.inl hparent)
  case definition => exact fun _ _ hbase => hasAlphanumeric_numbered hbase
  case function => exact fun method path => hasAlphanumeric_functionName method path
  case failure => exact fun code => hasAlphanumeric_failureName code

/-- Only a key asks for the name of a built-in type, and it has to be spelled so. -/
theorem Plan.Asks.eq_primitive {n : Nat} {primitive : Primitive} (h : p.Asks file base)
    (heq : numbered base n = primitive.name) :
    ∃ key ∈ p.glossary.schemas.keys, (splitDefinition key).2 = primitive.name := by
  obtain ⟨hbase, -⟩ := numbered_eq_primitive_iff.mp heq
  cases h with
  | key hkey => exact ⟨_, hkey, identifier_eq_primitive_iff.mp hbase⟩
  | request _ _ => exact absurd hbase (definitionName_ne_primitive _ _)
  | place _ _ => exact absurd hbase (definitionName_ne_primitive _ _)

/-! ## Members and functions -/

/-- The texts that the members of an enumeration are named for. -/
def memberTexts (name : String) (s : Api.Schema) : List String :=
  if s.choiceNames.length = s.choices.length then s.choiceNames
  else s.choices.map fun choice => name ++ "_" ++ choice.label

theorem map_name_members (file name : String) (s : Api.Schema) :
    (enumeration file name s).members.map EnumMember.name =
      (memberTexts name s).map memberName := by
  simp only [enumeration, memberTexts]
  split
  · rename_i hlength
    exact map_name_membersFrom_some hlength
  · rw [map_name_membersFrom_none, List.map_map]
    rfl

/-- An enumeration lists the values of a schema, and its members are identifiers exactly when the
texts that they are named for are fit to be labels. -/
def MembersSpelled (A : Alphabet) (g : Glossary) (stated : Api.Schema → Prop) (file : String)
    (e : Enumeration) : Prop :=
  ∃ s, g.Holds stated s ∧ e = enumeration file e.name s ∧
    ((∀ m ∈ e.members, A.IsName m.name.toList) ↔
      ∀ text ∈ memberTexts e.name s, Labels A text.toList)

theorem members_spelled_iff (s : Api.Schema) :
    (∀ m ∈ (enumeration file name s).members, A.IsName m.name.toList) ↔
      ∀ text ∈ memberTexts name s, Labels A text.toList := by
  have hnames := map_name_members file name s
  calc (∀ m ∈ (enumeration file name s).members, A.IsName m.name.toList)
    _ ↔ ∀ shown ∈ (enumeration file name s).members.map EnumMember.name,
        A.IsName shown.toList := by rw [List.forall_mem_map]
    _ ↔ ∀ text ∈ memberTexts name s, A.IsName (memberName text).toList := by
      rw [hnames, List.forall_mem_map]
    _ ↔ ∀ text ∈ memberTexts name s, Labels A text.toList :=
      forall₂_congr fun _ _ => isName_memberName

/-- A function stands for an operation, is named for its method and path, possibly with a segment of
the path behind, and its name is an identifier exactly when this text spells one. -/
inductive FunctionNamed (A : Alphabet) (document : Api.Document) (f : ServiceFunction) : Prop
  | plain {path : String} {method : Api.Method} {n : Nat}
      (hroute : Realizes document (path, method) f)
      (hname : f.name = counted (functionName method path) n)
      (hspelled : A.IsName f.name.toList ↔ Spells A (routeText method path))
  | suffixed {path suffix : String} {method : Api.Method} {n : Nat}
      (hroute : Realizes document (path, method) f) (hsuffix : pathSuffix? path = some suffix)
      (hname : f.name = counted (definitionName (functionName method path ++ suffix)) n)
      (hspelled : A.IsName f.name.toList ↔ Spells A (functionName method path ++ suffix).toList)

variable {plan : Plan} {service : String} {w : Workspace} {a : Answer} {document : Api.Document}

theorem Answer.Holds.functionNamed (h : a.Holds plan service w)
    (hrealizes : Realizes document a.call.route a.function) :
    FunctionNamed A document a.function := by
  obtain ⟨taken, hname⟩ := h.named
  obtain ⟨stem, n, hstem, hcounted⟩ := functionNameFor_counted taken
    (functionName a.call.method a.call.path) a.call.path
  rw [hcounted] at hname
  have hletter := hasAlphanumeric_functionName a.call.method a.call.path
  cases hstem with
  | plain =>
    refine .plain hrealizes hname ?_
    rw [hname, isName_counted (ne_empty_of_hasAlphanumeric hletter), functionName_eq,
      isName_definitionName, String.toList_ofList]
  | @suffixed suffix hsuffix =>
    refine .suffixed hrealizes hsuffix hname ?_
    have hstem := hasAlphanumeric_definitionName.mpr
      (hasAlphanumeric_append_left (b := suffix) hletter)
    rw [hname, isName_counted (ne_empty_of_hasAlphanumeric hstem), isName_definitionName]

/-- The parameter and what is thrown have names of fields. -/
theorem Answer.Holds.isIdentifier (h : a.Holds plan service w) :
    ∀ field ∈ a.function.parameters ++ a.function.throws,
      Naming.isIdentifier field.name.toList = true := by
  have hparameter : Naming.isIdentifier "req".toList = true := by decide
  rw [h.parameters]
  refine List.forall_mem_append.mpr ⟨List.forall_mem_singleton.mpr hparameter, ?_⟩
  intro field hfield
  obtain ⟨entry, -, hthrown⟩ := exists_left_of_forall₂ h.throws hfield
  rw [hthrown.name]
  exact isIdentifier_fieldName _

theorem Made.isIdentifier {stated : Api.Schema → Prop} {m : Message}
    (h : Made plan stated w file m) :
    ∀ field ∈ m.fields, Naming.isIdentifier field.name.toList = true := by
  intro field hfield
  cases h with
  | struct _ hformed =>
    have hname : field.name ∈ m.fields.map Field.name := List.mem_map_of_mem hfield
    rw [hformed.names] at hname
    obtain ⟨property, -, hproperty⟩ := List.mem_map.mp hname
    rw [← hproperty]
    exact isIdentifier_fieldName property
  | request _ _ hnames =>
    obtain ⟨input, hinput⟩ := hnames field hfield
    rw [hinput]
    exact isIdentifier_fieldName input

/-! ## Whole schemas -/

/-- How the names of a schema are spelled that a document was converted to. -/
structure Spelling (A : Alphabet) (document : Api.Document) (plan : Plan) (schema : Schema) :
    Prop where
  fields : ∀ f ∈ schema.files, ∀ m ∈ f.definitions.messages, ∀ field ∈ m.fields,
    isIdentifier field.name.toList = true
  signatures : ∀ f ∈ schema.files, ∀ s ∈ f.definitions.services, ∀ fn ∈ s.functions,
    ∀ field ∈ fn.parameters ++ fn.throws, isIdentifier field.name.toList = true
  functions : ∀ f ∈ schema.files, ∀ s ∈ f.definitions.services, ∀ fn ∈ s.functions,
    FunctionNamed A document fn
  members : ∀ f ∈ schema.files, ∀ e ∈ f.definitions.enums,
    MembersSpelled A plan.glossary (Api.StatedIn document.paths) f.path e
  types : ∀ f ∈ schema.files, ∀ d ∈ f.definitions.types, TypeNamed A plan f.path d.name
  keys : (∀ f ∈ schema.files, ∀ d ∈ f.definitions.types, A.IsName d.name.toList) →
    ∀ key ∈ document.schemas.keys, isIdentifier (splitDefinition key).2.toList = true ∨
      Spells A (splitDefinition key).2.toList
  named : (∀ key ∈ document.schemas.keys, HasAlphanumeric (splitDefinition key).2.toList) →
    ∀ f ∈ schema.files, ∀ d ∈ f.definitions.types, d.name ≠ ""
  unnamed : ∀ key ∈ document.schemas.keys,
    isIdentifier (splitDefinition key).2.toList = false →
      ¬ HasAlphanumeric (splitDefinition key).2.toList →
        ∃ f ∈ schema.files, ∃ d ∈ f.definitions.types, d.name = ""
  primitives : (∃ f ∈ schema.files, ∃ d ∈ f.definitions.types, ∃ p : Primitive, d.name = p.name) ↔
    ∃ key ∈ document.schemas.keys, ∃ p : Primitive, (splitDefinition key).2 = p.name

namespace Finished

variable {stated : Api.Schema → Prop} {answers : List Answer} {schema : Schema} {f : File}
  {d : Definition} {key : String}

section

variable (h : Finished plan stated service answers w schema)
include h

theorem exists_asks (hf : f ∈ schema.files) (hd : d ∈ f.definitions.types) :
    ∃ base n, d.name = numbered base n ∧ plan.Asks f.path base := by
  have hmem := h.coherent.mem_namesIn ((h.types_perm hf).mem_iff.mp hd)
  obtain ⟨base, n, hname, hasks, -⟩ := h.coherent.asked f.path d.name hmem
  exact ⟨base, n, hname, hasks⟩

/-- What a key asks for is the name of some type. -/
theorem exists_wanted (hkey : key ∈ plan.glossary.schemas.keys) :
    ∃ f ∈ schema.files, ∃ d ∈ f.definitions.types, d.name = wantedName key := by
  obtain ⟨f, hf, d, hd, -, hname, -⟩ := h.exists_bearer (h.wanted key hkey)
  exact ⟨f, hf, d, hd, hname⟩

theorem typeNamed (A : Alphabet) (hf : f ∈ schema.files) (hd : d ∈ f.definitions.types) :
    TypeNamed A plan f.path d.name := by
  obtain ⟨base, n, hname, hasks⟩ := h.exists_asks hf hd
  rw [hname]
  exact hasks.typeNamed n

/-- The short name of a key becomes an identifier, if all types have identifiers. -/
theorem key_spelled
    (hall : ∀ f ∈ schema.files, ∀ d ∈ f.definitions.types, A.IsName d.name.toList)
    (hkey : key ∈ plan.glossary.schemas.keys) :
    Naming.isIdentifier (splitDefinition key).2.toList = true ∨
      Spells A (splitDefinition key).2.toList := by
  obtain ⟨f, hf, d, hd, hname⟩ := h.exists_wanted hkey
  have hspelled := hall f hf d hd
  rwa [hname, wantedName, isName_identifier] at hspelled

theorem name_ne_empty
    (hkeys : ∀ key ∈ plan.glossary.schemas.keys, HasAlphanumeric (splitDefinition key).2.toList)
    (hf : f ∈ schema.files) (hd : d ∈ f.definitions.types) : d.name ≠ "" := by
  obtain ⟨base, n, hname, hasks⟩ := h.exists_asks hf hd
  rw [hname]
  exact ne_empty_of_hasAlphanumeric (hasAlphanumeric_numbered (hasks.hasAlphanumeric hkeys))

theorem exists_primitive_iff :
    (∃ f ∈ schema.files, ∃ d ∈ f.definitions.types, ∃ p : Primitive, d.name = p.name) ↔
      ∃ key ∈ plan.glossary.schemas.keys, ∃ p : Primitive, (splitDefinition key).2 = p.name := by
  constructor
  · rintro ⟨f, hf, d, hd, p, hp⟩
    obtain ⟨base, n, hname, hasks⟩ := h.exists_asks hf hd
    obtain ⟨key, hkey, hshort⟩ := hasks.eq_primitive (hname.symm.trans hp)
    exact ⟨key, hkey, p, hshort⟩
  · rintro ⟨key, hkey, p, hshort⟩
    obtain ⟨f, hf, d, hd, hname⟩ := h.exists_wanted hkey
    exact ⟨f, hf, d, hd, p, hname.trans (identifier_eq_primitive_iff.mpr hshort)⟩

theorem membersSpelled (A : Alphabet) (hf : f ∈ schema.files) {e : Enumeration}
    (he : e ∈ f.definitions.enums) : MembersSpelled A plan.glossary stated f.path e := by
  obtain ⟨s, hs, heq⟩ := h.listed hf he
  refine ⟨s, hs, heq, ?_⟩
  rw [heq]
  exact members_spelled_iff s

end

end Finished

end Convert

/-- Names of fields are identifiers. Names of functions, members and types are identifiers exactly
when the texts spell one that they are made of. Where each key has a letter or digit no type is left
without a name, where a key has none and is no identifier some type is, and a type has the name of a
built-in one exactly when some key is spelled so. -/
theorem convertDocument_names_spelled (A : Alphabet) {file : String} {bytes : List UInt8}
    {options : Options} {schema : Schema} (h : convertDocument file bytes options = .ok schema) :
    ∃ document plan, readDocument file bytes = .ok document ∧
      plan.glossary = ⟨document.schemas, options.policy⟩ ∧ plan.stem = Convert.outputStem file ∧
      Convert.Spelling A document plan schema := by
  obtain ⟨document, plan, answers, w, hread, hstem, hglossary, hcalls, hfinished⟩ :=
    Convert.convertDocument_finished h
  have hsorted := readDocument_sorted hread
  have hkeys : document.schemas.keys = plan.glossary.schemas.keys := by rw [hglossary]
  refine ⟨document, plan, hread, hglossary, hstem, ?_⟩
  exact {
    fields := fun f hf m hm => (hfinished.made hf hm).isIdentifier
    signatures := fun f hf s hs fn hfn => by
      obtain ⟨-, a, ha, rfl⟩ := hfinished.exists_answer hf hs hfn
      exact (hfinished.holds a ha).isIdentifier
    functions := fun f hf s hs fn hfn => by
      obtain ⟨-, a, ha, rfl⟩ := hfinished.exists_answer hf hs hfn
      have hholds := hfinished.holds a ha
      exact hholds.functionNamed (hholds.realizes hsorted (hcalls ▸ List.mem_map_of_mem ha))
    members := fun f hf e he => hfinished.membersSpelled A hf he
    types := fun f hf d hd => hfinished.typeNamed A hf hd
    keys := fun hall key hkey => hfinished.key_spelled hall (hkeys ▸ hkey)
    named := fun hletters f hf d hd => hfinished.name_ne_empty (hkeys ▸ hletters) hf hd
    unnamed := fun key hkey hidentifier hletter => by
      obtain ⟨f, hf, d, hd, hname⟩ := hfinished.exists_wanted (hkeys ▸ hkey)
      exact ⟨f, hf, d, hd, hname.trans (Naming.identifier_eq_empty_iff.mpr ⟨hidentifier, hletter⟩)⟩
    primitives := hkeys ▸ hfinished.exists_primitive_iff }

/-- A key without any letter or digit. -/
def dashDocument : List UInt8 :=
  ("swagger: \"2.0\"\npaths: {}\ndefinitions:\n  \"-\":\n    properties:\n" ++
    "      name:\n        type: string\n").toUTF8.data.toList

theorem dashDocument_types :
    ∃ schema, convertDocument "pets.yaml" dashDocument {} = .ok schema ∧
      schema.files.flatMap (fun f => f.definitions.types.map Definition.name) = [""] := by
  refine exists_of_toOption ?_
  decide +kernel

theorem dashDocument_names_spelled :
    ∃ schema, convertDocument "pets.yaml" dashDocument {} = .ok schema ∧
      ∃ document plan, readDocument "pets.yaml" dashDocument = .ok document ∧
        plan.glossary = ⟨document.schemas, .lenient⟩ ∧
        plan.stem = Convert.outputStem "pets.yaml" ∧
        Convert.Spelling .ascii document plan schema := by
  obtain ⟨schema, h, -⟩ := dashDocument_types
  exact ⟨schema, h, convertDocument_names_spelled .ascii h⟩

/-- The definition of the key has no name. -/
theorem dashDocument_not_identified :
    ∃ schema, convertDocument "pets.yaml" dashDocument {} = .ok schema ∧
      ∀ A : Alphabet, ¬ schema.Identified A := by
  obtain ⟨schema, h, htypes⟩ := dashDocument_types
  have hempty : "" ∈ schema.files.flatMap fun f => f.definitions.types.map Definition.name := by
    rw [htypes]
    exact List.mem_singleton_self _
  obtain ⟨f, hf, hmem⟩ := List.mem_flatMap.mp hempty
  obtain ⟨d, hd, hname⟩ := List.mem_map.mp hmem
  refine ⟨schema, h, fun A hidentified => (hidentified.types f hf d hd).ne_nil ?_⟩
  rw [hname]
  rfl

end RestThrift
