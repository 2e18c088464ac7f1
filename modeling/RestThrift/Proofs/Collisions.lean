import Mathlib
import RestThrift.Proofs.Coverage
import RestThrift.Proofs.Numbering
import RestThrift.Proofs.ReadSchemas

/-!
# Collisions of names

Different texts of a document may come to the same name. Requests join fields of one name, so that
the names of their fields are different. Structs, throws and enumerations take a name for each
property, code and value, so that their names are different exactly when no two of these come to the
same name.
-/
namespace RestThrift

/-- The fields of messages, of throws and the members of enumerations have different names. -/
def Definitions.MembersDistinct (d : Definitions) : Prop :=
  (∀ m ∈ d.messages, (m.fields.map Field.name).Nodup) ∧
    (∀ s ∈ d.services, ∀ f ∈ s.functions, (f.throws.map Field.name).Nodup) ∧
    ∀ e ∈ d.enums, (e.members.map EnumMember.name).Nodup

/-- The names tell the entries of a list apart. -/
def TellsApart {α : Type} (name : α → String) (l : List α) : Prop := Set.InjOn name {a | a ∈ l}

theorem nodup_map_iff_tellsApart {α : Type} {name : α → String} {l : List α} (h : l.Nodup) :
    (l.map name).Nodup ↔ TellsApart name l :=
  List.nodup_map_iff_inj_on h

namespace Convert

/-! ## Members -/

section Members

variable {name : String} {names : Option (List String)} {given : List String}
  {choices : List Api.Choice} {i n : Nat}

/-- Members stand in the order of the values. -/
theorem getElem?_membersFrom : (membersFrom name names n choices)[i]? =
    choices[i]?.map (memberFor name names (n + i)) := by
  induction choices generalizing n i with
  | nil => rfl
  | cons choice rest ih =>
    cases i with
    | zero => rfl
    | succ i =>
      rw [membersFrom, List.getElem?_cons_succ, List.getElem?_cons_succ, ih, Nat.add_right_comm,
        Nat.add_assoc]

theorem map_name_membersFrom_none : (membersFrom name none n choices).map EnumMember.name =
    choices.map fun choice => Naming.memberName (name ++ "_" ++ choice.label) := by
  refine List.ext_getElem? fun i => ?_
  rw [List.getElem?_map, getElem?_membersFrom, Option.map_map, List.getElem?_map]
  rfl

theorem map_name_membersFrom_some (h : given.length = choices.length) :
    (membersFrom name (some given) 0 choices).map EnumMember.name =
      given.map Naming.memberName := by
  refine List.ext_getElem? fun i => ?_
  rw [List.getElem?_map, getElem?_membersFrom, Option.map_map, List.getElem?_map, Nat.zero_add]
  by_cases hi : i < choices.length
  · rw [List.getElem?_eq_getElem hi, List.getElem?_eq_getElem (h ▸ hi)]
    simp [memberFor, List.getElem?_eq_getElem (h ▸ hi)]
  · rw [List.getElem?_eq_none (by omega), List.getElem?_eq_none (by omega)]
    rfl

end Members

/-- The names of members tell the values of an enumeration apart: the given names where there is one
for each value, else those that are made of the values. -/
def NamesApart (name : String) (s : Api.Schema) : Prop :=
  if s.choiceNames.length = s.choices.length then TellsApart Naming.memberName s.choiceNames
  else TellsApart (fun choice => Naming.memberName (name ++ "_" ++ choice.label)) s.choices

theorem nodup_members_iff {file name : String} {s : Api.Schema} (hchoices : s.choices.Nodup)
    (hnames : s.choiceNames.Nodup) :
    ((enumeration file name s).members.map EnumMember.name).Nodup ↔ NamesApart name s := by
  rw [NamesApart]
  split
  · rename_i hlength
    have hmembers : (enumeration file name s).members =
        membersFrom name (some s.choiceNames) 0 s.choices := by
      rw [enumeration, if_pos hlength]
    rw [hmembers, map_name_membersFrom_some hlength, nodup_map_iff_tellsApart hnames]
  · rename_i hlength
    have hmembers : (enumeration file name s).members = membersFrom name none 0 s.choices := by
      rw [enumeration, if_neg hlength]
    rw [hmembers, map_name_membersFrom_none, nodup_map_iff_tellsApart hchoices]

/-! ## Fields -/

variable {plan : Plan} {stated : Api.Schema → Prop} {w : Workspace} {file name : String}
  {object : Api.Schema} {m : Message} {responses : Table Api.Response} {thrown : List Field}

/-- The fields of a struct are named for the properties, in their order. -/
theorem Formed.names (h : Formed plan w file name object m) :
    m.fields.map Field.name = (Table.keys object.properties).map Naming.fieldName := by
  obtain ⟨fields, hfields, rfl⟩ := h
  rw [map_name_renumber, Table.keys, List.map_map]
  refine map_eq_of_forall₂ hfields fun entry field hfield => ?_
  rw [hfield.shape, Function.comp_apply]

theorem names_of_thrown (h : List.Forall₂ ThrowsFor (failures responses) thrown) :
    thrown.map Field.name = (failures responses).keys.map failureName := by
  rw [Table.keys, List.map_map]
  exact map_eq_of_forall₂ h fun _ _ hthrown => hthrown.name

/-- A message is a request, whose fields have different names, or the struct of an object, whose
fields have different names exactly when their names tell the properties apart. -/
inductive FieldsNamed (g : Glossary) (stated : Api.Schema → Prop) (m : Message) : Prop
  | request (hascending : Ascending m.fields)
  | struct {object : Api.Schema} (hobject : g.ObjectOf stated object)
      (hnames : m.fields.map Field.name = (Table.keys object.properties).map Naming.fieldName)
      (hdistinct : (m.fields.map Field.name).Nodup ↔
        TellsApart Naming.fieldName (Table.keys object.properties))

/-- A function stands for an operation; the names of the fields that it throws are different exactly
when they tell the codes of the operation's failures apart. -/
def ThrowsNamed (document : Api.Document) (f : ServiceFunction) : Prop :=
  ∃ route operation, Realizes document route f ∧
    document.operation? route.1 route.2 = some operation ∧
    ((f.throws.map Field.name).Nodup ↔
      TellsApart failureName (failures operation.responses).keys)

/-- An enumeration lists the values of a schema; where neither the values nor the given names are
repeated, the names of its members are different exactly when they tell the values apart. -/
def MembersNamed (g : Glossary) (stated : Api.Schema → Prop) (file : String) (e : Enumeration) :
    Prop :=
  ∃ s, g.Holds stated s ∧ e = enumeration file e.name s ∧
    (s.choices.Nodup → s.choiceNames.Nodup →
      ((e.members.map EnumMember.name).Nodup ↔ NamesApart e.name s))

theorem Made.fieldsNamed (h : Made plan stated w file m)
    (hsorted : ∀ object, plan.glossary.ObjectOf stated object → Table.Sorted object.properties) :
    FieldsNamed plan.glossary stated m := by
  cases h with
  | request hascending _ _ => exact .request hascending
  | struct hobject hformed =>
    refine .struct hobject hformed.names ?_
    rw [hformed.names, nodup_map_iff_tellsApart (hsorted _ hobject).nodup]

theorem Realizes.throwsNamed {document : Api.Document} {route : String × Api.Method}
    {f : ServiceFunction} (h : Realizes document route f) : ThrowsNamed document f := by
  obtain ⟨operation, hoperation, hsorted, -, hthrows⟩ := h.throws
  refine ⟨route, operation, h, hoperation, ?_⟩
  rw [names_of_thrown hthrows, nodup_map_iff_tellsApart hsorted.nodup]

theorem Finished.membersNamed {service : String} {answers : List Answer} {schema : Schema}
    (h : Finished plan stated service answers w schema) {f : File} (hf : f ∈ schema.files)
    {e : Enumeration} (he : e ∈ f.definitions.enums) :
    MembersNamed plan.glossary stated f.path e := by
  obtain ⟨s, hs, heq⟩ := h.listed hf he
  refine ⟨s, hs, heq, fun hchoices hnames => ?_⟩
  rw [heq]
  exact nodup_members_iff hchoices hnames

end Convert

/-- The fields of a request have different names. The names of a struct's fields, of the fields that
a function throws and of an enumeration's members are different exactly when no two properties,
codes or values of the document come to one name. -/
theorem convertDocument_members_distinct_iff {file : String} {bytes : List UInt8}
    {options : Options} {schema : Schema} (h : convertDocument file bytes options = .ok schema) :
    ∃ document, readDocument file bytes = .ok document ∧ ∀ f ∈ schema.files,
      (∀ m ∈ f.definitions.messages, Convert.FieldsNamed ⟨document.schemas, options.policy⟩
        (Api.StatedIn document.paths) m) ∧
      (∀ s ∈ f.definitions.services, ∀ function ∈ s.functions,
        Convert.ThrowsNamed document function) ∧
      ∀ e ∈ f.definitions.enums, Convert.MembersNamed ⟨document.schemas, options.policy⟩
        (Api.StatedIn document.paths) f.path e := by
  obtain ⟨document, plan, answers, w, hread, -, hglossary, hcalls, hfinished⟩ :=
    Convert.convertDocument_finished h
  have hsorted := readDocument_sorted hread
  refine ⟨document, hread, fun f hf => ⟨fun m hm => ?_, fun s hs function hfunction => ?_,
    fun e he => ?_⟩⟩
  · rw [← hglossary]
    refine (hfinished.made hf hm).fieldsNamed fun object hobject => ?_
    rw [hglossary] at hobject
    exact hobject.sorted (readDocument_tidy hread)
  · obtain ⟨-, a, ha, rfl⟩ := hfinished.exists_answer hf hs hfunction
    refine ((hfinished.holds a ha).realizes hsorted ?_).throwsNamed
    rw [← hcalls]
    exact List.mem_map_of_mem ha
  · rw [← hglossary]
    exact hfinished.membersNamed hf he

/-- Two properties that come to one name, beside an operation that fails in two ways and an
enumeration. -/
def namesakeDocument : List UInt8 :=
  ("swagger: \"2.0\"\npaths:\n  /pets:\n    get:\n      responses:\n" ++
    "        200:\n          schema:\n            $ref: \"#/definitions/Pet\"\n" ++
    "        404:\n          schema:\n            type: string\n" ++
    "        default:\n          schema:\n            type: string\n" ++
    "definitions:\n  Pet:\n    properties:\n" ++
    "      pet-kind:\n        enum: [cat, dog]\n" ++
    "      pet-name:\n        type: string\n" ++
    "      pet_name:\n        type: string\n").toUTF8.data.toList

theorem namesakeDocument_fields :
    ∃ schema, convertDocument "pets.yaml" namesakeDocument {} = .ok schema ∧
      schema.files.flatMap (fun f => f.definitions.messages.map fun m =>
        (m.name, m.fields.map Field.name)) =
        [("GetPetsRequest", []), ("Pet", ["pet_kind", "pet_name", "pet_name"])] := by
  refine exists_of_toOption ?_
  decide +kernel

theorem namesakeDocument_members_distinct_iff :
    ∃ schema, convertDocument "pets.yaml" namesakeDocument {} = .ok schema ∧
      ∃ document, readDocument "pets.yaml" namesakeDocument = .ok document ∧ ∀ f ∈ schema.files,
        (∀ m ∈ f.definitions.messages, Convert.FieldsNamed ⟨document.schemas, .lenient⟩
          (Api.StatedIn document.paths) m) ∧
        (∀ s ∈ f.definitions.services, ∀ function ∈ s.functions,
          Convert.ThrowsNamed document function) ∧
        ∀ e ∈ f.definitions.enums, Convert.MembersNamed ⟨document.schemas, .lenient⟩
          (Api.StatedIn document.paths) f.path e := by
  obtain ⟨schema, h, -⟩ := namesakeDocument_fields
  exact ⟨schema, h, convertDocument_members_distinct_iff h⟩

/-- The struct has two fields of one name. -/
theorem namesakeDocument_not_membersDistinct :
    ∃ schema, convertDocument "pets.yaml" namesakeDocument {} = .ok schema ∧
      ∃ f ∈ schema.files, ¬ f.definitions.MembersDistinct := by
  obtain ⟨schema, h, hfields⟩ := namesakeDocument_fields
  have hpet : ("Pet", ["pet_kind", "pet_name", "pet_name"]) ∈ schema.files.flatMap
      fun f => f.definitions.messages.map fun m => (m.name, m.fields.map Field.name) := by
    rw [hfields]
    simp
  obtain ⟨f, hf, hmem⟩ := List.mem_flatMap.mp hpet
  obtain ⟨m, hm, heq⟩ := List.mem_map.mp hmem
  refine ⟨schema, h, f, hf, fun hdistinct => ?_⟩
  have hnodup := hdistinct.1 m hm
  rw [(Prod.mk.inj heq).2] at hnodup
  revert hnodup
  decide

end RestThrift
