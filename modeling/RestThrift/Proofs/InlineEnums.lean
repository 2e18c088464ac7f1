import Mathlib
import RestThrift.Proofs.EnumDefaults
import RestThrift.Proofs.Floors
import RestThrift.Proofs.InlineStructs

/-!
# Enumerations of inline schemas

An inline schema that lists its values takes the enumeration that is remembered for its name in its
file, whatever values that one lists. So an enumeration has the values of the schema that it was
made for: the first inline schema that asked for the name, or a named schema that has it. It has
those of another schema only if both list alike.
-/
namespace RestThrift

/-! ## Listed values -/

/-- The text that a member is named for: the given one where there is one for each value, else the
name of the enumeration and the value. -/
def Api.Schema.memberText (s : Api.Schema) (name : String) (i : Nat) (choice : Api.Choice) :
    String :=
  if s.choiceNames.length = s.choices.length then s.choiceNames[i]?.getD ""
  else name ++ "_" ++ choice.label

/-- The enumeration has one member for each value that the schema lists, in their order, with the
number and the name that the schema gives it. -/
structure Enumeration.Lists (e : Enumeration) (s : Api.Schema) : Prop where
  length : e.members.length = s.choices.length
  member : ∀ i choice, s.choices[i]? = some choice → ∃ m, e.members[i]? = some m ∧
    m.name = Naming.memberName (s.memberText e.name i choice) ∧ choice.NumberedAs i m.value

/-- Under the name, two schemas give the same numbers and names to the members for their values. -/
structure ListsLike (name : String) (s source : Api.Schema) : Prop where
  length : s.choices.length = source.choices.length
  member : ∀ i own other, s.choices[i]? = some own → source.choices[i]? = some other →
    Naming.memberName (s.memberText name i own) =
        Naming.memberName (source.memberText name i other) ∧
      ∃ number, own.NumberedAs i number ∧ other.NumberedAs i number

namespace Convert

open Workspace

section Lists

variable {file name : String} {s source : Api.Schema}

theorem members_enumeration : (enumeration file name s).members =
    s.choices.mapIdx fun i choice =>
      { name := Naming.memberName (s.memberText name i choice), value := choice.code i } := by
  refine List.ext_getElem? fun i => ?_
  rw [enumeration, getElem?_membersFrom, List.getElem?_mapIdx, Nat.zero_add]
  congr 1
  funext choice
  by_cases hlength : s.choiceNames.length = s.choices.length
  · simp only [memberFor, Api.Schema.memberText, if_pos hlength]
  · simp only [memberFor, Api.Schema.memberText, if_neg hlength]

theorem enumeration_lists (file name : String) (s : Api.Schema) :
    (enumeration file name s).Lists s where
  length := by rw [members_enumeration, List.length_mapIdx]
  member i choice hchoice := by
    rw [members_enumeration, List.getElem?_mapIdx, hchoice]
    exact ⟨_, rfl, rfl, Api.Choice.numberedAs_iff.mpr rfl⟩

theorem lists_iff : (enumeration file name source).Lists s ↔ ListsLike name s source := by
  have hsource := enumeration_lists file name source
  constructor
  · intro h
    refine ⟨h.length.symm.trans hsource.length, fun i own other hown hother => ?_⟩
    obtain ⟨m, hm, hname, hvalue⟩ := h.member i own hown
    obtain ⟨m', hm', hname', hvalue'⟩ := hsource.member i other hother
    obtain rfl := Option.some.inj (hm.symm.trans hm')
    exact ⟨hname.symm.trans hname', m.value, hvalue, hvalue'⟩
  · intro h
    refine ⟨hsource.length.trans h.length.symm, fun i own hown => ?_⟩
    have hi : i < source.choices.length := h.length ▸ (List.getElem?_eq_some_iff.mp hown).1
    have hother := List.getElem?_eq_getElem hi
    obtain ⟨hname, number, hnumber, hnumber'⟩ := h.member i own _ hown hother
    obtain ⟨m, hm, hname', hvalue⟩ := hsource.member i _ hother
    obtain rfl := hvalue.unique hnumber'
    exact ⟨m, hm, hname'.trans hname.symm, hnumber⟩

end Lists

/-! ## What is remembered -/

section Remembered

variable {plan : Plan} {w w₀ u u' : Workspace} {file base f b name : String} {place : Place}
  {source : Api.Schema}

/-- Nothing is remembered when names are reserved. -/
theorem inlineEnum?_reserve (stem : String) (keys : List String) (w : Workspace) :
    (reserve stem keys w).2.inlineEnum? f b = w.inlineEnum? f b := by
  induction keys generalizing w with
  | nil => rfl
  | cons key rest ih => exact ih _

theorem inlineEnum?_planned {options : Options} {schemas : Table Api.Schema}
    (h : Plan.of file options schemas = (plan, w₀)) : w₀.inlineEnum? f b = none := by
  rw [← (Prod.mk.inj h).2]
  exact inlineEnum?_reserve _ _ _

/-- Where the enumeration comes from that is remembered for a name in a file: an inline schema was
the first to ask for the name, or a named schema has it. -/
inductive Plan.Remembered (p : Plan) (w₀ u : Workspace) (file base : String) :
    String → Api.Schema → Prop
  | inline {v : Workspace} {before : Place} {source : Api.Schema} (hbefore : p.Proceeds w₀ v)
      (hfile : before.file = file) (hbase : before.base = base)
      (hnew : v.inlineEnum? file base = none) (hlater : p.Proceeds (v.newEnum before source) u) :
      Remembered p w₀ u file base (v.claim file base).1 source
  | named {key : String} {source : Api.Schema} (hkey : key ∈ p.glossary.schemas.keys)
      (hfile : p.fileOf key = file) (hname : p.nameOf key = base)
      (he : enumeration file base source ∈ (u.definitions file).enums) :
      Remembered p w₀ u file base base source

theorem Plan.Remembered.defined (h : plan.Remembered w₀ u file base name source) :
    enumeration file name source ∈ (u.definitions file).enums := by
  cases h with
  | inline _ hfile hbase _ hlater =>
    subst hfile hbase
    exact (hlater.le.enums _).subset (mem_newEnum _ _ source)
  | named _ _ _ he => exact he

theorem Plan.Remembered.later (h : plan.Remembered w₀ u file base name source)
    (hsteps : plan.Proceeds u u') : plan.Remembered w₀ u' file base name source := by
  cases h with
  | inline hbefore hfile hbase hnew hlater =>
    exact .inline hbefore hfile hbase hnew (hlater.trans hsteps)
  | named hkey hfile hname he =>
    exact .named hkey hfile hname ((hsteps.le.enums _).subset he)

/-- One move forgets nothing; what it remembers anew it has just defined. -/
theorem Plan.Moves.remembered (h : plan.Moves u u') (hbefore : plan.Proceeds w₀ u)
    (hname : u'.inlineEnum? file base = some name) : u.inlineEnum? file base = some name ∨
      ∃ source, plan.Remembered w₀ u' file base name source := by
  cases h with
  | adds h =>
    cases h with
    | enumeration place source hnew =>
      rw [inlineEnum?_newEnum] at hname
      split at hname
      · rename_i hplace
        obtain ⟨rfl, rfl⟩ := hplace
        obtain rfl := Option.some.inj hname
        exact .inr ⟨source, .inline hbefore rfl rfl hnew .refl⟩
      · exact .inl hname
    | struct place message _ => exact .inl hname
  | @enumeration key hkey source =>
    rw [inlineEnum?_rememberEnum] at hname
    split at hname
    · rename_i hplace
      obtain ⟨rfl, rfl⟩ := hplace
      obtain rfl := Option.some.inj hname
      refine .inr ⟨source, .named hkey rfl rfl ?_⟩
      simp [definitions_addEnum]
    · exact .inl hname
  | request _ | typedef _ _ | message _ _ => exact .inl hname

/-- An enumeration that is remembered comes from a schema. -/
theorem Plan.Proceeds.remembered (h : plan.Proceeds w₀ u)
    (hnone : ∀ file base, w₀.inlineEnum? file base = none)
    (hname : u.inlineEnum? file base = some name) :
    ∃ source, plan.Remembered w₀ u file base name source := by
  induction h with
  | refl =>
    rw [hnone] at hname
    cases hname
  | tail hsteps hstep ih =>
    rcases hstep.remembered hsteps hname with hold | hnew
    · obtain ⟨source, hsource⟩ := ih hold
      exact ⟨source, hsource.later (.single hstep)⟩
    · exact hnew

end Remembered

/-! ## Finished schemas -/

/-- The name of the enumeration that an inline schema takes, and the schema that it is made for. The
name is new, and then it is made for the inline schema itself; or it is remembered, and then it was
made for the inline schema that asked first, or for a named schema with that name. -/
inductive Plan.ListedFor (p : Plan) (stated : Api.Schema → Prop) (w₀ u : Workspace) (place : Place)
    (s : Api.Schema) : String → Api.Schema → Prop
  | own (hnew : u.inlineEnum? place.file place.base = none) :
      ListedFor p stated w₀ u place s (u.claim place.file place.base).1 s
  | earlier {v : Workspace} {before : Place} {source : Api.Schema} (hbefore : p.Proceeds w₀ v)
      (hfile : before.file = place.file) (hbase : before.base = place.base)
      (hnew : v.inlineEnum? place.file place.base = none)
      (hlater : p.Proceeds (v.newEnum before source) u)
      (hkept : u.inlineEnum? place.file place.base = some (v.claim place.file place.base).1)
      (hheld : p.glossary.Holds stated source) :
      ListedFor p stated w₀ u place s (v.claim place.file place.base).1 source
  | named {key : String} {source : Api.Schema}
      (hget : p.glossary.schemas.get? key = some source) (hchoices : source.choices ≠ [])
      (hfile : p.fileOf key = place.file) (hname : p.nameOf key = place.base)
      (hkept : u.inlineEnum? place.file place.base = some place.base) :
      ListedFor p stated w₀ u place s place.base source

/-- Whenever an inline schema takes an enumeration, before the end of a conversion, the definition
of its name in its file is the enumeration of the schema that it is made for, and lists the values
of that one. It lists those of the inline schema exactly if both schemas list alike. -/
def TakesEnums (plan : Plan) (stated : Api.Schema → Prop) (w₀ w : Workspace) (schema : Schema) :
    Prop :=
  ∀ ⦃steps inlining place s u type u'⦄, IsInlineEnum s → plan.Proceeds w₀ u →
    Runs (typeWithin plan (steps + 1) inlining place s) u type u' → plan.Proceeds u' w →
    ∃ source f e, plan.ListedFor stated w₀ u place s e.name source ∧ f ∈ schema.files ∧
      f.path = place.file ∧ type = localType f.path e.name ∧
      f.definitions.types.filter (fun d => d.name = e.name) = [.enumeration e] ∧
      e = enumeration f.path e.name source ∧ e.Lists source ∧
      (e.Lists s ↔ ListsLike e.name s source)

section Finished

variable {plan : Plan} {stated : Api.Schema → Prop} {service : String} {answers : List Answer}
  {w w₀ w' u u' : Workspace} {schema : Schema} {file base name : String} {place : Place}
  {inlining : List String} {steps : Nat} {s source : Api.Schema} {type : TypeRef}

theorem typeWithin_inlineEnum (hs : IsInlineEnum s) :
    typeWithin plan (steps + 1) inlining place s = enumType place s := by
  obtain ⟨hreference, hparts, hchoices⟩ := hs
  rw [typeWithin_succ, Branch.of_listed hreference hparts hchoices]
  rfl

theorem Defined.of_enumeration {e : Enumeration} (h : Defined plan w file name s (.enumeration e)) :
    s.choices ≠ [] ∧ e = Convert.enumeration file name s := by
  cases h with
  | enumeration hchoices => exact ⟨by simpa using hchoices, rfl⟩

theorem newEnum_congr (h : enumeration place.file (w.claim place.file place.base).1 s =
    enumeration place.file (w.claim place.file place.base).1 source) :
    w.newEnum place s = w.newEnum place source := by
  simp only [newEnum, h]

/-- An enumeration of the workspace is all that has its name in its file of the schema. -/
theorem Finished.exists_enumeration (h : Finished plan stated service answers w schema)
    (he : enumeration file name source ∈ (w.definitions file).enums) :
    ∃ f ∈ schema.files, f.path = file ∧
      f.definitions.types.filter (fun d => d.name = name) =
        [.enumeration (enumeration file name source)] :=
  h.exists_type (Definitions.enumeration_mem_types he)

/-- What is remembered for a name at some time, was made for a schema of the document. -/
theorem Finished.listedFor (h : Finished plan stated service answers w schema)
    (hsource : plan.Remembered w₀ u place.file place.base name source)
    (hkept : u.inlineEnum? place.file place.base = some name) (hle : u ≤ w) :
    ∃ source, plan.ListedFor stated w₀ u place s name source ∧
      enumeration place.file name source ∈ (w.definitions place.file).enums := by
  have he := (hle.enums _).subset hsource.defined
  cases hsource with
  | @inline v before source hbefore hfile hbase hnew hlater =>
    obtain ⟨source', hheld, heq⟩ := (h.coherent.sound place.file).listed _ he
    have hsame : v.newEnum before source = v.newEnum before source' := by
      refine newEnum_congr ?_
      rw [hfile, hbase]
      exact heq
    exact ⟨source', .earlier hbefore hfile hbase hnew (hsame ▸ hlater) hkept hheld, heq ▸ he⟩
  | @named key _ hkey hfile hname _ =>
    obtain ⟨source', hget⟩ := Table.exists_get?_of_mem_keys hkey
    obtain ⟨d, hd, hdefined⟩ := h.defined _ (Table.mem_of_get? hget)
    rw [hfile, hname] at hdefined
    rw [hfile] at hd
    have hsame : d = .enumeration (enumeration place.file place.base source) :=
      h.coherent.type_unique (Definitions.enumeration_mem_types he) hd hdefined.name_eq
    obtain ⟨hchoices, heq⟩ := (hsame ▸ hdefined).of_enumeration
    exact ⟨source', .named hget hchoices hfile hname hkept, heq ▸ he⟩

theorem Finished.takesEnums (h : Finished plan stated service answers w' schema) (hle : w ≤ w')
    (hnone : ∀ file base, w₀.inlineEnum? file base = none) :
    TakesEnums plan stated w₀ w schema := by
  intro steps inlining place s u type u' hs hbefore hrun hlater
  have hle' : u' ≤ w' := hlater.le.trans hle
  obtain ⟨name, source, htype, hlisted, he⟩ : ∃ name source, type = localType place.file name ∧
      plan.ListedFor stated w₀ u place s name source ∧
      enumeration place.file name source ∈ (w'.definitions place.file).enums := by
    rw [typeWithin_inlineEnum hs] at hrun
    rcases enumType_runs hrun with ⟨name, hkept, htype, rfl⟩ | ⟨hnew, htype, rfl⟩
    · obtain ⟨source, hsource⟩ := hbefore.remembered hnone hkept
      obtain ⟨source', hlisted, he⟩ := h.listedFor (s := s) hsource hkept hle'
      exact ⟨name, source', htype, hlisted, he⟩
    · exact ⟨_, s, htype, .own hnew, (hle'.enums _).subset (mem_newEnum u place s)⟩
  obtain ⟨f, hf, hpath, hsingle⟩ := h.exists_enumeration he
  exact ⟨source, f, _, hlisted, hf, hpath, hpath ▸ htype, hsingle, by rw [hpath]; rfl,
    enumeration_lists _ _ source, lists_iff⟩

end Finished

end Convert

/-- An inline schema that lists its values has an enumeration with a member for each of them exactly
if it lists them like the schema that the enumeration is made for: an earlier inline schema or a
named schema of that name, or the schema itself where there is none. -/
theorem convertDocument_takes_enums {file : String} {bytes : List UInt8} {options : Options}
    {schema : Schema} (h : convertDocument file bytes options = .ok schema) :
    ∃ document plan w₀ w, readDocument file bytes = .ok document ∧
      Convert.Course file options document plan w₀ w schema ∧ plan.Proceeds w₀ w ∧
      Convert.TakesEnums plan (Api.StatedIn document.paths) w₀ w schema := by
  obtain ⟨document, plan, w₀, w, hread, hn, -, hcourse, answers, w', hle, hfinished⟩ :=
    Convert.convertDocument_course h
  exact ⟨document, plan, w₀, w, hread, hcourse, hcourse.proceeds hn,
    hfinished.takesEnums hle fun _ _ => Convert.inlineEnum?_planned hcourse.planned⟩

/-- Two properties ask for one name and list the same values, one of each sort. -/
def rankDocument : List UInt8 :=
  ("swagger: \"2.0\"\npaths: {}\ndefinitions:\n  Pet:\n    properties:\n" ++
    "      _rank:\n        enum: [7, -2.5, cat]\n" ++
    "      rank:\n        enum: [7, -2.5, cat]\n").toUTF8.data.toList

/-- Its enumerations have an integer, the floor of a double and a position for numbers. -/
def rankMembers : List (String × String × Int) :=
  [("PetRank", "PetRank_7", 7), ("PetRank", "PetRank__2_5", -3), ("PetRank", "PetRank_cat", 2)]

theorem rankDocument_converts :
    ∃ schema, convertDocument "pets.yaml" rankDocument {} = .ok schema ∧
      (schema.files.flatMap fun f => f.definitions.enums.flatMap fun e =>
        e.members.map fun m => (e.name, m.name, m.value)) = rankMembers := by
  refine exists_of_toOption ?_
  decide +kernel

theorem rankDocument_takes_enums :
    ∃ schema, convertDocument "pets.yaml" rankDocument {} = .ok schema ∧
      (schema.files.flatMap fun f => f.definitions.enums.flatMap fun e =>
        e.members.map fun m => (e.name, m.name, m.value)) = rankMembers ∧
      ∃ document plan w₀ w, readDocument "pets.yaml" rankDocument = .ok document ∧
        Convert.Course "pets.yaml" {} document plan w₀ w schema ∧ plan.Proceeds w₀ w ∧
        Convert.TakesEnums plan (Api.StatedIn document.paths) w₀ w schema := by
  obtain ⟨schema, h, hmembers⟩ := rankDocument_converts
  exact ⟨schema, h, hmembers, convertDocument_takes_enums h⟩

/-- Two properties ask for one name, the second with another value than those of the first. -/
def kindsDocument : List UInt8 :=
  ("swagger: \"2.0\"\npaths: {}\ndefinitions:\n  Pet:\n    properties:\n" ++
    "      _kind:\n        enum: [cat, dog]\n" ++
    "      kind:\n        enum: [bird]\n").toUTF8.data.toList

def birdSchema : Api.Schema := { choices := [.text "bird"] }

def kindsSchema : Api.Schema :=
  { properties := [("_kind", { choices := [.text "cat", .text "dog"] }), ("kind", birdSchema)] }

theorem readDocument_kindsDocument :
    readDocument "pets.yaml" kindsDocument =
      .ok ⟨.swagger2, "2.0", [], [("Pet", kindsSchema)]⟩ := by
  let listing (names : List String) : Yaml.Value :=
    object [("enum", .sequence (names.map Yaml.Value.text))]
  have hparse : Yaml.parse? kindsDocument = some (object [("swagger", .text "2.0"),
      ("paths", object []), ("definitions", object [("Pet", object [("properties",
        object [("_kind", listing ["cat", "dog"]), ("kind", listing ["bird"])])])])]) := by
    decide +kernel
  rw [Convert.readDocument_eq hparse]
  rfl

theorem kindsDocument_converts :
    ∃ schema, convertDocument "pets.yaml" kindsDocument {} = .ok schema ∧
      (schema.files.flatMap fun f => f.definitions.enums.map fun e => e.members.length) = [2] := by
  rw [convertDocument_of_read readDocument_kindsDocument]
  refine exists_of_toOption ?_
  decide +kernel

/-- No enumeration of the schema lists the value of the second property. -/
theorem kindsDocument_conflates :
    ∃ schema, convertDocument "pets.yaml" kindsDocument {} = .ok schema ∧
      ∃ document plan w₀ w, readDocument "pets.yaml" kindsDocument = .ok document ∧
        Convert.Course "pets.yaml" {} document plan w₀ w schema ∧
        ∃ place u type u', Convert.IsInlineEnum birdSchema ∧ plan.Proceeds w₀ u ∧
          Convert.Runs (Convert.typeOf plan place birdSchema) u type u' ∧ plan.Proceeds u' w ∧
          ∀ f ∈ schema.files, ∀ e ∈ f.definitions.enums, ¬ e.Lists birdSchema := by
  obtain ⟨schema, h, hlengths⟩ := kindsDocument_converts
  obtain ⟨document, plan, w₀, w, hread, hn, -, hcourse, -⟩ := Convert.convertDocument_course h
  obtain rfl := Except.ok.inj (readDocument_kindsDocument.symm.trans hread)
  have hbird : ("kind", birdSchema) ∈ kindsSchema.properties :=
    List.mem_cons_of_mem _ (List.mem_singleton_self _)
  obtain ⟨u, type, u', hbefore, hrun, hafter⟩ :=
    hcourse.finds hn (List.mem_singleton_self _) rfl rfl rfl hbird
  refine ⟨schema, h, _, plan, w₀, w, hread, hcourse, _, u, type, u',
    ⟨rfl, rfl, List.cons_ne_nil _ _⟩, hbefore, hrun, hafter, fun f hf e he hlists => ?_⟩
  have hmem : e.members.length ∈ schema.files.flatMap fun f =>
      f.definitions.enums.map fun e => e.members.length :=
    List.mem_flatMap.mpr ⟨f, hf, List.mem_map_of_mem he⟩
  rw [hlengths, List.mem_singleton, hlists.length] at hmem
  cases hmem

end RestThrift
