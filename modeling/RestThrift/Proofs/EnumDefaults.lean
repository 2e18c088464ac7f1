import Mathlib
import RestThrift.Proofs.Collisions
import RestThrift.Proofs.References

/-!
# Defaults of enumerations

The default of a property is looked up among the property's own values, and its position is taken
for the position of a member in the enumeration that the property's type has come to. That
enumeration may list other values: it may be that of an earlier schema with the same name, or a
property may only refer to it and have no values of its own.
-/
namespace RestThrift

namespace Convert

open Workspace Text

/-! ## Defaults -/

/-- A default value is looked up among the schema's own values. -/
def memberAt (e : Enumeration) (schema : Api.Schema) (value : Yaml.Value) : Option EnumMember :=
  (schema.choices.findIdx? fun choice => choice.accepts value).bind fun position =>
    e.members[position]?

/-- A member of an enumeration is built from a value that its schema lists. -/
def StandsFor (e : Enumeration) (source : Api.Schema) (value : Yaml.Value) (member : EnumMember) :
    Prop :=
  ∃ (i : Nat) (choice : Api.Choice), source.choices[i]? = some choice ∧
    choice.accepts value = true ∧ e.members[i]? = some member

/-- The default is written as the member that is built from the value. -/
def DefaultsToMember (written : String) (e : Enumeration) (source : Api.Schema)
    (value : Yaml.Value) (default : Option Literal) : Prop :=
  ∃ member, StandsFor e source value member ∧
    default = some (.text (written ++ "." ++ member.name))

/-- The member that is looked up has the name of one that is built from the value. -/
def LooksUp (e : Enumeration) (source schema : Api.Schema) (value : Yaml.Value) : Prop :=
  ∃ member, memberAt e schema value = some member ∧
    ∃ built, StandsFor e source value built ∧ built.name = member.name

/-- The schema lists its values in place. -/
def IsInlineEnum (schema : Api.Schema) : Prop :=
  schema.reference = none ∧ schema.parts = [] ∧ schema.choices ≠ []

/-- How the default of a property is written that has the type of an enumeration: as the member that
is looked up, or else as a literal. -/
inductive WrittenDefault (written : String) (e : Enumeration) (entry : String × Api.Schema)
    (value : Yaml.Value) : Option Literal → Prop
  | member {member : EnumMember} (h : memberAt e entry.2 value = some member) :
      WrittenDefault written e entry value (some (.text (written ++ "." ++ member.name)))
  | literal {default : Option Literal} (h : defaultLiteral entry.1 value = .ok default)
      (hinline : IsInlineEnum entry.2 → memberAt e entry.2 value = none) :
      WrittenDefault written e entry value default

section Written

variable {written property : String} {e : Enumeration} {entry : String × Api.Schema}
  {value : Yaml.Value} {default : Option Literal} {source : Api.Schema}

theorem mem_of_mem_guardDigit {c : Char} {name : List Char} (hc : c ≠ '_')
    (h : c ∈ Naming.guardDigit name) : c ∈ name := by
  cases name with
  | nil => exact h
  | cons d rest =>
    rw [Naming.guardDigit] at h
    split at h
    · exact (List.mem_cons.mp h).resolve_left hc
    · exact h

/-- The names of members have letters, digits and underscores only. -/
theorem quote_not_mem_memberName (text : String) : '"' ∉ (Naming.memberName text).toList := by
  rw [Naming.memberName, String.toList_ofList]
  intro hmem
  obtain ⟨c, -, hc⟩ := List.mem_map.mp (mem_of_mem_guardDigit (by decide) hmem)
  split at hc
  · rename_i hkept
    subst hc
    revert hkept
    decide
  · revert hc
    decide

theorem quote_not_mem_membersFrom {name : String} {names : Option (List String)}
    {choices : List Api.Choice} {n : Nat} :
    ∀ m ∈ membersFrom name names n choices, '"' ∉ m.name.toList := by
  induction choices generalizing n with
  | nil => exact fun _ h => absurd h List.not_mem_nil
  | cons choice rest ih => exact List.forall_mem_cons.mpr ⟨quote_not_mem_memberName _, ih⟩

/-- A value that is written as a text is written between quotes. -/
theorem literal_eq_text {text : String} (h : literal value = .ok (.text text)) :
    ∃ raw, text = String.ofList (quote raw) := by
  cases value with
  | text s =>
    rw [literal] at h
    exact ⟨s.toList, (Literal.text.inj (Except.ok.inj h)).symm⟩
  | number n =>
    cases n with
    | int n =>
      rw [literal] at h
      split at h <;> cases h
    | float x => cases h
  | sequence items =>
    obtain ⟨literals, -, heq⟩ := map_eq_ok.mp h
    cases heq
  | mapping entries =>
    obtain ⟨literals, -, heq⟩ := map_eq_ok.mp h
    cases heq
  | _ => cases h

/-- A literal is no bare name behind a dot. -/
theorem defaultLiteral_ne_member {name : String} (hname : '"' ∉ name.toList) :
    defaultLiteral property value ≠ .ok (some (.text (written ++ "." ++ name))) := by
  intro h
  have hliteral : literal value = .ok (.text (written ++ "." ++ name)) := by
    rw [defaultLiteral] at h
    split at h
    · cases h
    · split at h
      · rename_i heq
        obtain rfl := Option.some.inj (Except.ok.inj h)
        exact heq
      · cases h
  obtain ⟨raw, hraw⟩ := literal_eq_text hliteral
  have hlists : written.toList ++ '.' :: name.toList = ('"' :: raw.flatMap quoteChar) ++ ['"'] := by
    have htexts := congrArg String.toList hraw
    simpa [quote] using htexts
  -- the last character of the literal is a quote, and it stands in the name or is the dot
  have hlast := congrArg List.getLast? hlists
  rw [List.getLast?_append_cons, List.getLast?_concat] at hlast
  rcases List.mem_cons.mp (List.mem_of_getLast? hlast) with hdot | hmem
  · revert hdot
    decide
  · exact hname hmem

theorem WrittenDefault.of_defaultsToMember
    (h : WrittenDefault written e entry value default)
    (hnames : ∀ m ∈ e.members, '"' ∉ m.name.toList)
    (hdefault : DefaultsToMember written e source value default) :
    LooksUp e source entry.2 value := by
  obtain ⟨built, hbuilt, rfl⟩ := hdefault
  obtain ⟨i, choice, -, -, hmember⟩ := id hbuilt
  generalize hd : some (Literal.text (written ++ "." ++ built.name)) = d at h
  cases h with
  | member hlooked =>
    refine ⟨_, hlooked, built, hbuilt, ?_⟩
    simpa using hd
  | literal hliteral _ =>
    subst hd
    exact absurd hliteral (defaultLiteral_ne_member (hnames _ (List.mem_of_getElem? hmember)))

theorem WrittenDefault.defaultsToMember (h : WrittenDefault written e entry value default)
    (hinline : IsInlineEnum entry.2) (hlooks : LooksUp e source entry.2 value) :
    DefaultsToMember written e source value default := by
  obtain ⟨member, hlooked, built, hbuilt, hname⟩ := hlooks
  cases h with
  | member hmember =>
    obtain rfl := Option.some.inj (hlooked.symm.trans hmember)
    exact ⟨built, hbuilt, by rw [hname]⟩
  | literal _ hnone =>
    rw [hnone hinline] at hlooked
    cases hlooked

end Written

/-! ## Enumerations of a file -/

section Enumerations

variable {plan : Plan} {stated : Api.Schema → Prop} {w w₀ : Workspace}
  {file home written property : String} {e other : Enumeration} {own : Api.Schema}
  {value : Yaml.Value} {literal : Literal}

/-- Enumerations of one name in one file are the same. -/
theorem Coherent.enum_unique (h : Coherent plan stated w []) (he : e ∈ (w.definitions file).enums)
    (hother : other ∈ (w.definitions file).enums) (hname : other.name = e.name) : other = e :=
  Definition.enumeration.inj <| h.type_unique (Definitions.enumeration_mem_types he)
    (Definitions.enumeration_mem_types hother) hname

theorem Coherent.enum?_eq_some (h : Coherent plan stated w []) (hle : w₀ ≤ w)
    (he : e ∈ (w₀.definitions file).enums) : (w₀.definitions file).enum? e.name = some e := by
  obtain ⟨found, hfound⟩ : ∃ found, (w₀.definitions file).enum? e.name = some found := by
    rw [← Option.isSome_iff_exists, Definitions.enum?, List.find?_isSome]
    exact ⟨e, he, by simp⟩
  have hname : found.name = e.name := by simpa using List.find?_some hfound
  have hmem := (hle.enums file).subset (List.mem_of_find?_eq_some hfound)
  rw [hfound, h.enum_unique ((hle.enums file).subset he) hmem hname]

/-- The type of an enumeration is written in a file as that enumeration's name only if it is there,
and no other enumeration of the file is written so. -/
theorem Coherent.enum_of_written (h : Coherent plan stated w []) (hreserved : plan.Reserved w)
    (htyped : Typed plan w file (.named written (some (fqnOf home e.name))))
    (he : e ∈ (w.definitions home).enums) (hother : other ∈ (w.definitions file).enums)
    (hname : other.name = written) : other = e := by
  have hplain : ∀ {file} {e : Enumeration}, e ∈ (w.definitions file).enums →
      IsPlain e.name.toList :=
    fun he => h.plain _ _ (h.mem_namesIn (Definitions.enumeration_mem_types he))
  have hself : TypeRef.named written (some (fqnOf home e.name)) ∈
      (TypeRef.named written (some (fqnOf home e.name))).walk := List.mem_singleton_self _
  rcases htyped.named h hreserved hself with ⟨-, hnone⟩ | ⟨target, name, hfqn, htaken, hwritten⟩
  · cases hnone
  · obtain ⟨rfl, rfl⟩ :=
      (fqnOf_inj (hplain he) (h.plain _ _ htaken)).mp (Option.some.inj hfqn)
    by_cases hfile : home = file
    · subst hfile
      exact h.enum_unique he hother (hname.trans (hwritten.1 rfl))
    · -- a qualified name has a dot, and no definition's name has one
      obtain ⟨stem, hqualified⟩ := hwritten.2 hfile
      have hdot := hplain hother '.' (by simp [hname, hqualified])
      exact absurd rfl hdot.2

/-- A default that is there is the one of the schema, as a member or as a literal. -/
theorem propertyDefault_eq_some {fqn : Option String}
    (h : propertyDefault w₀ file property own (.named written fqn) = .ok (some literal)) :
    ∃ value, own.default = some value ∧
      ((∃ name, defaultMember? w₀ file written own.choices value = some name ∧
          literal = .text (written ++ "." ++ name)) ∨
        (defaultMember? w₀ file written own.choices value = none ∧
          defaultLiteral property value = .ok (some literal))) := by
  rw [propertyDefault] at h
  split at h
  · cases h
  · rename_i value hvalue
    refine ⟨value, hvalue, ?_⟩
    simp only at h
    split at h
    · rename_i name hname
      exact .inl ⟨name, hname, (Option.some.inj (Except.ok.inj h)).symm⟩
    · rename_i hnone
      exact .inr ⟨hnone, h⟩

theorem defaultMember?_eq_bind : defaultMember? w₀ file written own.choices value =
    ((w₀.definitions file).enum? written).bind fun e =>
      (memberAt e own value).map EnumMember.name := by
  simp only [defaultMember?, memberAt, Option.bind_eq_bind, Option.pure_def]
  cases own.choices.findIdx? fun choice => choice.accepts value with
  | none => cases (w₀.definitions file).enum? written <;> rfl
  | some position =>
    cases (w₀.definitions file).enum? written with
    | none => rfl
    | some e => simp only [Option.bind_some, Option.map_eq_bind, Function.comp_def]

/-- The default that a property was given while the conversion went on, seen from its end. -/
theorem FieldOf.writtenDefault {required : List String} {entry : String × Api.Schema}
    {field : Field} (h : FieldOf plan w file required entry field)
    (hcoherent : Coherent plan stated w []) (hreserved : plan.Reserved w)
    (htype : field.type = .named written (some (fqnOf home e.name)))
    (he : e ∈ (w.definitions home).enums) (hdefault : field.default = some literal) :
    ∃ value, entry.2.default = some value ∧
      WrittenDefault written e entry value (some literal) := by
  have htyped := htype ▸ h.typed
  obtain ⟨w₀, hle, henumerates, hmade⟩ := h.default
  rw [htype, hdefault] at hmade
  obtain ⟨value, hvalue, ⟨name, hfound, rfl⟩ | ⟨hnone, hliteral⟩⟩ := propertyDefault_eq_some hmade
  · rw [defaultMember?_eq_bind] at hfound
    obtain ⟨other, hother, hlooked⟩ := Option.bind_eq_some_iff.mp hfound
    obtain ⟨member, hmember, rfl⟩ := Option.map_eq_some_iff.mp hlooked
    have hname : other.name = written := by simpa using List.find?_some hother
    obtain rfl := hcoherent.enum_of_written hreserved htyped he
      ((hle.enums file).subset (List.mem_of_find?_eq_some hother)) hname
    exact ⟨value, hvalue, .member hmember⟩
  · refine ⟨value, hvalue, .literal hliteral fun ⟨hreference, hparts, hchoices⟩ => ?_⟩
    obtain ⟨other, hother, heq⟩ := henumerates hreference hparts hchoices
    obtain ⟨hwritten, -⟩ := TypeRef.named.inj (htype.symm.trans heq)
    obtain rfl := hcoherent.enum_of_written hreserved htyped he ((hle.enums file).subset hother)
      hwritten.symm
    rw [hwritten, defaultMember?_eq_bind, hcoherent.enum?_eq_some hle hother] at hnone
    simpa using hnone

end Enumerations

/-! ## Fields -/

variable {plan : Plan} {stated : Api.Schema → Prop} {service : String} {answers : List Answer}
  {w : Workspace} {schema : Schema} {file : String} {m : Message} {field : Field}

/-- What is known of the default of a property whose type is an enumeration. The enumeration lists
the values of some schema. If the default is the member that is built from the value, then looking
up gives it; where the property lists its values in place, looking up is all. -/
structure EnumDefault (g : Glossary) (stated : Api.Schema → Prop) (home : String) (e : Enumeration)
    (written : String) (entry : String × Api.Schema) (value : Yaml.Value)
    (default : Option Literal) : Prop where
  listed : ∃ source, g.Holds stated source ∧ e = enumeration home e.name source
  looked : WrittenDefault written e entry value default
  sound : ∀ source, DefaultsToMember written e source value default →
    LooksUp e source entry.2 value
  complete : IsInlineEnum entry.2 → ∀ source, LooksUp e source entry.2 value →
    DefaultsToMember written e source value default

/-- A field stands for a property, and so does its default if its type is an enumeration of the
schema. -/
structure DefaultFor (schema : Schema) (g : Glossary) (stated : Api.Schema → Prop)
    (entry : String × Api.Schema) (field : Field) : Prop where
  name : field.name = Naming.fieldName entry.1
  looked : ∀ home ∈ schema.files, ∀ e ∈ home.definitions.enums, ∀ written,
    field.default ≠ none → field.type = .named written (some e.fqn) →
    ∃ value, entry.2.default = some value ∧
      EnumDefault g stated home.path e written entry value field.default

/-- The default of a field is the member that the enumeration of its type has for the value that the
property states. -/
def DefaultsAsStated (g : Glossary) (stated : Api.Schema → Prop) (home : String) (e : Enumeration)
    (written : String) (field : Field) : Prop :=
  ∃ object entry value source, g.ObjectOf stated object ∧ entry ∈ object.properties ∧
    field.name = Naming.fieldName entry.1 ∧ entry.2.default = some value ∧
    g.Holds stated source ∧ e = enumeration home e.name source ∧
    DefaultsToMember written e source value field.default

theorem Finished.defaultFor (h : Finished plan stated service answers w schema)
    {required : List String} {entry : String × Api.Schema}
    (hfield : FieldOf plan w file required entry field) :
    DefaultFor schema plan.glossary stated entry field where
  name := by rw [hfield.shape]
  looked home hhome e he written hsome htype := by
    obtain ⟨default, hdefault⟩ := Option.ne_none_iff_exists'.mp hsome
    obtain ⟨source, hsource, hlisted⟩ := h.listed hhome he
    have hfqn : e.fqn = fqnOf home.path e.name :=
      (h.fqn_eq hhome (Definitions.enumeration_mem_types he)).1
    rw [hfqn] at htype
    obtain ⟨value, hvalue, hwritten⟩ := hfield.writtenDefault h.coherent h.reserved htype
      ((h.files home hhome).enums.mem_iff.mp he) hdefault
    have hnames : ∀ m ∈ e.members, '"' ∉ m.name.toList := by
      rw [hlisted]
      exact quote_not_mem_membersFrom
    rw [hdefault]
    exact ⟨value, hvalue, ⟨source, hsource, hlisted⟩, hwritten,
      fun _ => hwritten.of_defaultsToMember hnames,
      fun hinline _ => hwritten.defaultsToMember hinline⟩

/-- The fields of a struct stand for the properties of its object, one for each. -/
theorem Finished.defaultsFor (h : Finished plan stated service answers w schema) {name : String}
    {object : Api.Schema} (hformed : Formed plan w file name object m) :
    List.Forall₂ (DefaultFor schema plan.glossary stated) object.properties m.fields := by
  obtain ⟨fields, hfields, rfl⟩ := hformed
  exact forall₂_renumber (fun _ _ _ hfield => ⟨hfield.name, hfield.looked⟩)
    (hfields.imp fun _ _ hfield => h.defaultFor hfield)

/-! ## Flat documents -/

/-- Nothing is nested in the schema but properties, its values have no names, and the default is the
given text where there is one. -/
def IsFlat (text : String) (s : Api.Schema) : Bool :=
  s.items.isNone && s.parts.isEmpty && s.valueSchema?.isNone && s.choiceNames.isEmpty &&
    match s.default with
    | none => true
    | some (.text default) => default == text
    | some _ => false

/-- The named schemas and their properties are flat, and the properties have none of their own. -/
def FlatSchemas (text : String) (schemas : Table Api.Schema) : Bool :=
  schemas.all fun entry => IsFlat text entry.2 &&
    entry.2.properties.all fun inner => IsFlat text inner.2 && inner.2.properties.isEmpty

theorem IsFlat.choiceNames_eq {text : String} {s : Api.Schema} (h : IsFlat text s = true) :
    s.choiceNames = [] := by
  simp only [IsFlat, Bool.and_eq_true, List.isEmpty_iff] at h
  exact h.1.2

theorem IsFlat.default_eq {text : String} {s : Api.Schema} {value : Yaml.Value}
    (h : IsFlat text s = true) (hdefault : s.default = some value) : value = .text text := by
  simp only [IsFlat, Bool.and_eq_true, hdefault] at h
  cases value with
  | text default => exact congrArg _ (beq_iff_eq.mp h.2)
  | _ => cases h.2

theorem isFlat_of_held {text : String} {schemas : Table Api.Schema} {stated : Api.Schema → Prop}
    {s : Api.Schema} (hflat : FlatSchemas text schemas = true) (hstated : ∀ s, ¬ stated s)
    (h : Api.Held schemas stated s) :
    IsFlat text s = true ∧
      s.properties.all (fun inner => IsFlat text inner.2 && inner.2.properties.isEmpty) = true := by
  induction h with
  | stated h => exact absurd h (hstated _)
  | named h => simpa using List.all_eq_true.mp hflat _ h
  | property _ hentry ih =>
    have hinner := List.all_eq_true.mp ih.2 _ hentry
    simp only [Bool.and_eq_true, List.isEmpty_iff] at hinner
    exact ⟨hinner.1, by rw [hinner.2]; rfl⟩
  | items _ hitems ih => simp [IsFlat, hitems] at ih
  | part _ hpart ih =>
    obtain ⟨hparts, -⟩ := ih
    simp only [IsFlat, Bool.and_eq_true, List.isEmpty_iff] at hparts
    rw [hparts.1.1.1.2] at hpart
    exact absurd hpart List.not_mem_nil
  | value _ hvalue ih => simp [IsFlat, hvalue] at ih

section Members

variable {text : String} {e : Enumeration} {source : Api.Schema} {member : EnumMember}

/-- Without given names the member that is built from a text is named for it. -/
theorem StandsFor.name_eq {file : String} (h : StandsFor e source (.text text) member)
    (he : e = enumeration file e.name source) (hnames : source.choiceNames = []) :
    member.name = Naming.memberName (e.name ++ "_" ++ text) := by
  obtain ⟨i, choice, hchoice, haccepts, hmember⟩ := h
  have htext : choice = .text text := by
    cases choice with
    | text s => simpa [Api.Choice.accepts] using haccepts
    | _ => cases haccepts
  have hlength : source.choiceNames.length ≠ source.choices.length := by
    intro heq
    rw [hnames, List.length_nil] at heq
    rw [List.length_eq_zero_iff.mp heq.symm] at hchoice
    cases hchoice
  rw [he, enumeration, if_neg hlength] at hmember
  simp only at hmember
  rw [getElem?_membersFrom, hchoice, Option.map_some, htext] at hmember
  rw [← Option.some.inj hmember]
  rfl

end Members

/-- In a flat document a default that is as stated is named for the one text. -/
theorem DefaultsAsStated.default_eq {document : Api.Document} {policy : ReferencePolicy}
    {text home written : String} {e : Enumeration} (hpaths : document.paths = [])
    (hflat : FlatSchemas text document.schemas = true)
    (h : DefaultsAsStated ⟨document.schemas, policy⟩ (Api.StatedIn document.paths) home e written
      field) : field.default =
        some (.text (written ++ "." ++ Naming.memberName (e.name ++ "_" ++ text))) := by
  obtain ⟨object, entry, value, source, hobject, hentry, -, hvalue, hsource, hlisted, member,
    hbuilt, hdefault⟩ := h
  have hstated : ∀ s, ¬ Api.StatedIn document.paths s := by
    rintro s ⟨path, hpath, -⟩
    rw [hpaths] at hpath
    exact absurd hpath List.not_mem_nil
  have hflatSource := (isFlat_of_held hflat hstated hsource).1
  have hflatEntry := (isFlat_of_held hflat hstated (hobject.property hentry)).1
  obtain rfl := IsFlat.default_eq hflatEntry hvalue
  rw [hdefault, hbuilt.name_eq hlisted (IsFlat.choiceNames_eq hflatSource)]

end Convert

/-- A message has no defaults, or its fields stand for the properties of an object. A default whose
type is an enumeration of the schema is the member that stands in the enumeration where the value
stands in the property's own list, if there is one, and else the value itself. So where the property
lists its values in place it is the member that is built from the value exactly when both lists
agree on that; elsewhere it is only when they do. -/
theorem convertDocument_enum_default_iff {file : String} {bytes : List UInt8} {options : Options}
    {schema : Schema} (h : convertDocument file bytes options = .ok schema) :
    ∃ document, readDocument file bytes = .ok document ∧
      ∀ f ∈ schema.files, ∀ m ∈ f.definitions.messages,
        (∀ field ∈ m.fields, field.default = none) ∨
        ∃ object, Convert.Glossary.ObjectOf ⟨document.schemas, options.policy⟩
          (Api.StatedIn document.paths) object ∧
          List.Forall₂ (Convert.DefaultFor schema ⟨document.schemas, options.policy⟩
            (Api.StatedIn document.paths)) object.properties m.fields := by
  obtain ⟨document, plan, answers, w, hread, -, hglossary, -, hfinished⟩ :=
    Convert.convertDocument_finished h
  refine ⟨document, hread, fun f hf m hm => ?_⟩
  rw [← hglossary]
  cases hfinished.made hf hm with
  | request _ hdefaults _ => exact .inl hdefaults
  | struct hobject hformed => exact .inr ⟨_, hobject, hfinished.defaultsFor hformed⟩

/-- Two properties come to one enumeration, which has the values in the order of the first. -/
def foldedDocument : List UInt8 :=
  ("swagger: \"2.0\"\npaths: {}\ndefinitions:\n  Pet:\n    properties:\n" ++
    "      _kind:\n        enum: [cat, dog]\n" ++
    "      kind:\n        enum: [dog, cat]\n        default: dog\n").toUTF8.data.toList

theorem foldedDocument_kind :
    ∃ schema, convertDocument "pets.yaml" foldedDocument {} = .ok schema ∧
      (schema.files.flatMap fun f => f.definitions.enums.map fun e => (e.name, e.fqn),
        schema.files.flatMap fun f => f.definitions.messages.flatMap fun m =>
          m.fields.map fun field => (field.type, field.default.map Literal.emit)) =
        ([("PetKind", "pets/pets.thrift#PetKind")],
          [(.named "PetKind" (some "pets/pets.thrift#PetKind"), none),
            (.named "PetKind" (some "pets/pets.thrift#PetKind"), some "PetKind.PetKind_cat")]) := by
  refine exists_of_toOption ?_
  decide +kernel

theorem foldedDocument_enum_default_iff :
    ∃ schema, convertDocument "pets.yaml" foldedDocument {} = .ok schema ∧
      ∃ document, readDocument "pets.yaml" foldedDocument = .ok document ∧
        ∀ f ∈ schema.files, ∀ m ∈ f.definitions.messages,
          (∀ field ∈ m.fields, field.default = none) ∨
          ∃ object, Convert.Glossary.ObjectOf ⟨document.schemas, .lenient⟩
            (Api.StatedIn document.paths) object ∧
            List.Forall₂ (Convert.DefaultFor schema ⟨document.schemas, .lenient⟩
              (Api.StatedIn document.paths)) object.properties m.fields := by
  obtain ⟨schema, h, -⟩ := foldedDocument_kind
  exact ⟨schema, h, convertDocument_enum_default_iff h⟩

theorem foldedDocument_flat :
    ∃ document, readDocument "pets.yaml" foldedDocument = .ok document ∧
      (document.paths.isEmpty && Convert.FlatSchemas "dog" document.schemas) = true := by
  refine exists_of_toOption ?_
  decide +kernel

/-- The default names the member that was built from the other value. -/
theorem foldedDocument_not_defaultsAsStated :
    ∃ schema, convertDocument "pets.yaml" foldedDocument {} = .ok schema ∧
      ∃ document, readDocument "pets.yaml" foldedDocument = .ok document ∧
        ∃ f ∈ schema.files, ∃ m ∈ f.definitions.messages, ∃ field ∈ m.fields,
          ∃ home ∈ schema.files, ∃ e ∈ home.definitions.enums, ∃ written,
            field.default ≠ none ∧ field.type = .named written (some e.fqn) ∧
            ¬ Convert.DefaultsAsStated ⟨document.schemas, .lenient⟩ (Api.StatedIn document.paths)
              home.path e written field := by
  obtain ⟨schema, h, hkind⟩ := foldedDocument_kind
  obtain ⟨document, hread, hflat⟩ := foldedDocument_flat
  obtain ⟨henums, hfields⟩ := Prod.mk.inj hkind
  obtain ⟨home, hhome, hmem⟩ := List.mem_flatMap.mp (henums ▸ List.mem_singleton_self _)
  obtain ⟨e, he, heq⟩ := List.mem_map.mp hmem
  obtain ⟨hname, hfqn⟩ := Prod.mk.inj heq
  have hcat : (TypeRef.named "PetKind" (some "pets/pets.thrift#PetKind"),
      some "PetKind.PetKind_cat") ∈ schema.files.flatMap fun f =>
        f.definitions.messages.flatMap fun m =>
          m.fields.map fun field => (field.type, field.default.map Literal.emit) := by
    rw [hfields]
    simp
  obtain ⟨f, hf, hmem⟩ := List.mem_flatMap.mp hcat
  obtain ⟨m, hm, hmem⟩ := List.mem_flatMap.mp hmem
  obtain ⟨field, hfield, heq⟩ := List.mem_map.mp hmem
  obtain ⟨htype, hdefault⟩ := Prod.mk.inj heq
  refine ⟨schema, h, document, hread, f, hf, m, hm, field, hfield, home, hhome, e, he, "PetKind",
    ?_, by rw [htype, hfqn], ?_⟩
  · rintro hnone
    rw [hnone] at hdefault
    cases hdefault
  · intro hstated
    obtain ⟨hpaths, hschemas⟩ := Bool.and_eq_true_iff.mp hflat
    rw [hstated.default_eq (List.isEmpty_iff.mp hpaths) hschemas, Option.map_some, Literal.emit,
      hname] at hdefault
    revert hdefault
    decide +kernel

end RestThrift
