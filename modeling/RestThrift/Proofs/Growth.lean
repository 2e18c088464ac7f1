import Mathlib
import RestThrift.Convert.Synthesis
import RestThrift.Proofs.Naming
import RestThrift.Proofs.Reentry

/-!
# How a workspace grows

Each change of a workspace adds at the end of one list. A workspace is below another when that one
arose from it by such additions. One step of synthesis claims a free name and defines it at once,
either an enumeration or a struct; a step says all that it can do, so that what holds of a finished
conversion follows from its steps.
-/
namespace RestThrift.Convert

namespace Workspace

variable {w : Workspace} {file f base b name : String}

/-! ## What each change shows -/

@[simp] theorem definitions_claim : (w.claim file base).2.definitions f = w.definitions f := rfl

@[simp] theorem inlineEnum?_claim :
    (w.claim file base).2.inlineEnum? f b = w.inlineEnum? f b := rfl

theorem namesIn_claim : (w.claim file base).2.namesIn f =
    if file = f then w.namesIn f ++ [freeName (w.namesIn file) base] else w.namesIn f := by
  simp only [claim, namesIn]
  exact Table.getD_update

theorem definitions_modify {change : Definitions → Definitions} :
    (w.modify file change).definitions f =
      if file = f then change (w.definitions f) else w.definitions f := by
  simp only [modify, definitions]
  exact Table.getD_update

@[simp] theorem namesIn_modify {change : Definitions → Definitions} :
    (w.modify file change).namesIn f = w.namesIn f := rfl

@[simp] theorem inlineEnum?_modify {change : Definitions → Definitions} :
    (w.modify file change).inlineEnum? f b = w.inlineEnum? f b := rfl

@[simp] theorem definitions_rememberEnum :
    (w.rememberEnum file base name).definitions f = w.definitions f := rfl

@[simp] theorem namesIn_rememberEnum :
    (w.rememberEnum file base name).namesIn f = w.namesIn f := rfl

theorem inlineEnum?_rememberEnum : (w.rememberEnum file base name).inlineEnum? f b =
    if file = f ∧ base = b then some name else w.inlineEnum? f b := by
  simp only [inlineEnum?, rememberEnum, List.lookup_cons]
  by_cases h : file = f ∧ base = b
  · obtain ⟨rfl, rfl⟩ := h
    simp
  · have hne : ((f, b) == (file, base)) = false := by
      simp only [beq_eq_false_iff_ne, ne_eq, Prod.mk.injEq]
      tauto
    rw [hne, if_neg h]

/-! ## Growth -/

/-- Definitions and names are added behind those that are there. -/
structure Extends (w w' : Workspace) : Prop where
  messages : ∀ file, (w.definitions file).messages <+: (w'.definitions file).messages
  enums : ∀ file, (w.definitions file).enums <+: (w'.definitions file).enums
  typedefs : ∀ file, (w.definitions file).typedefs <+: (w'.definitions file).typedefs
  names : ∀ file, w.namesIn file <+: w'.namesIn file

instance : Preorder Workspace where
  le := Extends
  le_refl _ := ⟨fun _ => List.prefix_rfl, fun _ => List.prefix_rfl, fun _ => List.prefix_rfl,
    fun _ => List.prefix_rfl⟩
  le_trans _ _ _ h k := ⟨fun file => (h.messages file).trans (k.messages file),
    fun file => (h.enums file).trans (k.enums file),
    fun file => (h.typedefs file).trans (k.typedefs file),
    fun file => (h.names file).trans (k.names file)⟩

theorem le_claim (w : Workspace) (file base : String) : w ≤ (w.claim file base).2 where
  messages _ := List.prefix_rfl
  enums _ := List.prefix_rfl
  typedefs _ := List.prefix_rfl
  names f := by
    rw [namesIn_claim]
    split
    · exact List.prefix_append _ _
    · exact List.prefix_rfl

theorem le_rememberEnum (w : Workspace) (file base name : String) :
    w ≤ w.rememberEnum file base name :=
  ⟨fun _ => List.prefix_rfl, fun _ => List.prefix_rfl, fun _ => List.prefix_rfl,
    fun _ => List.prefix_rfl⟩

/-- A change of one file's definitions that only adds. -/
theorem le_modify (w : Workspace) (file : String) {change : Definitions → Definitions}
    (hm : ∀ d, d.messages <+: (change d).messages) (he : ∀ d, d.enums <+: (change d).enums)
    (ht : ∀ d, d.typedefs <+: (change d).typedefs) : w ≤ w.modify file change := by
  refine ⟨fun f => ?_, fun f => ?_, fun f => ?_, fun f => List.prefix_rfl⟩ <;>
    rw [definitions_modify] <;> split
  · exact hm _
  · exact List.prefix_rfl
  · exact he _
  · exact List.prefix_rfl
  · exact ht _
  · exact List.prefix_rfl

theorem le_addMessage (w : Workspace) (file : String) (m : Message) : w ≤ w.addMessage file m :=
  w.le_modify file (fun _ => List.prefix_append _ _) (fun _ => List.prefix_rfl)
    fun _ => List.prefix_rfl

theorem le_addEnum (w : Workspace) (file : String) (e : Enumeration) : w ≤ w.addEnum file e :=
  w.le_modify file (fun _ => List.prefix_rfl) (fun _ => List.prefix_append _ _)
    fun _ => List.prefix_rfl

theorem le_addTypedef (w : Workspace) (file : String) (t : Typedef) : w ≤ w.addTypedef file t :=
  w.le_modify file (fun _ => List.prefix_rfl) (fun _ => List.prefix_rfl)
    fun _ => List.prefix_append _ _

theorem definitions_addMessage {m : Message} : (w.addMessage file m).definitions f =
    if file = f then { w.definitions f with messages := (w.definitions f).messages ++ [m] }
    else w.definitions f :=
  definitions_modify

theorem definitions_addEnum {e : Enumeration} : (w.addEnum file e).definitions f =
    if file = f then { w.definitions f with enums := (w.definitions f).enums ++ [e] }
    else w.definitions f :=
  definitions_modify

theorem definitions_addTypedef {t : Typedef} : (w.addTypedef file t).definitions f =
    if file = f then { w.definitions f with typedefs := (w.definitions f).typedefs ++ [t] }
    else w.definitions f :=
  definitions_modify

/-- The enumerations that inline schemas may share are defined. -/
def Remembers (w : Workspace) : Prop :=
  ∀ file base name, w.inlineEnum? file base = some name →
    ∃ e ∈ (w.definitions file).enums, e.name = name

end Workspace

/-! ## Types -/

/-- The types that synthesis makes in a file. -/
inductive Typed (plan : Plan) (w : Workspace) (file : String) : TypeRef → Prop
  | primitive {p : Primitive} (hvoid : p ≠ .void) : Typed plan w file (.primitive p)
  | list {element : TypeRef} (h : Typed plan w file element) : Typed plan w file (.list element)
  | map {value : TypeRef} (h : Typed plan w file value) : Typed plan w file (.map .string value)
  | dangling {key : String} (hpolicy : plan.glossary.policy = .lenient)
      (hmissing : plan.glossary.schemas.get? key = none) :
      Typed plan w file (Plan.danglingType key)
  | reference {key : String} {schema : Api.Schema}
      (h : plan.glossary.schemas.get? key = some schema)
      (hrecurs : schema.isAlias = true → plan.glossary.Recurs key) :
      Typed plan w file (plan.typeFor key file)
  | enumeration {e : Enumeration} (h : e ∈ (w.definitions file).enums) :
      Typed plan w file (localType file e.name)
  | message {m : Message} (h : m ∈ (w.definitions file).messages) :
      Typed plan w file (localType file m.name)

variable {plan : Plan} {stated : Api.Schema → Prop} {w w' : Workspace} {file : String}

theorem Typed.mono {t : TypeRef} (h : Typed plan w file t) (hle : w ≤ w') :
    Typed plan w' file t := by
  induction h with
  | primitive hvoid => exact .primitive hvoid
  | list _ ih => exact .list ih
  | map _ ih => exact .map ih
  | dangling hpolicy hmissing => exact .dangling hpolicy hmissing
  | reference h hrecurs => exact .reference h hrecurs
  | enumeration h => exact .enumeration ((hle.enums file).subset h)
  | message h => exact .message ((hle.messages file).subset h)

theorem Typed.string : Typed plan w file .string := .primitive (by decide)

theorem Typed.isVoid_eq_false {t : TypeRef} (h : Typed plan w file t) : t.isVoid = false := by
  cases h with
  | primitive hvoid =>
    rename_i p
    cases p with
    | void => exact absurd rfl hvoid
    | _ => rfl
  | _ => rfl

/-- A schema that describes its values by itself, by a kind or as an object. -/
structure Describes (s : Api.Schema) : Prop where
  reference : s.reference = none
  parts : s.parts = []
  choices : s.choices = []

/-- The types that a schema denotes in a file. A reference to an alias denotes what the alias
denotes, and the alias itself only where this comes back to itself. -/
inductive Plan.Denotes (plan : Plan) (file : String) : Api.Schema → TypeRef → Prop
  | dangling {s : Api.Schema} {reference : String} (hreference : s.reference = some reference)
      (htarget : plan.glossary.resolve? reference = none) :
      Denotes plan file s (Plan.danglingType (definitionKey reference))
  | named {s target : Api.Schema} {reference : String} (hreference : s.reference = some reference)
      (htarget : plan.glossary.resolve? reference = some target) (halias : target.isAlias = false) :
      Denotes plan file s (plan.typeFor (definitionKey reference) file)
  | replaced {s target : Api.Schema} {reference : String} {type : TypeRef}
      (hreference : s.reference = some reference)
      (htarget : plan.glossary.resolve? reference = some target) (halias : target.isAlias = true)
      (h : Denotes plan file target type) : Denotes plan file s type
  | again {s target : Api.Schema} {reference : String} (hreference : s.reference = some reference)
      (htarget : plan.glossary.resolve? reference = some target) (halias : target.isAlias = true)
      (hrecurs : plan.glossary.Recurs (definitionKey reference)) :
      Denotes plan file s (plan.typeFor (definitionKey reference) file)
  | sole {s part : Api.Schema} {type : TypeRef} (hreference : s.reference = none)
      (hsole : s.soleReference? = some part) (h : Denotes plan file part type) :
      Denotes plan file s type
  | composed {s : Api.Schema} {name : String} (hreference : s.reference = none)
      (hparts : s.parts ≠ []) (hsole : s.soleReference? = none) :
      Denotes plan file s (localType file name)
  | listed {s : Api.Schema} {name : String} (hreference : s.reference = none)
      (hparts : s.parts = []) (hchoices : s.choices ≠ []) : Denotes plan file s (localType file name)
  | list {s items : Api.Schema} {element : TypeRef} (hs : Describes s)
      (hkind : s.kind? = some .array) (hitems : s.items = some items)
      (h : Denotes plan file items element) : Denotes plan file s (.list element)
  | texts {s : Api.Schema} (hs : Describes s) (hkind : s.kind? = some .array)
      (hitems : s.items = none) : Denotes plan file s (.list .string)
  | object {s : Api.Schema} {name : String} (hs : Describes s) (hobject : s.isObjectLike = true)
      (hproperties : s.properties ≠ []) : Denotes plan file s (localType file name)
  | map {s value : Api.Schema} {type : TypeRef} (hs : Describes s) (hobject : s.isObjectLike = true)
      (hproperties : s.properties = []) (hvalue : s.valueSchema? = some value)
      (hconstrained : value.isUnconstrained = false) (h : Denotes plan file value type) :
      Denotes plan file s (.map .string type)
  | anything {s : Api.Schema} (hs : Describes s) (hobject : s.isObjectLike = true)
      (hproperties : s.properties = [])
      (hvalue : ∀ value, s.valueSchema? = some value → value.isUnconstrained = true) :
      Denotes plan file s (.map .string .string)
  | scalar {s : Api.Schema} {kind : Api.Kind} (hs : Describes s) (hkind : s.kind? = some kind)
      (hscalar : kind ≠ .array ∧ kind ≠ .object) :
      Denotes plan file s (scalarType kind s.format)

/-- A reference to a schema that is no alias has the type of that schema's definition. -/
theorem Plan.Denotes.eq_typeFor {s target : Api.Schema} {reference : String} {type : TypeRef}
    (h : plan.Denotes file s type) (hreference : s.reference = some reference)
    (htarget : plan.glossary.resolve? reference = some target) (halias : target.isAlias = false) :
    type = plan.typeFor (definitionKey reference) file := by
  have hrefers : s.reference ≠ none := by simp [hreference]
  have hsame : ∀ {other found}, s.reference = some other →
      plan.glossary.resolve? other = found → reference = other ∧ found = some target := by
    intro other found hother hfound
    obtain rfl := Option.some.inj (hreference.symm.trans hother)
    exact ⟨rfl, hfound.symm.trans htarget⟩
  cases h with
  | named hother hfound _ =>
    obtain ⟨rfl, -⟩ := hsame hother hfound
    rfl
  | dangling hother hfound => cases (hsame hother hfound).2
  | replaced hother hfound hreplaced _ | again hother hfound hreplaced _ =>
    obtain ⟨-, heq⟩ := hsame hother hfound
    obtain rfl := Option.some.inj heq
    exact absurd hreplaced (by simp [halias])
  | sole hnone _ _ | composed hnone _ _ | listed hnone _ _ => exact absurd hnone hrefers
  | list hs _ _ _ | texts hs _ _ | object hs _ _ | map hs _ _ _ _ _ | anything hs _ _ _
  | scalar hs _ _ => exact absurd hs.reference hrefers

/-- The type of an inline enumeration is an enumeration that is there already. -/
def Enumerates (w : Workspace) (file : String) (schema : Api.Schema) (type : TypeRef) : Prop :=
  schema.reference = none → schema.parts = [] → schema.choices ≠ [] →
    ∃ e ∈ (w.definitions file).enums, type = localType file e.name

/-! ## Structs -/

/-- The field of a property before fields are numbered. Its default was made when the field's type
was known and later properties were not yet looked at. -/
structure FieldOf (plan : Plan) (w : Workspace) (file : String) (required : List String)
    (entry : String × Api.Schema) (field : Field) : Prop where
  shape : field = { name := Naming.fieldName entry.1, type := field.type
                    requiredness := .ofRequired (required.contains entry.1)
                    default := field.default, comments := describe entry.2.description }
  typed : Typed plan w file field.type
  denotes : plan.Denotes file entry.2 field.type
  default : ∃ w₀ ≤ w, Enumerates w₀ file entry.2 field.type ∧
    propertyDefault w₀ file entry.1 entry.2 field.type = .ok field.default

theorem FieldOf.mono {required : List String} {entry : String × Api.Schema} {field : Field}
    (h : FieldOf plan w file required entry field) (hle : w ≤ w') :
    FieldOf plan w' file required entry field := by
  obtain ⟨w₀, hw₀, hdefault⟩ := h.default
  exact ⟨h.shape, h.typed.mono hle, h.denotes, w₀, hw₀.trans hle, hdefault⟩

/-- The struct of an object schema under a name. -/
def Formed (plan : Plan) (w : Workspace) (file name : String) (object : Api.Schema)
    (message : Message) : Prop :=
  ∃ fields, List.Forall₂ (FieldOf plan w file object.required) object.properties fields ∧
    message = { name, fqn := fqnOf file name, fields := renumber fields
                comments := describe object.description }

theorem Formed.mono {name : String} {object : Api.Schema} {message : Message}
    (h : Formed plan w file name object message) (hle : w ≤ w') :
    Formed plan w' file name object message := by
  obtain ⟨fields, hfields, hmessage⟩ := h
  exact ⟨fields, hfields.imp fun _ _ hf => hf.mono hle, hmessage⟩

/-! ## Names that are asked for -/

/-- The name that a place asks for. -/
def Place.base (place : Place) : String := Naming.nestedName place.parent place.field

/-- The file of a named schema's definition. -/
def Plan.fileOf (p : Plan) (key : String) : String :=
  spaceFile p.stem (Naming.splitDefinition key).1

/-- The name that a key asks for. -/
def wantedName (key : String) : String := Naming.identifier (Naming.splitDefinition key).2

/-- The name of the field that is thrown for a code. -/
def failureName (code : String) : String := Naming.fieldName ("error" ++ code)

mutual

/-- The names that are asked for in a file, before any number: one for each key, those for the
requests of operations, and those for places under a parent. -/
inductive Plan.Asks (p : Plan) : String → String → Prop
  | key {key : String} (hkey : key ∈ p.glossary.schemas.keys) :
      p.Asks (p.fileOf key) (wantedName key)
  | request (method : Api.Method) (path : String) : p.Asks p.mainFile
      (Naming.definitionName (Naming.functionName method path ++ "Request"))
  | place {file parent : String} (h : p.Heads file parent) (field : String) :
      p.Asks file (Naming.nestedName parent field)

/-- The parents of places in a file: definitions, functions and the fields that are thrown. -/
inductive Plan.Heads (p : Plan) : String → String → Prop
  | definition {file base : String} (h : p.Asks file base) (n : Nat) :
      p.Heads file (numbered base n)
  | function {file : String} (method : Api.Method) (path : String) :
      p.Heads file (Naming.functionName method path)
  | failure {file : String} (code : String) : p.Heads file (failureName code)

end

/-- Definitions are synthesized under the parent in the file. -/
structure Plan.Hosts (p : Plan) (file parent : String) : Prop where
  home : p.IsHome file
  heads : p.Heads file parent

section Hosts

variable {p : Plan} {place : Place}

theorem Plan.Hosts.asks (h : p.Hosts place.file place.parent) : p.Asks place.file place.base :=
  .place h.heads place.field

/-- What is synthesized for a place is a parent of places itself. -/
theorem Plan.Hosts.base (h : p.Hosts place.file place.parent) : p.Hosts place.file place.base :=
  ⟨h.home, .definition h.asks 0⟩

end Hosts

/-! ## Steps -/

namespace Workspace

/-- Claim a name for a place and define the enumeration of a schema under it. -/
def newEnum (w : Workspace) (place : Place) (schema : Api.Schema) : Workspace :=
  let name := (w.claim place.file place.base).1
  ((w.claim place.file place.base).2.rememberEnum place.file place.base name).addEnum place.file
    (enumeration place.file name schema)

/-- Claim a name for a place and define a struct under it. -/
def newStruct (w : Workspace) (place : Place) (message : Message) : Workspace :=
  let name := (w.claim place.file place.base).1
  (w.claim place.file place.base).2.addMessage place.file
    { message with name, fqn := fqnOf place.file name }

theorem inlineEnum?_newEnum {place : Place} {schema : Api.Schema} {f b : String} :
    (w.newEnum place schema).inlineEnum? f b =
      if place.file = f ∧ place.base = b then some (w.claim place.file place.base).1
      else w.inlineEnum? f b := by
  rw [newEnum, addEnum, inlineEnum?_modify, inlineEnum?_rememberEnum, inlineEnum?_claim]

theorem definitions_newEnum {place : Place} {schema : Api.Schema} {f : String} :
    (w.newEnum place schema).definitions f =
      if place.file = f then
        { w.definitions f with
          enums := (w.definitions f).enums ++
            [enumeration place.file (w.claim place.file place.base).1 schema] }
      else w.definitions f := by
  rw [newEnum, definitions_addEnum, definitions_rememberEnum, definitions_claim]

theorem mem_newEnum (w : Workspace) (place : Place) (schema : Api.Schema) :
    enumeration place.file (w.claim place.file place.base).1 schema ∈
      ((w.newEnum place schema).definitions place.file).enums := by
  simp [definitions_newEnum]

/-- One definition is synthesized, for a schema that the document holds. -/
inductive Step (plan : Plan) (stated : Api.Schema → Prop) (w : Workspace) : Workspace → Prop
  | enumeration (place : Place) (schema : Api.Schema) (hhost : plan.Hosts place.file place.parent)
      (hheld : plan.glossary.Holds stated schema)
      (hnew : w.inlineEnum? place.file place.base = none) :
      Step plan stated w (w.newEnum place schema)
  | struct (place : Place) (object : Api.Schema) (message : Message)
      (hhost : plan.Hosts place.file place.parent)
      (hobject : plan.glossary.ObjectOf stated object)
      (hformed : Formed plan w place.file place.base object message)
      (hnew : w.matching? place.file place.base message = none) :
      Step plan stated w (w.newStruct place message)

/-- Any number of definitions is synthesized. -/
def Grows (plan : Plan) (stated : Api.Schema → Prop) : Workspace → Workspace → Prop :=
  Relation.ReflTransGen (Step plan stated)

theorem le_newEnum (w : Workspace) (place : Place) (schema : Api.Schema) :
    w ≤ w.newEnum place schema :=
  calc w ≤ (w.claim place.file place.base).2 := le_claim _ _ _
    _ ≤ _ := le_rememberEnum _ _ _ _
    _ ≤ w.newEnum place schema := le_addEnum _ _ _

theorem le_newStruct (w : Workspace) (place : Place) (message : Message) :
    w ≤ w.newStruct place message :=
  (le_claim w _ _).trans (le_addMessage _ _ _)

theorem Step.le (h : Step plan stated w w') : w ≤ w' := by
  cases h with
  | enumeration place schema _ _ _ => exact le_newEnum w place schema
  | struct place _ message _ _ _ _ => exact le_newStruct w place message

theorem Grows.le (h : Grows plan stated w w') : w ≤ w' := by
  induction h with
  | refl => exact le_rfl
  | tail _ hstep ih => exact ih.trans hstep.le

theorem Grows.refl (w : Workspace) : Grows plan stated w w := Relation.ReflTransGen.refl

theorem Grows.trans {w'' : Workspace} (h : Grows plan stated w w') (k : Grows plan stated w' w'') :
    Grows plan stated w w'' := Relation.ReflTransGen.trans h k

/-- What every step keeps, growth keeps. -/
theorem Grows.keeps {P : Workspace → Prop} (hstep : ∀ {w w'}, Step plan stated w w' → P w → P w')
    (h : Grows plan stated w w') (hw : P w) : P w' := by
  induction h with
  | refl => exact hw
  | tail _ hs ih => exact hstep hs ih

theorem Remembers.step (h : Remembers w) (hstep : Step plan stated w w') : Remembers w' := by
  intro f b name hname
  cases hstep with
  | enumeration place schema hhost hheld hnew =>
    rw [inlineEnum?_newEnum] at hname
    split at hname
    · rename_i hplace
      obtain ⟨rfl, rfl⟩ := hplace
      obtain rfl := Option.some.inj hname
      exact ⟨_, mem_newEnum w place schema, rfl⟩
    · obtain ⟨e, he, hen⟩ := h f b name hname
      exact ⟨e, ((le_newEnum w place schema).enums f).subset he, hen⟩
  | struct place object message hhost hobject hformed hnew =>
    obtain ⟨e, he, hen⟩ := h f b name hname
    exact ⟨e, ((le_newStruct w place message).enums f).subset he, hen⟩

theorem Remembers.grows (h : Remembers w) (hg : Grows plan stated w w') : Remembers w' :=
  hg.keeps (fun hs hw => hw.step hs) h

end Workspace

end RestThrift.Convert
