import Mathlib
import RestThrift.Proofs.Branches

/-!
# What synthesis does

A successful run of `typeOf` moves the workspace by steps of synthesis and gives a type that these
steps account for. The statement is proved once for all kinds of schemas, by induction on the number
of steps that are left, with a case for each reason to choose a branch; the builders of fields and
structs are looked at with the recursive call as a parameter.
-/
namespace RestThrift.Convert

open Workspace

variable {plan : Plan} {stated : Api.Schema → Prop} {w w' : Workspace} {place : Place}
  {schema object : Api.Schema} {file parent property name : String} {required : List String}
  {type : TypeRef}

theorem claim_runs {base : String} :
    Runs (claim file base) w name w' ↔
      name = (w.claim file base).1 ∧ w' = (w.claim file base).2 := by
  simp only [claim, runs_bind, runs_get, runs_set, runs_pure]
  constructor
  · rintro ⟨_, _, ⟨rfl, rfl⟩, _, _, rfl, rfl, rfl⟩
    exact ⟨rfl, rfl⟩
  · rintro ⟨rfl, rfl⟩
    exact ⟨w, w, ⟨rfl, rfl⟩, ⟨⟩, _, rfl, rfl, rfl⟩

/-! ## Enumerations -/

/-- An enumeration that is remembered is shared, any other one is new. -/
theorem enumType_runs (h : Runs (enumType place schema) w type w') :
    (∃ name, w.inlineEnum? place.file place.base = some name ∧
        type = localType place.file name ∧ w' = w) ∨
      (w.inlineEnum? place.file place.base = none ∧
        type = localType place.file (w.claim place.file place.base).1 ∧
        w' = w.newEnum place schema) := by
  simp only [enumType, runs_bind, runs_get] at h
  obtain ⟨_, _, ⟨rfl, rfl⟩, h⟩ := h
  split at h
  · rename_i name hname
    obtain ⟨rfl, rfl⟩ := runs_pure.mp h
    exact .inl ⟨name, hname, rfl, rfl⟩
  · rename_i hname
    simp only [runs_bind, claim_runs, runs_modify, runs_pure] at h
    obtain ⟨_, _, ⟨rfl, rfl⟩, _, _, rfl, rfl, rfl⟩ := h
    exact .inr ⟨hname, rfl, rfl⟩

theorem enumType_local (h : Runs (enumType place schema) w type w') :
    ∃ name, type = localType place.file name := by
  rcases enumType_runs h with ⟨name, -, rfl, -⟩ | ⟨-, rfl, -⟩
  · exact ⟨name, rfl⟩
  · exact ⟨_, rfl⟩

theorem enumType_grows (h : Runs (enumType place schema) w type w')
    (hhost : plan.Hosts place.file place.parent) (hheld : plan.glossary.Holds stated schema) :
    Grows plan stated w w' := by
  rcases enumType_runs h with ⟨name, -, -, rfl⟩ | ⟨hnew, -, rfl⟩
  · exact .refl _
  · exact .single (.enumeration place schema hhost hheld hnew)

/-- The type is an enumeration that is defined, be it shared or new. -/
theorem enumType_enumerates (hw : w.Remembers) (h : Runs (enumType place schema) w type w') :
    ∃ e ∈ (w'.definitions place.file).enums, type = localType place.file e.name := by
  rcases enumType_runs h with ⟨name, hname, rfl, rfl⟩ | ⟨hnew, rfl, rfl⟩
  · obtain ⟨e, he, rfl⟩ := hw _ _ _ hname
    exact ⟨e, he, rfl⟩
  · exact ⟨_, mem_newEnum w place schema, rfl⟩

/-! ## Shared structs -/

theorem matchFrom_eq_some {defined : Definitions} {taken : List String} {base : String}
    {message : Message} {steps n : Nat}
    (h : matchFrom defined taken base message steps n = some name) :
    name ∈ taken ∧ ∃ m ∈ defined.messages, m.name = name ∧ m.sameShape { message with name } := by
  induction steps generalizing n with
  | zero => simp [matchFrom] at h
  | succ steps ih =>
    simp only [matchFrom] at h
    split at h
    · simp at h
    · rename_i htaken
      split at h
      · rename_i other hother
        split at h
        · rename_i hshape
          obtain rfl := Option.some.inj h
          have hname : other.name = numbered base n := by
            simpa using List.find?_some hother
          exact ⟨by simpa using htaken, other, List.mem_of_find?_eq_some hother, hname, hshape⟩
        · exact ih h
      · exact ih h

/-- A struct that is shared is defined and has the shape that is asked for. -/
theorem matching?_eq_some {base : String} {message : Message}
    (h : w.matching? file base message = some name) :
    ∃ m ∈ (w.definitions file).messages, m.name = name ∧ m.sameShape { message with name } :=
  (matchFrom_eq_some h).2

/-! ## Structs -/

/-- Runs of a function for types, while some aliases are being replaced, are accounted for by steps,
and a schema denotes its type. -/
structure Accounted (plan : Plan) (stated : Api.Schema → Prop) (inlining : List String)
    (typeOf : Place → Api.Schema → Build TypeRef) : Prop where
  grows : ∀ {place schema w type w'}, w.Remembers → Runs (typeOf place schema) w type w' →
    plan.Hosts place.file place.parent → plan.glossary.Holds stated schema →
    plan.glossary.ReachedFrom inlining schema →
    Grows plan stated w w' ∧ Typed plan w' place.file type
  denotes : ∀ {place schema w type w'}, Runs (typeOf place schema) w type w' →
    plan.glossary.ReachedFrom inlining schema → plan.Denotes place.file schema type
  enumerates : ∀ {place schema w type w'}, w.Remembers → Runs (typeOf place schema) w type w' →
    Enumerates w' place.file schema type

variable {typeOf : Place → Api.Schema → Build TypeRef} {field : Field} {inlining : List String}

theorem propertyField_runs :
    Runs (propertyField typeOf file parent required property schema) w field w' ↔
      ∃ type, Runs (typeOf { file, parent, field := property } schema) w type w' ∧
        field = { name := Naming.fieldName property, type
                  requiredness := .ofRequired (required.contains property)
                  comments := describe schema.description } := by
  simp only [propertyField, runs_bind, runs_pure]
  constructor
  · rintro ⟨type, _, htype, rfl, rfl⟩
    exact ⟨type, htype, rfl⟩
  · rintro ⟨type, htype, rfl⟩
    exact ⟨type, w', htype, rfl, rfl⟩

theorem structFields_grows (htypeOf : Accounted plan stated inlining typeOf) (hw : w.Remembers)
    {fields : List Field} (h : Runs (structFields typeOf file parent object) w fields w')
    (hhost : plan.Hosts file parent) (hobject : plan.glossary.ObjectOf stated object)
    (hreached : ∀ entry ∈ object.properties, plan.glossary.ReachedFrom inlining entry.2) :
    Grows plan stated w w' ∧ ∃ plain, fields = renumber plain ∧
      List.Forall₂ (FieldOf plan w' file object.required) object.properties plain := by
  simp only [structFields, runs_bind, runs_pure] at h
  obtain ⟨plain, _, hplain, rfl, rfl⟩ := h
  have hrun := runs_mapM (R := Grows plan stated) (I := Remembers)
    (P := fun w => FieldOf plan w file object.required) Grows.refl (fun h k => h.trans k)
    (fun hg hw => hw.grows hg) (fun hg hf => hf.mono hg.le) ?_ hw hplain
  · exact ⟨hrun.1, plain, rfl, hrun.2⟩
  rintro ⟨property, schema⟩ hentry w field w' hw h
  simp only [runs_bind, propertyField_runs, runs_get, runs_lift, runs_pure] at h
  obtain ⟨_, w₁, ⟨type, htype, rfl⟩, _, _, ⟨rfl, rfl⟩, default, _, ⟨hdefault, rfl⟩, rfl, rfl⟩ := h
  have hfrom := hreached _ hentry
  obtain ⟨hgrows, htyped⟩ := htypeOf.grows hw htype hhost (hobject.property hentry) hfrom
  exact ⟨hgrows, rfl, htyped, htypeOf.denotes htype hfrom, _, le_rfl, htypeOf.enumerates hw htype,
    hdefault⟩

theorem structMessage_grows (htypeOf : Accounted plan stated inlining typeOf) (hw : w.Remembers)
    {message : Message} (h : Runs (structMessage typeOf file name object) w message w')
    (hhost : plan.Hosts file name) (hobject : plan.glossary.ObjectOf stated object)
    (hreached : ∀ entry ∈ object.properties, plan.glossary.ReachedFrom inlining entry.2) :
    Grows plan stated w w' ∧ Formed plan w' file name object message := by
  simp only [structMessage, runs_bind, runs_pure] at h
  obtain ⟨fields, _, hfields, rfl, rfl⟩ := h
  obtain ⟨hgrows, plain, rfl, hplain⟩ :=
    structFields_grows htypeOf hw hfields hhost hobject hreached
  exact ⟨hgrows, plain, hplain, rfl⟩

/-- A struct of the shape of an earlier one is shared, any other one is new. -/
theorem structType_runs (h : Runs (structType typeOf place object) w type w') :
    ∃ message w₁, Runs (structMessage typeOf place.file place.base object) w message w₁ ∧
      ((∃ name, w₁.matching? place.file place.base message = some name ∧
          type = localType place.file name ∧ w' = w₁) ∨
        (w₁.matching? place.file place.base message = none ∧
          type = localType place.file (w₁.claim place.file place.base).1 ∧
          w' = w₁.newStruct place message)) := by
  simp only [structType, runs_bind, runs_get] at h
  obtain ⟨message, w₁, hmessage, _, _, ⟨rfl, rfl⟩, h⟩ := h
  refine ⟨message, _, hmessage, ?_⟩
  split at h
  · rename_i name hname
    obtain ⟨rfl, rfl⟩ := runs_pure.mp h
    exact .inl ⟨name, hname, rfl, rfl⟩
  · rename_i hname
    simp only [runs_bind, claim_runs, runs_modify, runs_pure] at h
    obtain ⟨_, _, ⟨rfl, rfl⟩, _, _, rfl, rfl, rfl⟩ := h
    exact .inr ⟨hname, rfl, rfl⟩

theorem structType_local (h : Runs (structType typeOf place object) w type w') :
    ∃ name, type = localType place.file name := by
  obtain ⟨_, _, -, ⟨name, -, rfl, -⟩ | ⟨-, rfl, -⟩⟩ := structType_runs h
  · exact ⟨name, rfl⟩
  · exact ⟨_, rfl⟩

theorem structType_grows (htypeOf : Accounted plan stated inlining typeOf) (hw : w.Remembers)
    (h : Runs (structType typeOf place object) w type w')
    (hhost : plan.Hosts place.file place.parent) (hobject : plan.glossary.ObjectOf stated object)
    (hreached : ∀ entry ∈ object.properties, plan.glossary.ReachedFrom inlining entry.2) :
    Grows plan stated w w' ∧ Typed plan w' place.file type := by
  obtain ⟨message, w₁, hmessage, hcases⟩ := structType_runs h
  obtain ⟨hgrows, hformed⟩ :=
    structMessage_grows htypeOf hw hmessage hhost.base hobject hreached
  rcases hcases with ⟨name, hname, rfl, rfl⟩ | ⟨hnew, rfl, rfl⟩
  · obtain ⟨m, hm, rfl, -⟩ := matching?_eq_some hname
    exact ⟨hgrows, .message hm⟩
  · refine ⟨hgrows.tail (.struct place object message hhost hobject hformed hnew), ?_⟩
    let name := (w₁.claim place.file place.base).1
    apply Typed.message (m := { message with name, fqn := fqnOf place.file name })
    simp [newStruct, definitions_addMessage, name]

/-! ## All schemas -/

theorem scalarType_typed {kind : Api.Kind} {format : Option String} :
    Typed plan w file (scalarType kind format) := by
  have hif : ∀ (c : Prop) [Decidable c] (p q : Primitive), p ≠ .void → q ≠ .void →
      Typed plan w file (.primitive (if c then p else q)) := by
    intro c _ p q hp hq
    split
    · exact .primitive hp
    · exact .primitive hq
  cases kind with
  | integer => exact hif _ _ _ (by decide) (by decide)
  | number => exact hif _ _ _ (by decide) (by decide)
  | boolean => exact .primitive (by decide)
  | string => exact .string
  | array => exact .string
  | object => exact .string
  | other => exact .string

/-- A schema with values of its own that neither refers nor is composed is an enumeration. -/
theorem typeWithin_enumerates {steps : Nat} (hw : w.Remembers)
    (h : Runs (typeWithin plan steps inlining place schema) w type w') :
    Enumerates w' place.file schema type := by
  intro hreference hparts hchoices
  cases steps with
  | zero => exact absurd h runs_throw
  | succ steps =>
    rw [typeWithin_succ, Branch.of_listed hreference hparts hchoices] at h
    exact enumType_enumerates hw h

/-- A type that is known at once is one that the schema denotes. -/
theorem Branch.Chosen.denotes (h : Branch.Chosen plan inlining file schema (.done type))
    (hreached : plan.glossary.ReachedFrom inlining schema) : plan.Denotes file schema type := by
  cases h with
  | dangling hreference htarget => exact .dangling hreference (target_eq_none htarget).2
  | @named _ target hreference htarget hstays =>
    cases halias : target.isAlias with
    | false => exact .named hreference htarget halias
    | true => exact .again hreference htarget halias (hreached.recurs hreference (hstays halias))
  | texts hs hkind hitems => exact .texts hs hkind hitems
  | anything hs hobject hproperties hnone =>
    refine .anything hs hobject hproperties fun value hvalue => ?_
    simpa [hvalue, Option.filter] using hnone
  | scalar hs hkind hscalar => exact .scalar hs hkind hscalar

theorem Branch.Chosen.typed (h : Branch.Chosen plan inlining file schema (.done type))
    (hreached : plan.glossary.ReachedFrom inlining schema) : Typed plan w file type := by
  cases h with
  | dangling _ htarget =>
    obtain ⟨hpolicy, hmissing⟩ := target_eq_none htarget
    exact .dangling hpolicy hmissing
  | named hreference htarget hstays =>
    exact .reference htarget fun halias => hreached.recurs hreference (hstays halias)
  | texts _ _ _ => exact .list .string
  | anything _ _ _ _ => exact .map .string
  | scalar _ _ _ => exact scalarType_typed

/-- The type of a schema is one that it denotes. -/
theorem typeWithin_denotes {steps : Nat}
    (h : Runs (typeWithin plan steps inlining place schema) w type w')
    (hreached : plan.glossary.ReachedFrom inlining schema) :
    plan.Denotes place.file schema type := by
  induction steps generalizing inlining place schema w type w' with
  | zero => exact absurd h runs_throw
  | succ steps ih =>
    obtain ⟨branch, hchosen, h⟩ := typeWithin_runs h
    cases branch with
    | failure cause => exact absurd h runs_throw
    | done type =>
      obtain ⟨rfl, rfl⟩ := runs_pure.mp h
      exact hchosen.denotes hreached
    | replaced key target =>
      cases hchosen with
      | replaced hreference htarget halias _ =>
        exact .replaced hreference htarget halias (ih h (hreached.cons hreference htarget halias))
    | sole part =>
      cases hchosen with
      | sole hreference _ hsole =>
        exact .sole hreference hsole (ih h (hreached.step (.part (soleReference?_mem hsole))))
    | struct object =>
      obtain ⟨name, rfl⟩ := structType_local h
      cases hchosen with
      | composed hreference hparts hsole _ => exact .composed hreference hparts hsole
      | object hs hobject hproperties => exact .object hs hobject hproperties
    | listed =>
      obtain ⟨name, rfl⟩ := enumType_local h
      cases hchosen with
      | listed hreference hparts hchoices => exact .listed hreference hparts hchoices
    | list items =>
      obtain ⟨element, rfl, helement⟩ := Branch.list_runs.mp h
      cases hchosen with
      | list hs hkind hitems =>
        have hdenotes := ih helement (hreached.step (.items hitems))
        exact .list hs hkind hitems hdenotes
    | map value =>
      obtain ⟨type, rfl, hrun⟩ := Branch.map_runs.mp h
      cases hchosen with
      | map hs hobject hproperties hvalue hconstrained =>
        have hdenotes := ih hrun (hreached.step (.value hvalue))
        exact .map hs hobject hproperties hvalue hconstrained hdenotes

/-- Synthesis moves the workspace by steps, which account for the type. -/
theorem typeWithin_grows {steps : Nat} (hw : w.Remembers)
    (h : Runs (typeWithin plan steps inlining place schema) w type w')
    (hhost : plan.Hosts place.file place.parent) (hheld : plan.glossary.Holds stated schema)
    (hreached : plan.glossary.ReachedFrom inlining schema) :
    Grows plan stated w w' ∧ Typed plan w' place.file type := by
  induction steps generalizing inlining place schema w type w' with
  | zero => exact absurd h runs_throw
  | succ steps ih =>
    have htypeOf : Accounted plan stated inlining (typeWithin plan steps inlining) :=
      ⟨ih, typeWithin_denotes, typeWithin_enumerates⟩
    obtain ⟨branch, hchosen, h⟩ := typeWithin_runs h
    cases branch with
    | failure cause => exact absurd h runs_throw
    | done type =>
      obtain ⟨rfl, rfl⟩ := runs_pure.mp h
      exact ⟨.refl _, hchosen.typed hreached⟩
    | replaced key target =>
      cases hchosen with
      | replaced hreference htarget halias _ =>
        exact ih hw h hhost (.named (Table.mem_of_get? htarget))
          (hreached.cons hreference htarget halias)
    | sole part =>
      cases hchosen with
      | sole _ _ hsole =>
        have hpart := soleReference?_mem hsole
        exact ih hw h hhost (.part hheld hpart) (hreached.step (.part hpart))
    | struct object =>
      cases hchosen with
      | composed hreference _ _ hobject =>
        exact structType_grows htypeOf hw h hhost (.composed hheld hobject)
          (hreached.composed hreference hobject)
      | object _ _ _ =>
        exact structType_grows htypeOf hw h hhost (.plain hheld) fun _ hentry =>
          hreached.step (.property hentry)
    | listed =>
      obtain ⟨e, he, rfl⟩ := enumType_enumerates hw h
      exact ⟨enumType_grows h hhost hheld, .enumeration he⟩
    | list items =>
      obtain ⟨element, rfl, helement⟩ := Branch.list_runs.mp h
      cases hchosen with
      | list _ _ hitems =>
        obtain ⟨hgrows, htyped⟩ :=
          ih hw helement hhost (.items hheld hitems) (hreached.step (.items hitems))
        exact ⟨hgrows, .list htyped⟩
    | map value =>
      obtain ⟨type, rfl, hrun⟩ := Branch.map_runs.mp h
      cases hchosen with
      | map _ _ _ hvalue _ =>
        obtain ⟨hgrows, htyped⟩ :=
          ih hw hrun hhost (.value hheld hvalue) (hreached.step (.value hvalue))
        exact ⟨hgrows, .map htyped⟩

theorem typeOf_grows (hw : w.Remembers) (h : Runs (Convert.typeOf plan place schema) w type w')
    (hhost : plan.Hosts place.file place.parent) (hheld : plan.glossary.Holds stated schema) :
    Grows plan stated w w' ∧ Typed plan w' place.file type :=
  typeWithin_grows hw h hhost hheld (plan.glossary.reachedFrom_nil schema)

theorem typeOf_accounted (plan : Plan) (stated : Api.Schema → Prop) :
    Accounted plan stated [] (Convert.typeOf plan) :=
  ⟨typeWithin_grows, typeWithin_denotes, typeWithin_enumerates⟩

end RestThrift.Convert
