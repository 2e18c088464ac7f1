import Mathlib
import RestThrift.Proofs.KeyOrder
import RestThrift.Proofs.Orderly
import RestThrift.Proofs.Shapes

/-!
# Synthesis made again

What is synthesized once is found again: names that are taken keep what stands under them, a struct
is looked for from its plain name on, and each number before its own is taken by another struct. So
synthesis that is made again gives the same type and adds nothing, at every depth. There is one
exception. The name that is kept of a missing reference is looked up as if it named an enumeration,
so that a default can change when one of this name comes up.
-/
namespace RestThrift.Convert

open Workspace Text

/-! ## Names in their order -/

section Names

variable {candidate : Nat → String} {taken : List String} {steps n : Nat} {base name : String}

/-- All candidates before the first one that is free are taken. -/
theorem firstFree_spec (candidate : Nat → String) (taken : List String) (steps n : Nat) :
    ∃ k, n ≤ k ∧ k ≤ n + steps ∧ firstFree candidate taken steps n = candidate k ∧
      ∀ j, n ≤ j → j < k → candidate j ∈ taken := by
  induction steps generalizing n with
  | zero => exact ⟨n, le_rfl, le_rfl, rfl, fun j hle hlt => absurd hle (Nat.not_le.mpr hlt)⟩
  | succ steps ih =>
    rw [firstFree]
    split
    · rename_i hn
      obtain ⟨k, hle, hge, heq, htaken⟩ := ih (n + 1)
      refine ⟨k, by omega, by omega, heq, fun j hj hlt => ?_⟩
      rcases Nat.eq_or_lt_of_le hj with rfl | hj
      · exact List.contains_iff_mem.mp hn
      · exact htaken j hj hlt
    · exact ⟨n, le_rfl, by omega, rfl, fun j hle hlt => absurd hle (Nat.not_le.mpr hlt)⟩

theorem freeName_spec (taken : List String) (base : String) :
    ∃ k ≤ taken.length, freeName taken base = numbered base k ∧
      ∀ j < k, numbered base j ∈ taken := by
  obtain ⟨k, -, hle, heq, htaken⟩ := firstFree_spec (numbered base) taken taken.length 0
  exact ⟨k, by omega, heq, fun j hj => htaken j (Nat.zero_le j) hj⟩

/-- A message of the name has the shape that is asked for. -/
def fits (defined : Definitions) (message : Message) (name : String) : Bool :=
  (defined.message? name).any fun other => other.sameShape { message with name }

variable {defined defined' : Definitions} {taken' : List String} {message : Message}
  {steps' k : Nat}

theorem matchFrom_succ : matchFrom defined taken base message (steps + 1) n =
    if numbered base n ∈ taken then
      if fits defined message (numbered base n) then some (numbered base n)
      else matchFrom defined taken base message steps (n + 1)
    else none := by
  rw [matchFrom, fits]
  by_cases htaken : numbered base n ∈ taken
  · cases defined.message? (numbered base n) <;> simp [htaken]
  · simp [htaken]

/-- What is found stays found, as long as the names that were taken keep what they stand for. -/
theorem matchFrom_stable (h : matchFrom defined taken base message steps n = some name)
    (hkept : ∀ name ∈ taken, name ∈ taken' ∧ defined'.message? name = defined.message? name)
    (hsteps : steps ≤ steps') :
    matchFrom defined' taken' base message steps' n = some name := by
  induction steps generalizing n steps' with
  | zero => cases h
  | succ steps ih =>
    obtain ⟨steps', rfl⟩ := Nat.exists_eq_add_of_le' (Nat.le_trans (Nat.le_add_left 1 _) hsteps)
    rw [matchFrom_succ] at h ⊢
    split at h
    · rename_i htaken
      obtain ⟨htaken', hsame⟩ := hkept _ htaken
      have hfits : fits defined' message (numbered base n) =
          fits defined message (numbered base n) := by rw [fits, fits, hsame]
      rw [if_pos htaken', hfits]
      split at h
      · rename_i hfound
        rw [if_pos hfound]
        exact h
      · rename_i hother
        rw [if_neg hother]
        exact ih h (Nat.le_of_succ_le_succ hsteps)
    · cases h

/-- What was not found is found under the first name that was free, once it fits there. -/
theorem matchFrom_new (h : matchFrom defined taken base message steps n = none)
    (hkept : ∀ name ∈ taken, name ∈ taken' ∧ defined'.message? name = defined.message? name)
    (hn : n ≤ k) (htaken : ∀ j, n ≤ j → j < k → numbered base j ∈ taken)
    (hnew : numbered base k ∈ taken') (hfits : fits defined' message (numbered base k) = true)
    (hsteps : k < n + steps) (hsteps' : k < n + steps') :
    matchFrom defined' taken' base message steps' n = some (numbered base k) := by
  induction steps generalizing n steps' with
  | zero => omega
  | succ steps ih =>
    obtain ⟨steps', rfl⟩ : ∃ more, steps' = more + 1 := ⟨steps' - 1, by omega⟩
    rw [matchFrom_succ] at h ⊢
    rcases Nat.eq_or_lt_of_le hn with rfl | hlt
    · rw [if_pos hnew, if_pos hfits]
    · have hfirst := htaken n le_rfl hlt
      obtain ⟨hfirst', hsame⟩ := hkept _ hfirst
      have hsame : fits defined' message (numbered base n) =
          fits defined message (numbered base n) := by rw [fits, fits, hsame]
      rw [if_pos hfirst] at h
      rw [if_pos hfirst', hsame]
      split at h
      · cases h
      · rename_i hother
        rw [if_neg hother]
        exact ih h hlt (fun j hj hjk => htaken j (by omega) hjk) (by omega) (by omega)

end Names

variable {plan : Plan} {w w₁ w₂ w' u : Workspace} {file : String} {s target : Api.Schema}
  {type : TypeRef}

/-! ## Structs -/

section Structs

variable {place : Place} {message : Message} {base name : String}

/-- A struct that was found is found from then on. -/
theorem Workspace.Gains.matching?_eq (h : w.Gains u)
    (hname : w.matching? file base message = some name) :
    u.matching? file base message = some name :=
  matchFrom_stable hname (fun _ htaken => ⟨(h.le.names file).subset htaken, h.message?_eq htaken⟩)
    (Nat.succ_le_succ (h.le.names file).length_le)

/-- The messages before a new struct have other names. -/
theorem Plan.Orderly.message?_newStruct (hw : plan.Orderly w) :
    ((w.newStruct place message).definitions place.file).message?
        (w.claim place.file place.base).1 =
      some { message with
        name := (w.claim place.file place.base).1
        fqn := fqnOf place.file (w.claim place.file place.base).1 } := by
  have hfree : ∀ m ∈ (w.definitions place.file).messages,
      ¬ (m.name == (w.claim place.file place.base).1) = true := by
    intro m hm heq
    exact freeName_not_mem _ _ (beq_iff_eq.mp heq ▸ hw.messages place.file m hm)
  simp only [newStruct, definitions_addMessage, definitions_claim, if_true, Definitions.message?,
    List.find?_append, List.find?_eq_none.mpr hfree]
  simp

/-- A new struct is found from then on, when it has the shape that is asked for. -/
theorem Plan.Orderly.matching?_newStruct (hw : plan.Orderly w)
    (hnew : w.matching? place.file place.base message = none)
    (hfields : sameFields message.fields message.fields = true) (hbare : message.annotations = [])
    (hgains : (w.newStruct place message).Gains u) :
    u.matching? place.file place.base message = some (w.claim place.file place.base).1 := by
  have hall : w.Gains u := .head (.struct place message hnew) hgains
  have hname := claim_mem_namesIn w place.file place.base
  have hfits :
      fits (u.definitions place.file) message (w.claim place.file place.base).1 = true := by
    rw [fits, hgains.message?_eq hname, hw.message?_newStruct]
    simp [Message.sameShape, hbare, hfields]
  obtain ⟨k, hk, hfree, htaken⟩ := freeName_spec (w.namesIn place.file) place.base
  have hclaim : (w.claim place.file place.base).1 = numbered place.base k := hfree
  rw [hclaim] at hname hfits ⊢
  have hlonger := (hall.le.names place.file).length_le
  exact matchFrom_new hnew
    (fun _ hold => ⟨(hall.le.names place.file).subset hold, hall.message?_eq hold⟩)
    (Nat.zero_le k) (fun j _ hj => htaken j hj) ((hgains.le.names place.file).subset hname) hfits
    (by omega) (by omega)

end Structs

/-! ## Defaults -/

section Defaults

variable {name member : String} {choices : List Api.Choice} {value : Yaml.Value}

/-- A schema leads to all that its type depends on. -/
theorem Glossary.Needs.leads {g : Glossary} {inlining inlining' : List String}
    (h : g.Needs inlining s inlining' target) :
    Relation.ReflTransGen (g.Leads g.Chain) s target := by
  cases h with
  | replaced hreference htarget halias _ => exact .single (.target ⟨_, hreference, htarget⟩ halias)
  | sole _ hsole => exact .single (.part (soleReference?_mem hsole))
  | composed hreference _ _ hobject hentry => exact g.leads_composed hreference hobject hentry
  | property _ hentry => exact .single (.property hentry)
  | items _ hitems => exact .single (.items hitems)
  | value _ hvalue => exact .single (.value hvalue)

/-- No double is undefined in the defaults of the schemas that the schema leads to. -/
def Glossary.Definite (g : Glossary) (s : Api.Schema) : Prop :=
  ∀ t, Relation.ReflTransGen (g.Leads g.Chain) s t → ∀ value, t.default = some value →
    ∀ x ∈ value.doubles, x.isNaN = false

/-- From one workspace to another no default changes that is stated for a missing reference: the
name that is kept of it comes to no member that it did not come to before. -/
def Plan.Steady (p : Plan) (file : String) (w u : Workspace) (s : Api.Schema) : Prop :=
  p.glossary.policy = .lenient →
    ∀ t, Relation.ReflTransGen (p.glossary.Leads p.glossary.Chain) s t →
      ∀ key value, p.glossary.Misses t key → t.default = some value →
        defaultMember? u file (wantedName key) t.choices value =
          defaultMember? w file (wantedName key) t.choices value

theorem Glossary.Definite.leads {g : Glossary} (h : g.Definite s)
    (hsteps : Relation.ReflTransGen (g.Leads g.Chain) s target) : g.Definite target :=
  fun t ht => h t (hsteps.trans ht)

theorem Plan.Steady.leads (h : plan.Steady file w u s)
    (hsteps : Relation.ReflTransGen (plan.glossary.Leads plan.glossary.Chain) s target) :
    plan.Steady file w u target :=
  fun hpolicy t ht => h hpolicy t (hsteps.trans ht)

/-- The member for a default is found from then on. -/
theorem defaultMember?_mono (hle : w ≤ u)
    (h : defaultMember? w file name choices value = some member) :
    defaultMember? u file name choices value = some member := by
  simp only [defaultMember?, Option.bind_eq_bind, Option.bind_eq_some_iff] at h ⊢
  obtain ⟨position, hposition, e, he, hmember⟩ := h
  exact ⟨position, hposition, e, enum?_mono hle he, hmember⟩

theorem defaultMember?_between (h : defaultMember? u file name choices value =
      defaultMember? w file name choices value) (hle : w ≤ w₁) (hle₁ : w₁ ≤ w₂) (hle₂ : w₂ ≤ u) :
    defaultMember? w₂ file name choices value = defaultMember? w₁ file name choices value := by
  cases hw : defaultMember? w file name choices value with
  | some member =>
    rw [defaultMember?_mono (hle.trans hle₁) hw, defaultMember?_mono hle hw]
  | none =>
    have hnone : ∀ {t}, t ≤ u → defaultMember? t file name choices value = none := by
      intro t ht
      cases hmember : defaultMember? t file name choices value with
      | none => rfl
      | some member =>
        have hu := defaultMember?_mono ht hmember
        rw [h, hw] at hu
        cases hu
    rw [hnone hle₂, hnone (hle₁.trans hle₂)]

theorem Plan.Steady.between (h : plan.Steady file w u s) (hle : w ≤ w₁) (hle₁ : w₁ ≤ w₂)
    (hle₂ : w₂ ≤ u) : plan.Steady file w₁ w₂ s :=
  fun hpolicy t ht key value hmisses hvalue =>
    defaultMember?_between (h hpolicy t ht key value hmisses hvalue) hle hle₁ hle₂

/-- The reference to a named schema is written with a name that is taken, or with a dot. -/
theorem Plan.Orderly.written (hw : plan.Orderly w) {key : String} (file : String)
    (hkey : key ∈ plan.glossary.schemas.keys) :
    ∃ name fqn, plan.typeFor key file = .named name fqn ∧
      (name ∈ w.namesIn file ∨ ¬ IsPlain name.toList) := by
  by_cases hfile : plan.fileOf key = file
  · subst hfile
    exact ⟨plan.nameOf key, _, congrArg (TypeRef.named · _) (if_pos rfl),
      .inl (hw.reserved key hkey)⟩
  · refine ⟨_ ++ "." ++ plan.nameOf key, _, congrArg (TypeRef.named · _) (if_neg hfile), .inr ?_⟩
    exact fun hplain => (hplain '.' (by simp)).2 rfl

theorem propertyDefault_congr {property : String} {fqn : Option String}
    (h : ∀ value, s.default = some value →
      defaultMember? u file name s.choices value = defaultMember? w file name s.choices value) :
    propertyDefault u file property s (.named name fqn) =
      propertyDefault w file property s (.named name fqn) := by
  simp only [propertyDefault]
  cases hdefault : s.default with
  | none => rfl
  | some value => simp only [h value hdefault]

/-- The default of a property stays as it is, once the type of the property is known. -/
theorem propertyDefault_eq (property : String) (hw : plan.Orderly w) (hgains : w.Gains u)
    (hbears : plan.Bears w file s type) (hsteady : plan.Steady file w u s) :
    propertyDefault u file property s type = propertyDefault w file property s type := by
  have hkept : ∀ {name fqn}, (name ∈ w.namesIn file ∨ ¬ IsPlain name.toList) →
      propertyDefault u file property s (.named name fqn) =
        propertyDefault w file property s (.named name fqn) := by
    intro name fqn hname
    refine propertyDefault_congr fun value _ => ?_
    simp only [defaultMember?, hgains.enum?_eq hname]
  cases hbears with
  | unnamed hunnamed =>
    cases type with
    | named name fqn => exact absurd rfl (hunnamed name fqn)
    | _ => rfl
  | defined hname => exact hkept (.inl hname)
  | reference hkey =>
    obtain ⟨name, fqn, htype, hname⟩ := hw.written file hkey
    rw [htype]
    exact hkept hname
  | missing hpolicy hmisses =>
    exact propertyDefault_congr fun value hvalue =>
      hsteady hpolicy s .refl _ value hmisses hvalue

end Defaults

/-! ## Runs that are made again -/

theorem runs_mapM_again {α β : Type} {f : α → Build β} {l : List α} {bs : List β}
    (h : List.Forall₂ (fun a b => Runs (f a) u b u) l bs) : Runs (l.mapM f) u bs u := by
  induction h with
  | nil => exact runs_pure.mpr ⟨rfl, rfl⟩
  | cons hab _ ih =>
    simp only [List.mapM_cons, runs_bind, runs_pure]
    exact ⟨_, _, hab, _, _, ih, rfl, rfl⟩

/-- The program finds the same again, from all that synthesis comes to behind it, as long as no
default changes that is stated for a missing reference. -/
def Again (plan : Plan) (file : String) (s : Api.Schema) (x : Build TypeRef) : Prop :=
  ∀ ⦃w type w' u⦄, plan.Orderly w → Runs x w type w' → w'.Gains u → plan.Steady file w u s →
    Runs x u type u

/-- Programs for types that add definitions only, give types whose names have a meaning, and find
the same again. -/
structure Repeats (plan : Plan) (s : Api.Schema) (typeOf : Place → Api.Schema → Build TypeRef) :
    Prop where
  adds : ∀ place, Along Adds (typeOf place s)
  bears : ∀ ⦃place w type w'⦄, plan.Orderly w → Runs (typeOf place s) w type w' →
    plan.Bears w' place.file s type
  again : ∀ place, Again plan place.file s (typeOf place s)

section Repeats

variable {typeOf : Place → Api.Schema → Build TypeRef} {object : Api.Schema} {place : Place}
  {message : Message} {name : String}

theorem structMessage_again (htypeOf : ∀ entry ∈ object.properties, Repeats plan entry.2 typeOf)
    (hw : plan.Orderly w) (h : Runs (structMessage typeOf file name object) w message w')
    (hgains : w'.Gains u) (hsteady : ∀ entry ∈ object.properties, plan.Steady file w u entry.2) :
    Runs (structMessage typeOf file name object) u message u := by
  obtain ⟨fields, hbuilt, rfl⟩ :=
    structMessage_built (fun entry hentry => (htypeOf entry hentry).adds) h
  simp only [structMessage, structFields, runs_bind, runs_pure]
  refine ⟨_, _, ⟨fields, _, runs_mapM_again ?_, rfl, rfl⟩, rfl, rfl⟩
  refine ((List.forall₂_and_left _ _).mpr ⟨fun _ hentry => hentry, hbuilt⟩).imp ?_
  rintro entry field ⟨hentry, v, type, v', default, hv, hrun, hv', hdefault, rfl⟩
  have hother := htypeOf entry hentry
  have hadded : v.Gains v' := hother.adds _ hrun
  have hsteady' := hsteady entry hentry
  have hagain := hother.again _ (hw.gains hv) hrun (hv'.trans hgains)
    (hsteady'.between hv.le (hadded.le.trans (hv'.le.trans hgains.le)) le_rfl)
  have hsame := propertyDefault_eq entry.1 ((hw.gains hv).gains hadded)
    (hv'.trans hgains) (hother.bears (hw.gains hv) hrun)
    (hsteady'.between (hv.le.trans hadded.le) (hv'.le.trans hgains.le) le_rfl)
  simp only [runs_bind, propertyField_runs, runs_get, runs_lift, runs_pure]
  exact ⟨_, _, ⟨type, hagain, rfl⟩, _, _, ⟨rfl, rfl⟩, default, _, ⟨hsame.trans hdefault, rfl⟩, rfl,
    rfl⟩

/-- The fields of a struct have their own shapes. -/
theorem structMessage_sameFields
    (htypeOf : ∀ entry ∈ object.properties, Repeats plan entry.2 typeOf)
    (hdefinite : ∀ entry ∈ object.properties, plan.glossary.Definite entry.2)
    (h : Runs (structMessage typeOf file name object) w message w') :
    sameFields message.fields message.fields = true := by
  obtain ⟨fields, hbuilt, rfl⟩ :=
    structMessage_built (fun entry hentry => (htypeOf entry hentry).adds) h
  refine sameFields_self fun field hfield => ?_
  obtain ⟨plain, hplain, id, rfl⟩ := mem_renumberFrom hfield
  obtain ⟨entry, hentry, v, type, v', default, -, -, -, hdefault, rfl⟩ :=
    exists_left_of_forall₂ hbuilt hplain
  refine Field.sameShape_self rfl fun l hl => ?_
  obtain rfl : default = some l := hl
  rcases propertyDefault_cases hdefault with ⟨text, rfl⟩ | ⟨value, hvalue, hliteral⟩
  · exact fun x hx => absurd hx List.not_mem_nil
  · obtain ⟨-, hdoubles⟩ := defaultLiteral_renders hliteral
    exact fun x hx => hdefinite entry hentry entry.2 .refl value hvalue x (hdoubles hx)

theorem structType_found {message : Message}
    (hmessage : Runs (structMessage typeOf place.file place.base object) u message u)
    (hname : u.matching? place.file place.base message = some name) :
    Runs (structType typeOf place object) u (localType place.file name) u := by
  simp only [structType, runs_bind, runs_get]
  refine ⟨message, u, hmessage, u, u, ⟨rfl, rfl⟩, ?_⟩
  rw [← Place.base, hname]
  exact runs_pure.mpr ⟨rfl, rfl⟩

/-- A struct that was found or made is found again. -/
theorem structType_again (htypeOf : ∀ entry ∈ object.properties, Repeats plan entry.2 typeOf)
    (hdefinite : ∀ entry ∈ object.properties, plan.glossary.Definite entry.2)
    (hw : plan.Orderly w) (h : Runs (structType typeOf place object) w type w')
    (hgains : w'.Gains u)
    (hsteady : ∀ entry ∈ object.properties, plan.Steady place.file w u entry.2) :
    Runs (structType typeOf place object) u type u := by
  obtain ⟨message, w₁, hmessage, ⟨name, hname, rfl, rfl⟩ | ⟨hnew, rfl, rfl⟩⟩ := structType_runs h
  · have hagain := structMessage_again htypeOf hw hmessage hgains hsteady
    exact structType_found hagain (hgains.matching?_eq hname)
  · have hadds := fun entry hentry => (htypeOf entry hentry).adds
    have hw₁ : w.Gains w₁ := structMessage_along _ _ hadds hmessage
    have hall : w₁.Gains u := .head (.struct place message hnew) hgains
    have hagain := structMessage_again htypeOf hw hmessage hall hsteady
    have hbare : message.annotations = [] := by
      obtain ⟨fields, -, rfl⟩ := structMessage_built hadds hmessage
      rfl
    exact structType_found hagain ((hw.gains hw₁).matching?_newStruct hnew
      (structMessage_sameFields htypeOf hdefinite hmessage) hbare hgains)

theorem enumType_found (hname : u.inlineEnum? place.file place.base = some name) :
    Runs (enumType place s) u (localType place.file name) u := by
  simp only [enumType, runs_bind, runs_get]
  refine ⟨u, u, ⟨rfl, rfl⟩, ?_⟩
  rw [← Place.base, hname]
  exact runs_pure.mpr ⟨rfl, rfl⟩

theorem enumType_again (h : Runs (enumType place s) w type w') (hgains : w'.Gains u) :
    Runs (enumType place s) u type u := by
  rcases enumType_runs h with ⟨name, hname, rfl, rfl⟩ | ⟨hnew, rfl, rfl⟩
  · exact enumType_found (hgains.inlineEnum?_eq hname)
  · refine enumType_found (hgains.inlineEnum?_eq ?_)
    rw [inlineEnum?_newEnum, if_pos ⟨rfl, rfl⟩]

end Repeats

/-! ## All schemas -/

variable {inlining : List String} {place : Place} {steps : Nat}

theorem Branch.follow_again {branch : Branch}
    {typeOf : List String → Place → Api.Schema → Build TypeRef}
    (htypeOf : ∀ inlining' target, branch.Asks inlining inlining' target →
      Repeats plan target (typeOf inlining'))
    (hleads : ∀ inlining' target, branch.Asks inlining inlining' target →
      Relation.ReflTransGen (plan.glossary.Leads plan.glossary.Chain) s target)
    (hdefinite : plan.glossary.Definite s) :
    Again plan place.file s (branch.follow typeOf inlining place s) := by
  intro w type w' u hw h hgains hsteady
  cases branch with
  | failure cause => exact absurd h runs_throw
  | done type =>
    obtain ⟨rfl, rfl⟩ := runs_pure.mp h
    exact runs_pure.mpr ⟨rfl, rfl⟩
  | replaced key target =>
    exact (htypeOf _ _ .replaced).again place hw h hgains (hsteady.leads (hleads _ _ .replaced))
  | sole part =>
    exact (htypeOf _ _ .sole).again place hw h hgains (hsteady.leads (hleads _ _ .sole))
  | struct object =>
    exact structType_again (fun entry hentry => htypeOf _ _ (.property hentry))
      (fun entry hentry => hdefinite.leads (hleads _ _ (.property hentry))) hw h hgains
      fun entry hentry => hsteady.leads (hleads _ _ (.property hentry))
  | listed => exact enumType_again h hgains
  | list items =>
    obtain ⟨element, rfl, helement⟩ := Branch.list_runs.mp h
    have hagain := (htypeOf _ _ .items).again _ hw helement hgains
      (hsteady.leads (hleads _ _ .items))
    exact Branch.list_runs.mpr ⟨element, rfl, hagain⟩
  | map value =>
    obtain ⟨type, rfl, hvalue⟩ := Branch.map_runs.mp h
    have hagain := (htypeOf _ _ .value).again _ hw hvalue hgains
      (hsteady.leads (hleads _ _ .value))
    exact Branch.map_runs.mpr ⟨type, rfl, hagain⟩

/-- Synthesis finds the same again, at every depth. -/
theorem typeWithin_again (hdefinite : plan.glossary.Definite s) :
    Again plan place.file s (typeWithin plan steps inlining place s) := by
  induction steps generalizing inlining place s with
  | zero => exact fun _ _ _ _ _ h => absurd h runs_throw
  | succ steps ih =>
    rw [typeWithin_succ]
    refine Branch.follow_again (fun inlining' target hasks => ?_)
      (fun inlining' target hasks => hasks.needs.leads) hdefinite
    exact ⟨fun place => typeWithin_adds _ _ _ place _, fun _ _ _ _ hw h => typeWithin_bears hw h,
      fun place => ih (hdefinite.leads hasks.needs.leads)⟩

theorem Plan.of_orderly {file : String} {bytes : List UInt8} {document : Api.Document}
    {options : Options} (hread : readDocument file bytes = .ok document)
    (hplan : Plan.of file options document.schemas = (plan, w)) : plan.Orderly w := by
  obtain ⟨-, -, -, hcoherent, hreserved, -⟩ :=
    Plan.of_coherent (fun _ => True) (readDocument_sorted hread).schemas.nodup hplan
  exact hcoherent.orderly hreserved

/-- Synthesis that is made again at once gives the same type and adds nothing, from every workspace
that a conversion comes to, for every schema without undefined doubles in its defaults, and at every
place. The condition is that the definitions which come up do not change a default that is stated
for a missing reference: its name is looked up although it names no definition. -/
theorem synthesis_idempotent {bytes : List UInt8} {document : Api.Document} {options : Options}
    {w₀ : Workspace} (hread : readDocument file bytes = .ok document)
    (hplan : Plan.of file options document.schemas = (plan, w₀)) (hreached : plan.Proceeds w₀ w)
    (hrun : Runs (typeWithin plan steps inlining place s) w type w')
    (hdefinite : plan.glossary.Definite s) (hsteady : plan.Steady place.file w w' s) :
    Runs (typeWithin plan steps inlining place s) w' type w' :=
  typeWithin_again hdefinite ((Plan.of_orderly hread hplan).proceeds hreached) hrun .refl hsteady

/-! ## A default that changes -/

/-- Two responses of one schema, whose codes give one field name. A default is stated for a missing
reference by the name that the enumeration beside it gets. -/
def thrownDocument : List UInt8 :=
  let response (code : String) : String := "        " ++ code ++ ":\n          schema:\n" ++
    "            properties:\n              first:\n" ++
    "                $ref: \"#/definitions/Error44Kind\"\n" ++
    "                enum: [cat]\n                default: cat\n" ++
    "              kind:\n                enum: [cat]\n"
  ("swagger: \"2.0\"\npaths:\n  /pets:\n    get:\n      responses:\n        200:\n" ++
    "          schema:\n            type: string\n" ++ response "4-4" ++
    response "4_4").toUTF8.data.toList

def kindSchema : Api.Schema := { choices := [.text "cat"] }

def thrownSchema : Api.Schema :=
  { properties := [
      ("first", { kindSchema with
        reference := some "#/definitions/Error44Kind", default := some (.text "cat") }),
      ("kind", kindSchema)] }

def thrownResponses : Table Api.Response :=
  [("200", { schema := some { typeNames := some (.single "string") } }),
    ("4-4", { schema := some thrownSchema }), ("4_4", { schema := some thrownSchema })]

theorem readDocument_thrownDocument :
    readDocument "pets.yaml" thrownDocument = .ok ⟨.swagger2, "2.0",
      [("/pets", { operations := [(.get, { responses := thrownResponses })] })], []⟩ := by
  let kind : List (String × Yaml.Value) := [("enum", .sequence [.text "cat"])]
  let thrown : Yaml.Value := object [("schema", object [("properties", object [
    ("first", object ([("$ref", .text "#/definitions/Error44Kind")] ++ kind ++
      [("default", .text "cat")])), ("kind", object kind)])])]
  have hparse : Yaml.parse? thrownDocument = some (object [("swagger", .text "2.0"),
      ("paths", object [("/pets", object [("get", object [("responses", .mapping [
        (.number (.int 200), object [("schema", object [("type", .text "string")])]),
        (.text "4-4", thrown), (.text "4_4", thrown)])])])])]) := by
    decide +kernel
  rw [readDocument_eq hparse]
  rfl

def thrownPlan : Plan := (Plan.of "pets.yaml" {} []).1

/-- The place of what both responses throw. -/
def thrownPlace : Place :=
  { file := thrownPlan.mainFile, parent := failureName "4-4", field := "" }

/-- The workspace when responses are looked at: the name of the request is claimed. -/
def thrownStart : Workspace :=
  ((Plan.of "pets.yaml" {} []).2.claim thrownPlan.mainFile
    (Naming.definitionName ("GetPets" ++ "Request"))).2

theorem thrownStart_reached :
    thrownPlan.Proceeds (Plan.of "pets.yaml" {} []).2 thrownStart :=
  .single (.request "GetPets")

/-- From a plain object there are reached the properties of the object. -/
theorem mem_of_leads_object {policy : ReferencePolicy} {entries : List (String × Api.Schema)}
    {t : Api.Schema}
    (hplain : ∀ entry ∈ entries, entry.2.properties = [] ∧ entry.2.items = none ∧
      entry.2.parts = [] ∧ entry.2.additional = none)
    (h : Relation.ReflTransGen (Glossary.Leads ⟨[], policy⟩
      (Glossary.Chain ⟨[], policy⟩)) { properties := entries } t) :
    t = { properties := entries } ∨ ∃ entry ∈ entries, t = entry.2 := by
  have hmissing : ∀ {s target}, ¬ Glossary.Targets ⟨[], policy⟩ s target := by
    rintro s target ⟨reference, -, htarget⟩
    cases htarget
  induction h with
  | refl => exact .inl rfl
  | tail _ hstep ih =>
    cases hstep with
    | target htarget _ => exact absurd htarget hmissing
    | member _ hfollow =>
      obtain ⟨first, hfirst, -⟩ := Relation.TransGen.head'_iff.mp hfollow
      exact absurd hfirst hmissing
    | property hentry =>
      rcases ih with rfl | ⟨entry, hentry', rfl⟩
      · exact .inr ⟨_, hentry, rfl⟩
      · rw [(hplain entry hentry').1] at hentry
        cases hentry
    | items hitems =>
      rcases ih with rfl | ⟨entry, hentry, rfl⟩
      · cases hitems
      · rw [(hplain entry hentry).2.1] at hitems
        cases hitems
    | value hvalue =>
      rcases ih with rfl | ⟨entry, hentry, rfl⟩
      · cases hvalue
      · rw [Api.Schema.valueSchema?, (hplain entry hentry).2.2.2] at hvalue
        cases hvalue
    | part hpart =>
      rcases ih with rfl | ⟨entry, hentry, rfl⟩
      · cases hpart
      · rw [(hplain entry hentry).2.2.1] at hpart
        cases hpart

theorem thrownSchema_definite : thrownPlan.glossary.Definite thrownSchema := by
  intro t ht value hvalue x hx
  rcases mem_of_leads_object (by simp [kindSchema]) ht with rfl | ⟨entry, hentry, rfl⟩
  · cases hvalue
  · simp only [List.mem_cons, List.not_mem_nil, or_false] at hentry
    rcases hentry with rfl | rfl
    · obtain rfl := Option.some.inj hvalue
      cases hx
    · cases hvalue

/-- The second of two runs right behind each other finds another type. -/
theorem thrownDocument_not_idempotent :
    ∃ document w₀, readDocument "pets.yaml" thrownDocument = .ok document ∧
      Plan.of "pets.yaml" {} document.schemas = (thrownPlan, w₀) ∧
      thrownPlan.Proceeds w₀ thrownStart ∧ thrownPlan.glossary.Definite thrownSchema ∧
      ∃ type w other w', type ≠ other ∧
        Runs (typeOf thrownPlan thrownPlace thrownSchema) thrownStart type w ∧
        Runs (typeOf thrownPlan thrownPlace thrownSchema) w other w' ∧
      ∃ schema, convertDocument "pets.yaml" thrownDocument {} = .ok schema ∧
        schema.files.flatMap (fun f => f.definitions.services.flatMap fun s =>
          s.functions.flatMap fun function => function.throws.map Field.type) = [type, other] := by
  let twice : Build (TypeRef × TypeRef) := do
    let first ← typeOf thrownPlan thrownPlace thrownSchema
    let second ← typeOf thrownPlan thrownPlace thrownSchema
    return (first, second)
  obtain ⟨⟨⟨type, other⟩, w'⟩, hruns, htypes⟩ : ∃ out, twice.run thrownStart = .ok out ∧
      out.1 = (localType thrownPlan.mainFile "Error44",
        localType thrownPlan.mainFile "Error44_2") := by
    refine exists_of_toOption ?_
    decide +kernel
  obtain ⟨schema, hschema, hthrows⟩ : ∃ schema,
      convertDocument "pets.yaml" thrownDocument {} = .ok schema ∧
        schema.files.flatMap (fun f => f.definitions.services.flatMap fun s =>
          s.functions.flatMap fun function => function.throws.map Field.type) =
            [localType thrownPlan.mainFile "Error44",
              localType thrownPlan.mainFile "Error44_2"] := by
    rw [convertDocument_of_read readDocument_thrownDocument]
    refine exists_of_toOption ?_
    decide +kernel
  obtain ⟨rfl, rfl⟩ := Prod.mk.inj htypes
  obtain ⟨first, w, hfirst, hrest⟩ := runs_bind.mp hruns
  obtain ⟨second, w₂, hsecond, hpair⟩ := runs_bind.mp hrest
  obtain ⟨heq, rfl⟩ := runs_pure.mp hpair
  obtain ⟨rfl, rfl⟩ := Prod.mk.inj heq
  exact ⟨_, _, readDocument_thrownDocument, rfl, thrownStart_reached, thrownSchema_definite,
    _, w, _, w', by decide, hfirst, hsecond, schema, hschema, hthrows⟩

/-- The object without the default. -/
def kindOwner : Api.Schema := { properties := [("kind", kindSchema)] }

theorem kindOwner_default {t : Api.Schema}
    (h : Relation.ReflTransGen (thrownPlan.glossary.Leads thrownPlan.glossary.Chain) kindOwner t) :
    t.default = none := by
  rcases mem_of_leads_object (by simp [kindSchema]) h with rfl | ⟨entry, hentry, rfl⟩
  · rfl
  · rw [List.mem_singleton.mp hentry]
    rfl

theorem kindOwner_idempotent :
    ∃ type w, Runs (typeOf thrownPlan thrownPlace kindOwner) thrownStart type w ∧
      Runs (typeOf thrownPlan thrownPlace kindOwner) w type w := by
  obtain ⟨⟨type, w⟩, hrun⟩ : ∃ out, (typeOf thrownPlan thrownPlace kindOwner).run thrownStart =
      .ok out := by
    refine exists_of_isOk ?_
    decide +kernel
  refine ⟨type, w, hrun, synthesis_idempotent readDocument_thrownDocument rfl thrownStart_reached
    hrun (fun t ht value hvalue => ?_) fun _ t ht key value _ hvalue => ?_⟩
  · rw [kindOwner_default ht] at hvalue
    cases hvalue
  · rw [kindOwner_default ht] at hvalue
    cases hvalue

end RestThrift.Convert
