import Mathlib
import RestThrift.Convert.Function
import RestThrift.Proofs.Attachments
import RestThrift.Proofs.Fields
import RestThrift.Proofs.Synthesis

/-!
# Requests of operations

The inputs of an operation are its parameters and what its body brings in. The fields of a request
answer to these inputs: each input has left its mark on the field of its name, and a field has no
other marks.
-/
namespace RestThrift.Convert

open Workspace

/-! ## Operations -/

/-- An operation that becomes a function, and the schema of its success. -/
structure Call where
  path : String
  item : Api.PathItem
  method : Api.Method
  operation : Api.Operation
  success : Api.Schema

/-- The operation of a path and a method, if it has a success schema. -/
def Call.of? (path : String) (item : Api.PathItem) (method : Api.Method) : Option Call := do
  let operation ← item.operation? method
  let success ← operation.successSchema?
  return { path, item, method, operation, success }

/-- The operations with a success schema, in visiting order. -/
def calls (paths : Table Api.PathItem) : List Call :=
  paths.flatMap fun entry => Api.Method.all.filterMap (Call.of? entry.1 entry.2)

namespace Call

/-- The parameters of the path that the operation does not override by name and place, then the
operation's own. -/
def parameters (c : Call) : List Api.Parameter :=
  c.item.parameters.filter (fun shared =>
    ∀ own ∈ c.operation.parameters, ¬(own.name = shared.name ∧ own.place = shared.place)) ++
    c.operation.parameters

theorem effectiveParameters_eq (c : Call) :
    c.operation.effectiveParameters c.item = c.parameters := by
  rw [Api.Operation.effectiveParameters, parameters]
  congr 1
  apply List.filter_congr
  intro shared _
  rw [Bool.eq_iff_iff]
  simp

def body? (c : Call) : Option Api.Body := c.operation.body? c.parameters

end Call

/-! ## Inputs -/

/-- The inputs by the places where they travel. -/
inductive Takes (glossary : Glossary) (parameters : List Api.Parameter) (body : Option Api.Body) :
    Api.Carrier → String → Prop
  | parameter {p : Api.Parameter} {carrier : Api.Carrier} (hp : p ∈ parameters)
      (hplace : p.place ≠ "body") (hcarrier : Api.Carrier.ofName? p.place = some carrier) :
      Takes glossary parameters body carrier p.name
  | property {b : Api.Body} {object : Api.Schema} {entry : String × Api.Schema}
      (hbody : body = some b) (hspreads : spreads b.schema = true)
      (hobject : glossary.effectiveObject b.schema = .ok object)
      (hentry : entry ∈ object.properties) : Takes glossary parameters body .body entry.1
  | body {b : Api.Body} (hbody : body = some b) (hspreads : spreads b.schema = false) :
      Takes glossary parameters body .body "body"

def Call.Takes (glossary : Glossary) (c : Call) : Api.Carrier → String → Prop :=
  Convert.Takes glossary c.parameters c.body?

/-- The field that an input makes. -/
def Carried (carrier : Api.Carrier) (name : String) (field : Field) : Prop :=
  field.name = Naming.fieldName name ∧ field.annotations = [.quoted carrier.mark name]

/-- Fields answer to inputs. -/
structure Answers (takes : Api.Carrier → String → Prop) (fields : List Field) : Prop where
  annotated : ∀ field ∈ fields, field.annotations ≠ []
  complete : ∀ carrier name, takes carrier name → Marked fields (Naming.fieldName name) carrier.mark
  only : ∀ name a, Carries fields name a → ∃ carrier input,
    takes carrier input ∧ name = Naming.fieldName input ∧ a = .quoted carrier.mark input

variable {takes : Api.Carrier → String → Prop} {raw fields : List Field}

/-- What answers to inputs quotes their names. -/
theorem Answers.quotes (h : Answers takes fields) :
    ∀ field ∈ fields, ∀ a ∈ field.annotations, a.Quotes := by
  intro field hfield a ha
  obtain ⟨carrier, input, -, -, rfl⟩ := h.only field.name a ⟨field, hfield, rfl, ha⟩
  exact Annotation.quotes_quoted _ _

/-- What answers to inputs is named for one of them. -/
theorem Answers.named (h : Answers takes fields) :
    ∀ field ∈ fields, ∃ input, field.name = Naming.fieldName input := by
  intro field hfield
  obtain ⟨a, ha⟩ := List.exists_mem_of_ne_nil _ (h.annotated field hfield)
  obtain ⟨-, input, -, hname, -⟩ := h.only field.name a ⟨field, hfield, rfl, ha⟩
  exact ⟨input, hname⟩

/-- Joining, sorting and numbering fields that inputs make leaves fields that answer to them. -/
theorem answers_joined (hcomplete : ∀ carrier name, takes carrier name →
      ∃ field ∈ raw, Carried carrier name field)
    (honly : ∀ field ∈ raw, ∃ carrier name, takes carrier name ∧ Carried carrier name field) :
    Answers takes (renumber (sortFields (absorbAll joinField raw []))) where
  annotated := by
    refine forall_mem_renumber (fun _ _ h => h) fun field hfield => ?_
    refine forall_mem_absorbAll (P := fun f => f.annotations ≠ []) (fun e f he _ hnil => ?_)
      (fun _ h => absurd h List.not_mem_nil) (fun f hf => ?_) field (mem_sortFields.mp hfield)
    · exact he (List.subset_nil.mp (hnil ▸ joins_joinField.keeps e f))
    · obtain ⟨carrier, name, -, -, hannotations⟩ := honly f hf
      rw [hannotations]
      exact List.cons_ne_nil _ _
  complete carrier name h := by
    obtain ⟨field, hfield, hname, hannotations⟩ := hcomplete carrier name h
    have hcarries : Carries raw (Naming.fieldName name) (.quoted carrier.mark name) :=
      ⟨field, hfield, hname, by simp [hannotations]⟩
    obtain ⟨b, hb, hmark⟩ := joins_joinField.exists_carries_absorbAll [] hcarries
    exact marked_iff.mpr ⟨b, carries_renumber.mpr (carries_sortFields.mpr hb), hmark⟩
  only name a h := by
    rw [carries_renumber, carries_sortFields] at h
    rcases joins_joinField.of_carries_absorbAll h with ⟨_, hnil, -⟩ | ⟨field, hfield, rfl, ha⟩
    · exact absurd hnil List.not_mem_nil
    · obtain ⟨carrier, input, htakes, hname, hannotations⟩ := honly field hfield
      rw [hannotations] at ha
      exact ⟨carrier, input, htakes, hname, List.mem_singleton.mp ha⟩

/-- What fields of requests are like: their types are ones of synthesis, they have no default, and
they are named for inputs. -/
structure OfRequest (plan : Plan) (w : Workspace) (file : String) (field : Field) : Prop where
  typed : Typed plan w file field.type
  unset : field.default = none
  named : ∃ input, field.name = Naming.fieldName input

theorem OfRequest.mono {plan : Plan} {w w' : Workspace} {file : String} {field : Field}
    (h : OfRequest plan w file field) (hle : w ≤ w') : OfRequest plan w' file field :=
  ⟨h.typed.mono hle, h.unset, h.named⟩

/-! ## Building the fields -/

/-- A run makes a field for each input, and no other field. -/
structure Makes (plan : Plan) (stated : Api.Schema → Prop) (w w' : Workspace) (file : String)
    (takes : Api.Carrier → String → Prop) (fields : List Field) : Prop where
  grows : Grows plan stated w w'
  typed : ∀ field ∈ fields, Typed plan w' file field.type
  defaults : ∀ field ∈ fields, field.default = none
  complete : ∀ carrier name, takes carrier name → ∃ field ∈ fields, Carried carrier name field
  only : ∀ field ∈ fields, ∃ carrier name, takes carrier name ∧ Carried carrier name field

variable {plan : Plan} {stated : Api.Schema → Prop} {w w₁ w' : Workspace} {file request : String}
  {field : Field}
  {parameters : List Api.Parameter} {others : List Field} {takes' : Api.Carrier → String → Prop}
  {glossary : Glossary} {body : Option Api.Body} {carrier : Api.Carrier} {name : String}

namespace Makes

theorem nothing (htakes : ∀ carrier name, ¬ takes carrier name) :
    Makes plan stated w w file takes [] where
  grows := .refl w
  typed _ h := absurd h List.not_mem_nil
  defaults _ h := absurd h List.not_mem_nil
  complete carrier name h := absurd h (htakes carrier name)
  only _ h := absurd h List.not_mem_nil

theorem single (hgrows : Grows plan stated w w') (htyped : Typed plan w' file field.type)
    (hdefault : field.default = none) (hcarried : Carried carrier name field) :
    Makes plan stated w w' file (fun c n => c = carrier ∧ n = name) [field] where
  grows := hgrows
  typed := List.forall_mem_singleton.mpr htyped
  defaults := List.forall_mem_singleton.mpr hdefault
  complete := by
    rintro _ _ ⟨rfl, rfl⟩
    exact ⟨field, List.mem_singleton_self _, hcarried⟩
  only := List.forall_mem_singleton.mpr ⟨carrier, name, ⟨rfl, rfl⟩, hcarried⟩

/-- Fields of two runs in turn. -/
theorem append (h : Makes plan stated w w₁ file takes fields)
    (h' : Makes plan stated w₁ w' file takes' others) :
    Makes plan stated w w' file (fun c n => takes c n ∨ takes' c n) (fields ++ others) where
  grows := h.grows.trans h'.grows
  typed := List.forall_mem_append.mpr ⟨fun f hf => (h.typed f hf).mono h'.grows.le, h'.typed⟩
  defaults := List.forall_mem_append.mpr ⟨h.defaults, h'.defaults⟩
  complete := by
    rintro carrier name (htakes | htakes)
    · obtain ⟨f, hf, hcarried⟩ := h.complete carrier name htakes
      exact ⟨f, List.mem_append_left _ hf, hcarried⟩
    · obtain ⟨f, hf, hcarried⟩ := h'.complete carrier name htakes
      exact ⟨f, List.mem_append_right _ hf, hcarried⟩
  only := by
    refine List.forall_mem_append.mpr ⟨fun f hf => ?_, fun f hf => ?_⟩
    · obtain ⟨carrier, name, htakes, hcarried⟩ := h.only f hf
      exact ⟨carrier, name, .inl htakes, hcarried⟩
    · obtain ⟨carrier, name, htakes, hcarried⟩ := h'.only f hf
      exact ⟨carrier, name, .inr htakes, hcarried⟩

theorem congr (h : Makes plan stated w w' file takes fields)
    (htakes : ∀ carrier name, takes' carrier name ↔ takes carrier name) :
    Makes plan stated w w' file takes' fields where
  grows := h.grows
  typed := h.typed
  defaults := h.defaults
  complete carrier name ht := h.complete carrier name ((htakes carrier name).mp ht)
  only f hf := by
    obtain ⟨carrier, name, ht, hcarried⟩ := h.only f hf
    exact ⟨carrier, name, (htakes carrier name).mpr ht, hcarried⟩

end Makes

theorem takes_nil : ¬ Takes glossary [] none carrier name := by
  rintro (_ | _ | _) <;> simp_all

/-- The inputs of the first parameter, and all others. -/
theorem takes_cons {p : Api.Parameter} : Takes glossary (p :: parameters) none carrier name ↔
    (p.place ≠ "body" ∧ Api.Carrier.ofName? p.place = some carrier ∧ name = p.name) ∨
      Takes glossary parameters none carrier name := by
  constructor
  · intro h
    cases h with
    | parameter hp hplace hcarrier =>
      rcases List.mem_cons.mp hp with rfl | hp
      · exact .inl ⟨hplace, hcarrier, rfl⟩
      · exact .inr (.parameter hp hplace hcarrier)
    | property hbody _ _ _ => exact absurd hbody (by simp)
    | body hbody _ => exact absurd hbody (by simp)
  · rintro (⟨hplace, hcarrier, rfl⟩ | h)
    · exact .parameter List.mem_cons_self hplace hcarrier
    · cases h with
      | parameter hp hplace hcarrier =>
        exact .parameter (List.mem_cons_of_mem _ hp) hplace hcarrier
      | property hbody _ _ _ => exact absurd hbody (by simp)
      | body hbody _ => exact absurd hbody (by simp)

/-- The inputs of the parameters, and those of the body. -/
theorem takes_iff : Takes glossary parameters body carrier name ↔
    Takes glossary parameters none carrier name ∨ Takes glossary [] body carrier name := by
  constructor
  · intro h
    cases h with
    | parameter hp hplace hcarrier => exact .inl (.parameter hp hplace hcarrier)
    | property hbody hspreads hobject hentry =>
      exact .inr (.property hbody hspreads hobject hentry)
    | body hbody hspreads => exact .inr (.body hbody hspreads)
  · rintro (h | h)
    · cases h with
      | parameter hp hplace hcarrier => exact .parameter hp hplace hcarrier
      | property hbody _ _ _ => exact absurd hbody (by simp)
      | body hbody _ => exact absurd hbody (by simp)
    · cases h with
      | parameter hp _ _ => exact absurd hp List.not_mem_nil
      | property hbody hspreads hobject hentry => exact .property hbody hspreads hobject hentry
      | body hbody hspreads => exact .body hbody hspreads

theorem parameterField_makes {p : Api.Parameter} (hw : w.Remembers)
    (h : Runs (parameterField plan file request p carrier) w field w')
    (hhost : plan.Hosts file request)
    (hheld : plan.glossary.Holds stated p.effectiveSchema) :
    Makes plan stated w w' file (fun c n => c = carrier ∧ n = p.name) [field] := by
  simp only [parameterField, runs_bind, runs_pure] at h
  obtain ⟨type, _, htype, rfl, rfl⟩ := h
  obtain ⟨hgrows, htyped⟩ := typeOf_grows hw htype hhost hheld
  exact .single hgrows htyped rfl ⟨rfl, rfl⟩

theorem parameterFields_makes (hw : w.Remembers)
    (h : Runs (parameterFields plan file request parameters) w fields w')
    (hhost : plan.Hosts file request)
    (hheld : ∀ p ∈ parameters, plan.glossary.Holds stated p.effectiveSchema) :
    Makes plan stated w w' file (Takes plan.glossary parameters none) fields := by
  induction parameters generalizing w fields with
  | nil =>
    obtain ⟨rfl, rfl⟩ := runs_pure.mp h
    exact .nothing fun _ _ => takes_nil
  | cons p rest ih =>
    obtain ⟨hp, hrest⟩ := List.forall_mem_cons.mp hheld
    simp only [parameterFields] at h
    split at h
    · rename_i carrier hplace
      have hbody : p.place ≠ "body" := fun hb => by simp [hb] at hplace
      rw [if_neg hbody] at hplace
      simp only [runs_bind, runs_pure] at h
      obtain ⟨field, w₁, hfield, others, _, hothers, rfl, rfl⟩ := h
      have hfirst := parameterField_makes hw hfield hhost hp
      refine (hfirst.append (ih (hw.grows hfirst.grows) hothers hrest)).congr fun c n => ?_
      rw [takes_cons, hplace, Option.some.injEq, eq_comm]
      tauto
    · rename_i hplace
      refine (ih hw h hrest).congr fun c n => ?_
      rw [takes_cons, or_iff_right]
      rintro ⟨hbody, hcarrier, -⟩
      rw [if_neg hbody, hcarrier] at hplace
      exact absurd hplace (by simp)

/-- A body that spreads brings in the properties of its object. -/
theorem takes_spread {b : Api.Body} {object : Api.Schema} (hspreads : spreads b.schema = true)
    (hobject : glossary.effectiveObject b.schema = .ok object) :
    Takes glossary [] (some b) carrier name ↔
      carrier = .body ∧ ∃ entry ∈ object.properties, name = entry.1 := by
  constructor
  · intro h
    cases h with
    | parameter hp _ _ => exact absurd hp List.not_mem_nil
    | property hbody _ hobject' hentry =>
      obtain rfl := Option.some.inj hbody
      obtain rfl := Except.ok.inj (hobject.symm.trans hobject')
      exact ⟨rfl, _, hentry, rfl⟩
    | body hbody hnot =>
      obtain rfl := Option.some.inj hbody
      exact absurd hspreads (by simp [hnot])
  · rintro ⟨rfl, entry, hentry, rfl⟩
    exact .property rfl hspreads hobject hentry

/-- Any other body is one input. -/
theorem takes_single {b : Api.Body} (hspreads : spreads b.schema = false) :
    Takes glossary [] (some b) carrier name ↔ carrier = .body ∧ name = "body" := by
  constructor
  · intro h
    cases h with
    | parameter hp _ _ => exact absurd hp List.not_mem_nil
    | property hbody hyes _ _ =>
      obtain rfl := Option.some.inj hbody
      exact absurd hyes (by simp [hspreads])
    | body _ _ => exact ⟨rfl, rfl⟩
  · rintro ⟨rfl, rfl⟩
    exact .body rfl hspreads

theorem fieldName_body : Naming.fieldName "body" = "body" := by decide

theorem propertyFields_makes {object : Api.Schema} (hw : w.Remembers)
    (h : Runs (object.properties.mapM fun (property, schema) => do
      let field ← propertyField (typeOf plan) file request object.required property schema
      return marked field .body property) w fields w') (hhost : plan.Hosts file request)
    (hobject : plan.glossary.ObjectOf stated object) :
    Makes plan stated w w' file (fun c n => c = .body ∧ ∃ entry ∈ object.properties, n = entry.1)
      fields := by
  have hrun := runs_mapM (R := Grows plan stated) (I := Remembers)
    (P := fun w (entry : String × Api.Schema) field =>
      Typed plan w file field.type ∧ field.default = none ∧ Carried .body entry.1 field) Grows.refl
    (fun h k => h.trans k) (fun hg hw => hw.grows hg)
    (fun hg hf => hf.imp_left fun ht => ht.mono hg.le) ?_ hw h
  · obtain ⟨hgrows, hall⟩ := hrun
    refine ⟨hgrows, fun f hf => ?_, fun f hf => ?_, fun carrier name htakes => ?_, fun f hf => ?_⟩
    · obtain ⟨entry, -, htyped, -⟩ := exists_left_of_forall₂ hall hf
      exact htyped
    · obtain ⟨entry, -, -, hdefault, -⟩ := exists_left_of_forall₂ hall hf
      exact hdefault
    · obtain ⟨rfl, entry, hentry, rfl⟩ := htakes
      obtain ⟨f, hf, -, -, hcarried⟩ := exists_right_of_forall₂ hall hentry
      exact ⟨f, hf, hcarried⟩
    · obtain ⟨entry, hentry, -, -, hcarried⟩ := exists_left_of_forall₂ hall hf
      exact ⟨.body, entry.1, ⟨rfl, entry, hentry, rfl⟩, hcarried⟩
  · rintro ⟨property, schema⟩ hentry w field w' hw h
    simp only [runs_bind, propertyField_runs, runs_pure] at h
    obtain ⟨_, _, ⟨type, htype, rfl⟩, rfl, rfl⟩ := h
    obtain ⟨hgrows, htyped⟩ :=
      typeOf_grows hw htype hhost (hobject.property hentry)
    exact ⟨hgrows, htyped, rfl, rfl, rfl⟩

/-- A body has a field for each property that it spreads, or a single one. -/
theorem bodyFields_makes {b : Api.Body} (hw : w.Remembers)
    (h : Runs (bodyFields plan file request b) w fields w') (hhost : plan.Hosts file request)
    (hheld : plan.glossary.Holds stated b.schema) :
    Makes plan stated w w' file (Takes plan.glossary [] (some b)) fields := by
  simp only [bodyFields] at h
  split at h
  · rename_i hspreads
    simp only [runs_bind, runs_lift] at h
    obtain ⟨object, _, ⟨hobject, rfl⟩, hfields⟩ := h
    exact (propertyFields_makes hw hfields hhost (.composed hheld hobject)).congr
      fun _ _ => takes_spread hspreads hobject
  · rename_i hspreads
    simp only [runs_bind, runs_pure] at h
    obtain ⟨type, _, htype, rfl, rfl⟩ := h
    obtain ⟨hgrows, htyped⟩ := typeOf_grows hw htype hhost hheld
    refine Makes.congr (.single hgrows htyped rfl ⟨fieldName_body.symm, rfl⟩) fun c n => ?_
    exact takes_single (by simpa using hspreads)

/-- Without a body there is nothing of it. -/
theorem optionalBodyFields_makes (hw : w.Remembers)
    (h : Runs (match body with
      | some body => bodyFields plan file request body
      | none => pure []) w fields w') (hhost : plan.Hosts file request)
    (hheld : ∀ b, body = some b → plan.glossary.Holds stated b.schema) :
    Makes plan stated w w' file (Takes plan.glossary [] body) fields := by
  cases body with
  | some b => exact bodyFields_makes hw h hhost (hheld b rfl)
  | none =>
    obtain ⟨rfl, rfl⟩ := runs_pure.mp h
    exact .nothing fun _ _ => takes_nil

theorem requestFields_runs
    (h : Runs (requestFields plan file request parameters body) w fields w') :
    ∃ own w₁ fromBody, Runs (parameterFields plan file request parameters) w own w₁ ∧
      Runs (match body with
        | some body => bodyFields plan file request body
        | none => pure []) w₁ fromBody w' ∧
      fields = renumber (sortFields (absorbAll joinField (own ++ fromBody) [])) := by
  simp only [requestFields, runs_bind] at h
  obtain ⟨own, w₁, hown, h⟩ := h
  cases body with
  | some b =>
    simp only [runs_bind, runs_pure] at h
    obtain ⟨fromBody, _, hbody, rfl, rfl⟩ := h
    exact ⟨own, w₁, fromBody, hown, hbody, rfl⟩
  | none =>
    simp only [runs_bind, runs_pure] at h
    obtain ⟨_, _, ⟨rfl, rfl⟩, rfl, rfl⟩ := h
    exact ⟨own, _, [], hown, runs_pure.mpr ⟨rfl, rfl⟩, rfl⟩

/-- The fields of a request answer to the inputs. -/
theorem requestFields_answers (hw : w.Remembers)
    (h : Runs (requestFields plan file request parameters body) w fields w')
    (hhost : plan.Hosts file request)
    (hparameters : ∀ p ∈ parameters, plan.glossary.Holds stated p.effectiveSchema)
    (hbodies : ∀ b, body = some b → plan.glossary.Holds stated b.schema) :
    Grows plan stated w w' ∧
      (∀ field ∈ fields, Typed plan w' file field.type ∧ field.default = none) ∧
      Answers (Takes plan.glossary parameters body) fields := by
  obtain ⟨own, w₁, fromBody, hown, hbody, rfl⟩ := requestFields_runs h
  have hfirst := parameterFields_makes hw hown hhost hparameters
  have hsecond := optionalBodyFields_makes (hw.grows hfirst.grows) hbody hhost hbodies
  have hmakes : Makes plan stated w w' file (Takes plan.glossary parameters body)
      (own ++ fromBody) := (hfirst.append hsecond).congr fun _ _ => takes_iff
  refine ⟨hmakes.grows, ?_, answers_joined hmakes.complete hmakes.only⟩
  refine forall_mem_renumber (fun _ _ h => h) fun field hfield => ?_
  refine forall_mem_absorbAll (P := fun f => Typed plan w' file f.type ∧ f.default = none)
    (fun e f he _ => ?_) (fun _ h => absurd h List.not_mem_nil)
    (fun f hf => ⟨hmakes.typed f hf, hmakes.defaults f hf⟩) field (mem_sortFields.mp hfield)
  rwa [joins_joinField.type, joins_joinField.default]

/-- The fields of a request are sorted by their names and then numbered. -/
theorem requestFields_ordered
    (h : Runs (requestFields plan file request parameters body) w fields w') :
    Numbered fields ∧ Ascending fields := by
  obtain ⟨own, w₁, fromBody, -, -, rfl⟩ := requestFields_runs h
  have hnodup : ((absorbAll joinField (own ++ fromBody) []).map Field.name).Nodup :=
    joins_joinField.nodup_absorbAll (own ++ fromBody) List.nodup_nil
  exact ⟨numbered_renumber _, ascending_renumber.mpr (ascending_sortFields hnodup)⟩

end RestThrift.Convert
