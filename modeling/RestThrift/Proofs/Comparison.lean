import Mathlib
import RestThrift.Convert.Document
import RestThrift.Proofs.CommentedBuild
import RestThrift.Proofs.NamedSchema

/-!
# Two conversions side by side

Conversions of a document and of an edited one, and ones that differ in what becomes of a reference
without a target, take the same steps. A comparison says in which failures they may end;
it is stated for two programs, and is kept when programs are put together, so that it holds of each
builder in turn.
-/
namespace RestThrift.Convert

/-! ## Programs side by side -/

/-- Failures in which two runs may end together, and failures of the first run after which nothing
is asked of the second one. -/
structure Comparison where
  Matches : ConversionError → ConversionError → Prop
  Excuses : ConversionError → Prop
  endless : Matches .endlessComposition .endlessComposition

variable {C : Comparison}

/-- The second outcome is the first one with the result changed, as far as failures allow. -/
inductive Comparison.Follows (C : Comparison) {α β : Type} (φ : α → β) :
    Except ConversionError α → Except ConversionError β → Prop
  | ok (a : α) : Follows C φ (.ok a) (.ok (φ a))
  | error {cause other : ConversionError} (h : C.Matches cause other) :
      Follows C φ (.error cause) (.error other)
  | excused {cause : ConversionError} (h : C.Excuses cause) (y : Except ConversionError β) :
      Follows C φ (.error cause) y

theorem rel_ite {α β : Type} {R : α → β → Prop} {c : Prop} [Decidable c] {x x' : α} {y y' : β}
    (hx : c → R x y) (hy : ¬ c → R x' y') : R (if c then x else x') (if c then y else y') := by
  by_cases hc : c
  · simpa only [if_pos hc] using hx hc
  · simpa only [if_neg hc] using hy hc

section Follows

variable {α β γ δ : Type} {φ : α → β} {χ : γ → δ} {x : Except ConversionError α}
  {y : Except ConversionError β}

theorem Comparison.Follows.bind {g : α → Except ConversionError γ}
    {h : β → Except ConversionError δ} (hx : C.Follows φ x y)
    (hg : ∀ a, C.Follows χ (g a) (h (φ a))) : C.Follows χ (x >>= g) (y >>= h) := by
  cases hx with
  | ok a => exact hg a
  | error h => exact .error h
  | excused h y => exact .excused h _

theorem Comparison.Follows.mapM {ψ : γ → δ} {g : γ → Except ConversionError α}
    {h : δ → Except ConversionError β} {l : List γ}
    (hg : ∀ c ∈ l, C.Follows φ (g c) (h (ψ c))) :
    C.Follows (List.map φ) (l.mapM g) ((l.map ψ).mapM h) := by
  induction l with
  | nil => exact .ok []
  | cons c rest ih =>
    obtain ⟨hc, hrest⟩ := List.forall_mem_cons.mp hg
    simp only [List.map_cons, List.mapM_cons]
    exact hc.bind fun a => (ih hrest).bind fun others => .ok (a :: others)

end Follows

/-- Monads in which one program may follow another to the same result up to its comments. -/
class Compared (m : Type → Type) [Monad m] where
  Alike (C : Comparison) (φ : List Comment → List Comment) {α : Type} [Commented α]
    (x y : m α) : Prop
  alike_pure {C : Comparison} {φ : List Comment → List Comment} {α : Type} [Commented α] (a : α) :
    Alike C φ (pure a : m α) (pure (recomment φ a))
  alike_bind {C : Comparison} {φ : List Comment → List Comment} {α β : Type} [Commented α]
    [Commented β] {x y : m α} {g h : α → m β} (hx : Alike C φ x y)
    (hg : ∀ a, Alike C φ (g a) (h (recomment φ a))) : Alike C φ (x >>= g) (y >>= h)

open Compared (Alike alike_pure alike_bind)

instance : Compared (Except ConversionError) where
  Alike C φ _ _ x y := C.Follows (recomment φ) x y
  alike_pure a := .ok a
  alike_bind hx hg := hx.bind hg

instance {σ : Type} [Commented σ] {m : Type → Type} [Monad m] [Compared m] :
    Compared (StateT σ m) where
  Alike C φ _ _ x y := ∀ s, Alike C φ (x.run s) (y.run (recomment φ s))
  alike_pure a := fun s => alike_pure (a, s)
  alike_bind hx hg := fun s => alike_bind (hx s) fun out => hg out.1 out.2

section Programs

variable {m : Type → Type} [Monad m] [Compared m] {φ : List Comment → List Comment}
  {α β γ δ σ : Type} [Commented α] [Commented β] [Commented σ]

theorem alike_lift {x y : m α} (h : Alike C φ x y) :
    Alike C φ (liftM x : StateT σ m α) (liftM y) :=
  fun s => alike_bind h fun a => alike_pure (a, s)

theorem alike_get : Alike C φ (get : StateT σ m σ) get := fun s => alike_pure (s, s)

theorem alike_set (s : σ) : Alike C φ (set s : StateT σ m PUnit) (set (recomment φ s)) :=
  fun _ => alike_pure (PUnit.unit, s)

theorem alike_modify {f g : σ → σ} (h : ∀ s, g (recomment φ s) = recomment φ (f s)) :
    Alike C φ (modify f : StateT σ m PUnit) (modify g) := by
  intro s
  have hg : (modify g : StateT σ m PUnit).run (recomment φ s) =
      pure (recomment φ (PUnit.unit, f s)) := congrArg (fun s => pure (PUnit.unit, s)) (h s)
  rw [hg]
  exact alike_pure (PUnit.unit, f s)

theorem alike_mapM [LawfulMonad m] {ψ : γ → δ} {g : γ → m β} {h : δ → m β} {l : List γ}
    (hg : ∀ c ∈ l, Alike C φ (g c) (h (ψ c))) : Alike C φ (l.mapM g) ((l.map ψ).mapM h) := by
  induction l with
  | nil => exact alike_pure []
  | cons c rest ih =>
    obtain ⟨hc, hrest⟩ := List.forall_mem_cons.mp hg
    simp only [List.map_cons, List.mapM_cons]
    refine alike_bind hc fun b => ?_
    exact alike_bind (ih hrest) fun bs => alike_pure (b :: bs)

theorem alike_forM {g h : γ → m PUnit} {l : List γ} (hg : ∀ c ∈ l, Alike C φ (g c) (h c)) :
    Alike C φ (l.forM g) (l.forM h) := by
  induction l with
  | nil => exact alike_pure PUnit.unit
  | cons c rest ih =>
    obtain ⟨hc, hrest⟩ := List.forall_mem_cons.mp hg
    exact alike_bind hc fun _ => ih hrest

/-- A result that has been changed goes into what comes next. -/
theorem alike_lift_bind {ψ : γ → δ} {x : Except ConversionError γ} {y : Except ConversionError δ}
    {g : γ → StateT σ (Except ConversionError) α} {h : δ → StateT σ (Except ConversionError) α}
    (hx : C.Follows ψ x y) (hg : ∀ c, Alike C φ (g c) (h (ψ c))) :
    Alike C φ (liftM x >>= g) (liftM y >>= h) := by
  intro s
  have hlift : C.Follows (Prod.map ψ (recomment φ)) (x >>= fun c => pure (c, s))
      (y >>= fun d => pure (d, recomment φ s)) := hx.bind fun c => .ok (c, s)
  exact hlift.bind fun out => hg out.1 out.2

end Programs

/-! ## References and composed schemas -/

/-- Plans for a document and an edited one, and what becomes of its references and defaults. -/
structure Paired (C : Comparison) (e : Api.Edit) (p p' : Plan) : Prop where
  stem : p'.stem = p.stem
  names : p'.names = p.names
  schemas : p'.glossary.schemas = Table.mapValues (Api.Schema.edit e) p.glossary.schemas
  keys : KeepsKeys e
  target : ∀ reference, C.Follows (Option.map (Api.Schema.edit e))
    (p.glossary.target reference) (p'.glossary.target (e.reference reference))
  literal : ∀ property value, C.Follows id (defaultLiteral property value)
    (defaultLiteral property (e.default value))
  accepts : ∀ (choice : Api.Choice) value, choice.accepts (e.default value) = choice.accepts value

section Composition

variable {e : Api.Edit} {p p' : Plan}
  {follow follow' : String → Except ConversionError (List Api.Schema)}

mutual
theorem leavesWith_follows
    (hfollow : ∀ reference, C.Follows (List.map (Api.Schema.edit e)) (follow reference)
      (follow' (e.reference reference))) (s : Api.Schema) :
    C.Follows (List.map (Api.Schema.edit e)) (Glossary.leavesWith follow s)
      (Glossary.leavesWith follow' (s.edit e)) := by
  match s with
  | { reference := some reference, .. } =>
    simp only [Api.Schema.edit, Option.map_some, Glossary.leavesWith]
    exact hfollow reference
  | { reference := none, parts, .. } =>
    simp only [Api.Schema.edit, Glossary.leavesWith]
    refine (leavesOfParts_follows hfollow parts).bind fun inner => ?_
    have hself : ∀ s : Api.Schema, C.Follows (List.map (Api.Schema.edit e))
        (.ok (inner ++ [s]))
        (.ok (inner.map (Api.Schema.edit e) ++ [s.edit e])) := by
      intro s
      rw [← List.map_singleton, ← List.map_append]
      exact .ok _
    exact hself _

theorem leavesOfParts_follows
    (hfollow : ∀ reference, C.Follows (List.map (Api.Schema.edit e)) (follow reference)
      (follow' (e.reference reference))) (parts : List Api.Schema) :
    C.Follows (List.map (Api.Schema.edit e)) (Glossary.leavesOfParts follow parts)
      (Glossary.leavesOfParts follow' (Api.Schema.editParts e parts)) := by
  match parts with
  | [] => exact .ok []
  | part :: rest =>
    simp only [Api.Schema.editParts, Glossary.leavesOfParts]
    refine (leavesWith_follows hfollow part).bind fun first => ?_
    refine (leavesOfParts_follows hfollow rest).bind fun others => ?_
    rw [← List.map_append]
    exact .ok _
end

theorem leaves_follows (hp : Paired C e p p') (nesting : Nat) (path : List String)
    (s : Api.Schema) : C.Follows (List.map (Api.Schema.edit e))
      (p.glossary.leaves nesting path s)
      (p'.glossary.leaves nesting path (s.edit e)) := by
  induction nesting generalizing path s with
  | zero => exact leavesWith_follows (fun _ => .ok []) s
  | succ nesting ih =>
    refine leavesWith_follows (fun reference => ?_) s
    simp only [hp.keys reference]
    refine rel_ite (fun _ => .ok []) fun _ => (hp.target reference).bind fun target => ?_
    cases target with
    | none => exact .ok []
    | some schema => exact ih _ schema

theorem flatten_follows (hp : Paired C e p p') (parts : List Api.Schema) :
    C.Follows (Api.Schema.edit e) (p.glossary.flatten parts)
      (p'.glossary.flatten (parts.map (Api.Schema.edit e))) := by
  have hlength : p'.glossary.schemas.length = p.glossary.schemas.length := by
    rw [hp.schemas, Table.mapValues, List.length_map]
  rw [Glossary.flatten, Glossary.flatten, hlength]
  refine (Comparison.Follows.mapM fun part _ => leaves_follows hp _ _ part).bind fun leaves => ?_
  have hmerged : ((leaves.map (List.map (Api.Schema.edit e))).flatten).foldl
      Glossary.mergeLeaf {} = (leaves.flatten.foldl Glossary.mergeLeaf {}).edit e := by
    rw [← List.map_flatten, ← foldl_mergeLeaf_edit, Api.Schema.edit_eq {}]
    exact congrArg (fun description => List.foldl Glossary.mergeLeaf { description } _)
      Api.Edit.text_none.symm
  rw [hmerged]
  exact .ok _

theorem effectiveObject_follows (hp : Paired C e p p') (s : Api.Schema) :
    C.Follows (Api.Schema.edit e) (p.glossary.effectiveObject s)
      (p'.glossary.effectiveObject (s.edit e)) := by
  refine (flatten_follows hp [s]).bind fun merged => ?_
  have hobject : { merged.edit e with additional := (s.edit e).additional } =
      ({ merged with additional := s.additional } : Api.Schema).edit e := by
    rw [Api.Schema.additional_edit, Api.Schema.edit_eq merged,
      Api.Schema.edit_eq { merged with additional := s.additional }]
  rw [hobject]
  exact .ok _

end Composition

/-! ## Types -/

section Types

variable {e : Api.Edit} {p p' : Plan} {place : Place} {file parent name : String}
  {required : List String} {object : Api.Schema}

theorem Paired.mainFile (hp : Paired C e p p') : p'.mainFile = p.mainFile := by
  rw [Plan.mainFile, hp.stem, Plan.mainFile]

theorem Paired.typeFor (hp : Paired C e p p') (key file : String) :
    p'.typeFor key file = p.typeFor key file := by
  simp only [Plan.typeFor, hp.stem, hp.names]

theorem Paired.steps (hp : Paired C e p p') (schema : Api.Schema) :
    p'.steps (schema.edit e) = p.steps schema := by
  rw [Plan.steps, Plan.steps, hp.schemas, Api.Schema.size_edit,
    ← Api.Schema.editProperties_eq, Api.Schema.size_editProperties, Api.Schema.editProperties_eq,
    Table.mapValues, List.length_map]

theorem claim_alike (file base : String) :
    Alike C e.comments (claim file base) (claim file base) := by
  refine alike_bind alike_get fun w => ?_
  exact alike_bind (alike_set _) fun _ => alike_pure _

theorem enumType_alike (place : Place) (schema : Api.Schema) :
    Alike C e.comments (enumType place schema) (enumType place (schema.edit e)) := by
  simp only [enumType, enumeration_edit]
  refine alike_bind alike_get fun w => ?_
  rw [Workspace.inlineEnum?_recomment]
  cases w.inlineEnum? place.file (Naming.nestedName place.parent place.field) with
  | some name => exact alike_pure _
  | none =>
    refine alike_bind (claim_alike _ _) fun name => ?_
    refine alike_bind (alike_modify fun w => ?_) fun _ => alike_pure _
    exact Workspace.addEnum_recomment (w.rememberEnum _ _ name) _ _

theorem propertyDefault_alike (hp : Paired C e p p') (w : Workspace) (file property : String)
    (schema : Api.Schema) (type : TypeRef) :
    Alike C e.comments (propertyDefault w file property schema type)
      (propertyDefault (recomment e.comments w) file property (schema.edit e) type) := by
  have hmember : ∀ name value, defaultMember? (recomment e.comments w) file name schema.choices
      (e.default value) = defaultMember? w file name schema.choices value := by
    intro name value
    rw [Workspace.defaultMember?_recomment]
    simp only [defaultMember?, hp.accepts]
  simp only [propertyDefault, Api.Schema.default_edit, Api.Schema.choices_edit]
  cases schema.default with
  | none => exact alike_pure none
  | some value =>
    cases type with
    | named name fqn =>
      simp only [Option.map_some, hmember]
      cases defaultMember? w file name schema.choices value with
      | some member => exact alike_pure _
      | none => exact hp.literal property value
    | _ => exact hp.literal property value

variable {typeOf typeOf' : Place → Api.Schema → Build TypeRef}

theorem propertyField_alike
    (htypeOf : ∀ place schema,
      Alike C e.comments (typeOf place schema) (typeOf' place (schema.edit e)))
    (property : String) (schema : Api.Schema) :
    Alike C e.comments (propertyField typeOf file parent required property schema)
      (propertyField typeOf' file parent required property (schema.edit e)) := by
  simp only [propertyField, Api.Schema.description_edit, Api.Edit.describe_text]
  exact alike_bind (htypeOf _ schema) fun _ => alike_pure _

theorem structFields_alike (hp : Paired C e p p')
    (htypeOf : ∀ place schema,
      Alike C e.comments (typeOf place schema) (typeOf' place (schema.edit e))) :
    Alike C e.comments (structFields typeOf file parent object)
      (structFields typeOf' file parent (object.edit e)) := by
  simp only [structFields, Api.Schema.properties_edit, Api.Schema.required_edit]
  refine alike_bind (alike_mapM ?_) fun fields => ?_
  rotate_left
  · rw [renumber_recomment]
    exact alike_pure _
  rintro ⟨property, schema⟩ -
  refine alike_bind (propertyField_alike htypeOf property schema) fun field => ?_
  refine alike_bind alike_get fun w => ?_
  exact alike_bind (alike_lift (propertyDefault_alike hp w file property schema field.type))
    fun default => alike_pure _

theorem structMessage_alike (hp : Paired C e p p')
    (htypeOf : ∀ place schema,
      Alike C e.comments (typeOf place schema) (typeOf' place (schema.edit e))) :
    Alike C e.comments (structMessage typeOf file name object)
      (structMessage typeOf' file name (object.edit e)) := by
  simp only [structMessage, Api.Schema.description_edit, Api.Edit.describe_text]
  exact alike_bind (structFields_alike hp htypeOf) fun _ => alike_pure _

theorem structType_alike (hp : Paired C e p p')
    (htypeOf : ∀ place schema,
      Alike C e.comments (typeOf place schema) (typeOf' place (schema.edit e))) :
    Alike C e.comments (structType typeOf place object)
      (structType typeOf' place (object.edit e)) := by
  refine alike_bind (structMessage_alike hp htypeOf) fun message => ?_
  refine alike_bind alike_get fun w => ?_
  rw [Workspace.matching?_recomment]
  cases w.matching? place.file (Naming.nestedName place.parent place.field) message with
  | some name => exact alike_pure _
  | none =>
    refine alike_bind (claim_alike _ _) fun name => ?_
    refine alike_bind (alike_modify fun w => ?_) fun _ => alike_pure _
    exact w.addMessage_recomment _ { message with name, fqn := fqnOf place.file name }

theorem objectType_alike (hp : Paired C e p p')
    (htypeOf : ∀ place schema,
      Alike C e.comments (typeOf place schema) (typeOf' place (schema.edit e)))
    (place : Place) (schema : Api.Schema) :
    Alike C e.comments (objectType typeOf place schema)
      (objectType typeOf' place (schema.edit e)) := by
  simp only [objectType, Api.Schema.properties_edit, Api.Schema.isEmpty_mapValues,
    Api.Schema.valueSchema?_edit]
  refine rel_ite (fun _ => structType_alike hp htypeOf) fun _ => ?_
  cases schema.valueSchema? with
  | none => exact alike_pure _
  | some value =>
    simp only [Option.map_some, Option.filter_some, Api.Schema.isUnconstrained_edit]
    cases value.isUnconstrained with
    | true => exact alike_pure _
    | false => exact alike_bind (htypeOf _ value) fun _ => alike_pure _

theorem typeWithin_alike (hp : Paired C e p p') (steps : Nat) (inlining : List String)
    (place : Place) (schema : Api.Schema) :
    Alike C e.comments (typeWithin p steps inlining place schema)
      (typeWithin p' steps inlining place (schema.edit e)) := by
  induction steps generalizing inlining place schema with
  | zero => exact fun w => .error C.endless
  | succ steps ih =>
    -- Which branch is taken does not depend on an edit, so both runs take the same one.
    simp only [typeWithin, Api.Schema.reference_edit, Api.Schema.parts_edit,
      Api.Schema.choices_edit, Api.Schema.kind?_edit, Api.Schema.items_edit,
      Api.Schema.format_edit, Api.Schema.soleReference?_edit, hp.typeFor,
      List.isEmpty_map]
    cases schema.reference with
    | some reference =>
      simp only [Option.map_some, hp.keys reference]
      refine alike_lift_bind (hp.target reference) fun target => ?_
      cases target with
      | none => exact alike_pure (Plan.danglingType (definitionKey reference))
      | some target =>
        simp only [Option.map_some, Api.Schema.isAlias_edit]
        refine rel_ite (fun _ => ih _ place target) fun _ => ?_
        exact alike_pure (p.typeFor (definitionKey reference) place.file)
    | none =>
      refine rel_ite (fun _ => ?_) fun _ => ?_
      · cases schema.soleReference? with
        | some part => exact ih inlining place part
        | none =>
          refine alike_lift_bind (effectiveObject_follows hp schema) fun object => ?_
          exact structType_alike hp (ih inlining)
      refine rel_ite (fun _ => enumType_alike place schema) fun _ => ?_
      cases schema.kind? with
      | none => exact objectType_alike hp (ih inlining) place schema
      | some kind =>
        cases kind with
        | array =>
          cases schema.items with
          | some items => exact alike_bind (ih _ _ items) fun _ => alike_pure _
          | none => exact alike_pure _
        | object => exact objectType_alike hp (ih inlining) place schema
        | _ => exact alike_pure (scalarType _ schema.format)

theorem typeOf_alike (hp : Paired C e p p') (place : Place) (schema : Api.Schema) :
    Alike C e.comments (Convert.typeOf p place schema)
      (Convert.typeOf p' place (schema.edit e)) := by
  rw [Convert.typeOf, Convert.typeOf, hp.steps]
  exact typeWithin_alike hp (p.steps schema) [] place schema

theorem define_alike (hp : Paired C e p p') (key name : String) (schema : Api.Schema) :
    Alike C e.comments (define p key name schema) (define p' key name (schema.edit e)) := by
  simp only [define, hp.stem, hp.steps, Api.Schema.choices_edit,
    Api.Schema.isAlias_edit, Api.Schema.description_edit, Api.Edit.describe_text, enumeration_edit]
  refine rel_ite (fun _ => alike_modify fun w => ?_) fun _ => ?_
  · exact congrArg (fun w : Workspace => w.rememberEnum _ name name) (w.addEnum_recomment _ _)
  refine rel_ite (fun _ => ?_) fun _ => ?_
  · refine alike_bind (typeWithin_alike hp (p.steps schema) [key] _ schema) fun target => ?_
    refine alike_modify fun w => ?_
    exact w.addTypedef_recomment _ { name, target, comments := describe schema.description, .. }
  · refine alike_lift_bind (effectiveObject_follows hp schema) fun object => ?_
    refine alike_bind (structMessage_alike hp (typeOf_alike hp)) fun message => ?_
    exact alike_modify fun w => w.addMessage_recomment _ message

theorem defineAll_alike (hp : Paired C e p p') (todo : Table Api.Schema) :
    Alike C e.comments (defineAll p todo)
      (defineAll p' (Table.mapValues (Api.Schema.edit e) todo)) := by
  induction todo with
  | nil => exact alike_pure ()
  | cons entry rest ih =>
    obtain ⟨key, schema⟩ := entry
    change Alike C e.comments (defineAll p ((key, schema) :: rest)) (defineAll p'
      ((key, schema.edit e) :: Table.mapValues (Api.Schema.edit e) rest))
    simp only [defineAll, hp.names]
    cases p.names.get? key with
    | some name =>
      refine alike_bind (define_alike hp key name schema) fun _ => ?_
      exact ih
    | none => exact ih

end Types

/-! ## Requests and functions -/

section Operations

variable {e : Api.Edit} {p p' : Plan} {file request base service path : String}

theorem parameterField_alike (hp : Paired C e p p') (parameter : Api.Parameter)
    (carrier : Api.Carrier) : Alike C e.comments (parameterField p file request parameter carrier)
      (parameterField p' file request (parameter.edit e) carrier) := by
  simp only [parameterField, Api.Parameter.effectiveSchema_edit, Api.Parameter.description_edit,
    Api.Edit.describe_text]
  exact alike_bind (typeOf_alike hp _ parameter.effectiveSchema) fun _ => alike_pure _

theorem parameterFields_alike (hp : Paired C e p p') (parameters : List Api.Parameter) :
    Alike C e.comments (parameterFields p file request parameters)
      (parameterFields p' file request (parameters.map (Api.Parameter.edit e))) := by
  induction parameters with
  | nil => exact alike_pure []
  | cons parameter rest ih =>
    have hplace : (parameter.edit e).place = parameter.place := rfl
    simp only [List.map_cons, parameterFields, hplace]
    cases if parameter.place = "body" then none else Api.Carrier.ofName? parameter.place with
    | none => exact ih
    | some carrier =>
      refine alike_bind (parameterField_alike hp parameter carrier) fun field => ?_
      exact alike_bind ih fun others => alike_pure _

theorem spreads_edit (schema : Api.Schema) :
    spreads (schema.edit e) = spreads schema := by
  simp [spreads]

theorem bodyFields_alike (hp : Paired C e p p') (body : Api.Body) :
    Alike C e.comments (bodyFields p file request body)
      (bodyFields p' file request (body.edit e)) := by
  simp only [bodyFields, Api.Body.edit, spreads_edit, Api.Edit.describe_text]
  refine rel_ite (fun _ => ?_) fun _ => ?_
  · refine alike_lift_bind (effectiveObject_follows hp body.schema) fun object => ?_
    simp only [Api.Schema.properties_edit, Api.Schema.required_edit]
    refine alike_mapM fun entry _ => ?_
    exact alike_bind (propertyField_alike (typeOf_alike hp) entry.1 entry.2) fun field =>
      alike_pure _
  · exact alike_bind (typeOf_alike hp _ body.schema) fun type => alike_pure _

theorem joinedFields_alike (own others : List Field) : Alike C e.comments
    (pure (renumber (sortFields ((own ++ others).foldl
      (fun fields field => absorb joinField field fields) []))) : Build (List Field))
    (pure (renumber (sortFields ((recomment e.comments own ++ recomment e.comments others).foldl
      (fun fields field => absorb joinField field fields) [])))) := by
  rw [joinedFields_recomment]
  exact alike_pure _

theorem requestFields_alike (hp : Paired C e p p') (parameters : List Api.Parameter)
    (body : Option Api.Body) : Alike C e.comments (requestFields p file request parameters body)
      (requestFields p' file request (parameters.map (Api.Parameter.edit e))
        (body.map (Api.Body.edit e))) := by
  refine alike_bind (parameterFields_alike hp parameters) fun own => ?_
  cases body with
  | none =>
    refine alike_bind (alike_pure []) fun fromBody => ?_
    exact joinedFields_alike own fromBody
  | some body =>
    refine alike_bind (bodyFields_alike hp body) fun fromBody => ?_
    exact joinedFields_alike own fromBody

theorem requestName_alike (file base : String) :
    Alike C e.comments (requestName file base) (requestName file base) := by
  refine alike_bind alike_get fun outline => ?_
  cases outline.requestNames.get? base with
  | some name => exact alike_pure name
  | none =>
    refine alike_bind (alike_lift (claim_alike _ _)) fun name => ?_
    exact alike_bind (alike_modify fun _ => rfl) fun _ => alike_pure name

theorem buildRequest_alike (hp : Paired C e p p') (item : Api.PathItem)
    (operation : Api.Operation) : Alike C e.comments (buildRequest p file base item operation)
      (buildRequest p' file base (item.edit e) (operation.edit e)) := by
  simp only [buildRequest, Api.Operation.effectiveParameters_edit,
    Api.Operation.body?_edit]
  refine alike_bind (requestName_alike file base) fun name => ?_
  refine alike_bind (alike_lift (requestFields_alike hp _ _)) fun fields => ?_
  refine alike_bind (alike_modify fun o => ?_) fun _ => alike_pure name
  have hmessage := recomment_request (e := e) name (fqnOf file name) fields
  have hadded := addRequest_recomment (φ := e.comments) o.requests name
    { name, fqn := fqnOf file name, fields }
  rw [hmessage] at hadded
  exact congrArg (fun requests => { recomment e.comments o with requests }) hadded

theorem thrownFields_alike (hp : Paired C e p p') (responses : Table Api.Response) :
    Alike C e.comments (thrownFields p file responses)
      (thrownFields p' file (Table.mapValues (Api.Response.edit e) responses)) := by
  induction responses with
  | nil => exact alike_pure []
  | cons entry rest ih =>
    obtain ⟨code, response⟩ := entry
    change Alike C e.comments (thrownFields p file ((code, response) :: rest)) (thrownFields p' file
      ((code, response.edit e) :: Table.mapValues (Api.Response.edit e) rest))
    simp only [thrownFields, Api.Response.effectiveSchema?_edit, Api.Response.description_edit,
    Api.Edit.describe_text]
    cases Api.isSuccess code with
    | true => exact ih
    | false =>
      cases response.effectiveSchema? with
      | none => exact ih
      | some schema =>
        refine alike_bind (typeOf_alike hp _ schema) fun type => ?_
        exact alike_bind ih fun others => alike_pure _

theorem responseType_alike (hp : Paired C e p p') (operation : Api.Operation) :
    Alike C e.comments (responseType p file base operation)
      (responseType p' file base (operation.edit e)) := by
  simp only [responseType, Api.Operation.successSchema?_edit]
  cases operation.successSchema? with
  | none => exact alike_pure _
  | some success =>
    simp only [Option.map_some, resultSchema_edit hp.keys hp.schemas]
    exact typeOf_alike hp _ (resultSchema p.glossary success).1

theorem buildFunction_alike (hp : Paired C e p p') (item : Api.PathItem) (method : Api.Method)
    (operation : Api.Operation) (returnType : TypeRef) :
    Alike C e.comments (buildFunction p service path item method operation returnType)
      (buildFunction p' service path (item.edit e) method (operation.edit e)
        returnType) := by
  simp only [buildFunction, hp.mainFile, Api.Operation.documentation?_edit,
    Api.Edit.describe_text]
  refine alike_bind alike_get fun outline => ?_
  refine alike_bind (buildRequest_alike hp item operation) fun request => ?_
  refine alike_bind (alike_lift (thrownFields_alike hp operation.responses)) fun throws => ?_
  have hnames : (recomment e.comments outline).functions.map ServiceFunction.name =
      outline.functions.map ServiceFunction.name := names_recomment outline.functions
  rw [hnames, renumber_recomment]
  refine alike_modify fun o => ?_
  rw [← addFunction_recomment, recomment_function (by simp)]
  rfl

theorem buildOperation_alike (hp : Paired C e p p') (item : Api.PathItem) (method : Api.Method) :
    Alike C e.comments (buildOperation p service path item method)
      (buildOperation p' service path (item.edit e) method) := by
  simp only [buildOperation, hp.mainFile, Api.PathItem.operation?_edit]
  cases item.operation? method with
  | none => exact alike_pure ()
  | some operation =>
    refine alike_bind (alike_lift (responseType_alike hp operation)) fun returnType => ?_
    exact rel_ite (fun _ => alike_pure ()) fun _ =>
      buildFunction_alike hp item method operation returnType

theorem buildService_alike (hp : Paired C e p p') (service : String) (paths : Table Api.PathItem) :
    Alike C e.comments (buildService p service paths)
      (buildService p' service (Table.mapValues (Api.PathItem.edit e) paths)) := by
  induction paths with
  | nil => exact alike_pure ()
  | cons entry rest ih =>
    obtain ⟨path, item⟩ := entry
    exact alike_bind (alike_forM fun method _ => buildOperation_alike hp item method) fun _ => ih

end Operations

/-! ## Conversions -/

theorem convert_alike {e : Api.Edit} {policy policy' : ReferencePolicy}
    (file : String) (document : Api.Document) (options : Options) (hkeys : KeepsKeys e)
    (htarget : ∀ reference, C.Follows (Option.map (Api.Schema.edit e))
      (Glossary.target ⟨document.schemas, policy⟩ reference)
      (Glossary.target ⟨(document.edit e).schemas, policy'⟩ (e.reference reference)))
    (hliteral : ∀ property value, C.Follows id (defaultLiteral property value)
      (defaultLiteral property (e.default value)))
    (haccepts : ∀ (choice : Api.Choice) value,
      choice.accepts (e.default value) = choice.accepts value) :
    C.Follows (recomment e.comments) (convert file document { options with policy })
      (convert file (document.edit e) { options with policy := policy' }) := by
  let first := Plan.of file { options with policy } document.schemas
  let second := Plan.of file { options with policy := policy' } (document.edit e).schemas
  have hsame : (document.edit e).schemas.keys = document.schemas.keys := Table.keys_mapValues
  have hreserved : second.2 = first.2 ∧ second.1.names = first.1.names := by
    simp only [first, second, Plan.of, hsame, and_self]
  have hp : Paired C e first.1 second.1 :=
    ⟨rfl, hreserved.2, rfl, hkeys, htarget, hliteral, haccepts⟩
  have hassemble : ∀ outline w, C.Follows (recomment e.comments)
      (.ok (assemble first.1 { options with policy } document.version outline w))
      (.ok (assemble second.1 { options with policy := policy' } document.version
        (recomment e.comments outline) (recomment e.comments w))) := by
    intro outline w
    rw [assemble_recomment]
    exact .ok _
  have hplanned : second.2 = recomment e.comments first.2 :=
    hreserved.1.trans (Workspace.recomment_of_files_nil (files_reserve _ _ _)).symm
  have hdefine : Alike C e.comments ((defineAll first.1 document.schemas).run first.2)
      ((defineAll second.1 (document.edit e).schemas).run second.2) := by
    rw [hplanned]
    exact defineAll_alike hp document.schemas first.2
  have hservice := buildService_alike hp options.serviceName document.paths {}
  refine alike_bind hdefine fun defined => alike_bind (hservice defined.2) fun served => ?_
  exact hassemble served.1.2 served.2

/-! ## Agreement -/

theorem toOption_bind {ε α β : Type} (x : Except ε α) (f : α → Except ε β) :
    (x >>= f).toOption = x.toOption >>= fun a => (f a).toOption := by
  cases x <;> rfl

theorem toOption_map {ε α β : Type} (f : α → β) (x : Except ε α) :
    (x.map f).toOption = x.toOption.map f := by
  cases x <;> rfl

/-- Two runs end with the same result or fail both, for whatever causes. -/
def agreement : Comparison where
  Matches _ _ := True
  Excuses _ := False
  endless := trivial

theorem agreement_iff {α β : Type} {φ : α → β} {x : Except ConversionError α}
    {y : Except ConversionError β} : agreement.Follows φ x y ↔ y.toOption = x.toOption.map φ := by
  constructor
  · rintro (_ | _ | h)
    · rfl
    · rfl
    · exact h.elim
  · intro h
    cases x with
    | ok a =>
      cases y with
      | ok b => exact Option.some.inj h ▸ .ok a
      | error other => cases h
    | error cause =>
      cases y with
      | ok b => cases h
      | error other => exact .error trivial

theorem cases_of_toOption_eq {ε δ α : Type} {x : Except ε α} {y : Except δ α}
    (h : x.toOption = y.toOption) :
    (∃ a, x = .ok a ∧ y = .ok a) ∨ ∃ cause other, x = .error cause ∧ y = .error other := by
  cases x with
  | ok a =>
    cases y with
    | ok b => exact .inl ⟨b, congrArg _ (Option.some.inj h), rfl⟩
    | error other => cases h
  | error cause =>
    cases y with
    | ok b => cases h
    | error other => exact .inr ⟨cause, other, rfl, rfl⟩

theorem target_edit {e : Api.Edit} (hkeys : KeepsKeys e) (schemas : Table Api.Schema)
    (policy : ReferencePolicy) (reference : String) :
    agreement.Follows (Option.map (Api.Schema.edit e)) (Glossary.target ⟨schemas, policy⟩ reference)
      (Glossary.target ⟨Table.mapValues (Api.Schema.edit e) schemas, policy⟩
        (e.reference reference)) := by
  rw [Glossary.target, Glossary.target, Glossary.resolve?, Glossary.resolve?, hkeys,
    Table.get?_mapValues]
  cases schemas.get? (definitionKey reference) with
  | some schema => exact .ok (some schema)
  | none =>
    cases policy with
    | lenient => exact .ok none
    | strict => exact .error trivial

/-- An edited document is converted to the same schema up to comments, if references name the same
schemas and default values have the same literals. -/
theorem convert_edited {e : Api.Edit} (file : String) (document : Api.Document) (options : Options)
    (hkeys : KeepsKeys e)
    (hliteral : ∀ property value, (defaultLiteral property (e.default value)).toOption =
      (defaultLiteral property value).toOption)
    (haccepts : ∀ (choice : Api.Choice) value, choice.accepts (e.default value) =
      choice.accepts value) :
    (convert file (document.edit e) options).toOption =
      (convert file document options).toOption.map (recomment e.comments) := by
  have hfollows : ∀ property value, agreement.Follows id (defaultLiteral property value)
      (defaultLiteral property (e.default value)) := by
    intro property value
    rw [agreement_iff, Option.map_id, id, hliteral]
  exact agreement_iff.mp (convert_alike file document options hkeys
    (target_edit hkeys document.schemas options.policy) hfollows haccepts)

/-- An edit that keeps the descriptions keeps the comments too. -/
theorem convert_edit {e : Api.Edit} (file : String) (document : Api.Document) (options : Options)
    (hkeeps : e.keeps = true) (hkeys : KeepsKeys e)
    (hliteral : ∀ property value, (defaultLiteral property (e.default value)).toOption =
      (defaultLiteral property value).toOption)
    (haccepts : ∀ (choice : Api.Choice) value, choice.accepts (e.default value) =
      choice.accepts value) :
    (convert file (document.edit e) options).toOption =
      (convert file document options).toOption := by
  rw [convert_edited file document options hkeys hliteral haccepts, e.comments_of_keeps hkeeps,
    funext recomment_id, Option.map_id']

end RestThrift.Convert
