import Mathlib
import RestThrift.Convert.Synthesis
import RestThrift.Proofs.Build
import RestThrift.Proofs.Growth

/-!
# Branches of synthesis

What is done for the type of a schema depends on the schema alone, and on the aliases that are being
replaced. A branch says what it is, up to the types of other schemas that it asks for; one step of
synthesis is to follow the branch of a schema. All that is asked for lies inside of the schema or is
referred to from there.
-/
namespace RestThrift.Convert

/-- What is done for the type of a schema. -/
inductive Branch
  | failure (cause : ConversionError)
  | done (type : TypeRef)
  | replaced (key : String) (target : Api.Schema)
  | sole (part : Api.Schema)
  | struct (object : Api.Schema)
  | listed
  | list (items : Api.Schema)
  | map (value : Api.Schema)

namespace Branch

/-- The branch of a reference. -/
def ofReference (plan : Plan) (inlining : List String) (file reference : String) : Branch :=
  match plan.glossary.target reference with
  | .error cause => .failure cause
  | .ok none => .done (Plan.danglingType (definitionKey reference))
  | .ok (some target) =>
    if target.isAlias && !inlining.contains (definitionKey reference) then
      .replaced (definitionKey reference) target
    else .done (plan.typeFor (definitionKey reference) file)

/-- The branch of a composition. -/
def ofParts (glossary : Glossary) (schema : Api.Schema) : Branch :=
  match schema.soleReference? with
  | some part => .sole part
  | none =>
    match glossary.effectiveObject schema with
    | .error cause => .failure cause
    | .ok object => .struct object

/-- The branch of an object that is not composed. -/
def ofObject (schema : Api.Schema) : Branch :=
  if !schema.properties.isEmpty then .struct schema
  else
    match schema.valueSchema?.filter fun value => !value.isUnconstrained with
    | some value => .map value
    | none => .done (.map .string .string)

/-- The branch of a schema that describes its values by a kind. -/
def ofKind (schema : Api.Schema) : Branch :=
  match schema.kind? with
  | some .array =>
    match schema.items with
    | some items => .list items
    | none => .done (.list .string)
  | none | some .object => ofObject schema
  | some kind => .done (scalarType kind schema.format)

/-- The branch of a schema in a file, while the aliases in `inlining` are being replaced. -/
def of (plan : Plan) (inlining : List String) (file : String) (schema : Api.Schema) : Branch :=
  match schema.reference with
  | some reference => ofReference plan inlining file reference
  | none =>
    if !schema.parts.isEmpty then ofParts plan.glossary schema
    else if !schema.choices.isEmpty then .listed
    else ofKind schema

/-- Follow a branch, where `typeOf` gives the types of other schemas. -/
def follow (typeOf : List String → Place → Api.Schema → Build TypeRef) (inlining : List String)
    (place : Place) (schema : Api.Schema) : Branch → Build TypeRef
  | failure cause => throw cause
  | done type => return type
  | replaced key target => typeOf (key :: inlining) place target
  | sole part => typeOf inlining place part
  | struct object => structType (typeOf inlining) place object
  | listed => enumType place schema
  | list items => do
    return .list (← typeOf inlining { place with field := Naming.itemName place.field } items)
  | map value => do
    return .map .string (← typeOf inlining { place with field := place.field ++ "Value" } value)

/-- The schemas whose types a branch asks for, each with the aliases that are replaced then. -/
inductive Asks (inlining : List String) : Branch → List String → Api.Schema → Prop
  | replaced {key : String} {target : Api.Schema} :
      Asks inlining (.replaced key target) (key :: inlining) target
  | sole {part : Api.Schema} : Asks inlining (.sole part) inlining part
  | property {object : Api.Schema} {entry : String × Api.Schema}
      (hentry : entry ∈ object.properties) : Asks inlining (.struct object) inlining entry.2
  | items {items : Api.Schema} : Asks inlining (.list items) inlining items
  | value {value : Api.Schema} : Asks inlining (.map value) inlining value

end Branch

section Following

variable {plan : Plan} {inlining : List String} {place : Place} {file : String}
  {schema : Api.Schema} {typeOf : List String → Place → Api.Schema → Build TypeRef}

theorem ofObject_follow :
    (Branch.ofObject schema).follow typeOf inlining place schema =
      objectType (typeOf inlining) place schema := by
  simp only [Branch.ofObject, objectType]
  cases schema.properties.isEmpty with
  | false => rfl
  | true => cases schema.valueSchema?.filter fun value => !value.isUnconstrained <;> rfl

theorem ofKind_follow :
    (Branch.ofKind schema).follow typeOf inlining place schema =
      match schema.kind? with
      | some .array =>
        match schema.items with
        | some items => do
          return .list (← typeOf inlining { place with field := Naming.itemName place.field } items)
        | none => return .list .string
      | none | some .object => objectType (typeOf inlining) place schema
      | some kind => return scalarType kind schema.format := by
  simp only [Branch.ofKind]
  cases schema.kind? with
  | none => exact ofObject_follow
  | some kind =>
    cases kind
    case array => cases schema.items <;> rfl
    case object => exact ofObject_follow
    all_goals rfl

/-- One step of synthesis follows the branch of the schema. -/
theorem typeWithin_succ (plan : Plan) (steps : Nat) (inlining : List String) (place : Place)
    (schema : Api.Schema) : typeWithin plan (steps + 1) inlining place schema =
      (Branch.of plan inlining place.file schema).follow (typeWithin plan steps) inlining place
        schema := by
  simp only [typeWithin, Branch.of]
  cases schema.reference with
  | some reference =>
    simp only [Branch.ofReference]
    cases plan.glossary.target reference with
    | error cause => rfl
    | ok target =>
      cases target with
      | none => rfl
      | some target =>
        change (if target.isAlias && !inlining.contains (definitionKey reference) then _ else _) =
          Branch.follow _ _ _ _
            (if target.isAlias && !inlining.contains (definitionKey reference) then _ else _)
        cases target.isAlias && !inlining.contains (definitionKey reference) <;> rfl
  | none =>
    simp only []
    cases schema.parts.isEmpty with
    | false =>
      simp only [Branch.ofParts]
      cases schema.soleReference? with
      | some part => rfl
      | none => cases plan.glossary.effectiveObject schema <;> rfl
    | true =>
      cases schema.choices.isEmpty with
      | false => rfl
      | true => exact ofKind_follow.symm

/-- To follow a branch takes no more than the types that it asks for. -/
theorem Branch.follow_congr {branch : Branch}
    {typeOf' : List String → Place → Api.Schema → Build TypeRef}
    (h : ∀ inlining' target, branch.Asks inlining inlining' target →
      ∀ place, typeOf inlining' place target = typeOf' inlining' place target) :
    branch.follow typeOf inlining place schema = branch.follow typeOf' inlining place schema := by
  cases branch with
  | failure cause => rfl
  | done type => rfl
  | replaced key target => exact h _ _ .replaced place
  | sole part => exact h _ _ .sole place
  | struct object =>
    have hfields : structFields (typeOf inlining) place.file place.base object =
        structFields (typeOf' inlining) place.file place.base object := by
      simp only [structFields]
      congr 1
      refine mapM_congr fun entry hentry => ?_
      simp only [propertyField, h _ _ (.property hentry)]
    simp only [Branch.follow, structType, structMessage]
    rw [← Place.base, hfields]
  | listed => rfl
  | list items => simp only [Branch.follow, h _ _ .items]
  | map value => simp only [Branch.follow, h _ _ .value]

theorem Branch.of_listed (hreference : schema.reference = none) (hparts : schema.parts = [])
    (hchoices : schema.choices ≠ []) : Branch.of plan inlining file schema = .listed := by
  simp [Branch.of, hreference, hparts, hchoices]

/-! ## Why a branch is chosen -/

theorem target_eq_some {glossary : Glossary} {reference : String}
    (h : glossary.target reference = .ok (some schema)) :
    glossary.schemas.get? (definitionKey reference) = some schema := by
  simp only [Glossary.target, Glossary.resolve?] at h
  split at h <;> simp_all

theorem target_eq_none {glossary : Glossary} {reference : String}
    (h : glossary.target reference = .ok none) :
    glossary.policy = .lenient ∧ glossary.schemas.get? (definitionKey reference) = none := by
  simp only [Glossary.target, Glossary.resolve?] at h
  split at h <;> simp_all

theorem target_eq_ok {glossary : Glossary} {reference : String}
    (h : glossary.resolve? reference = some schema) :
    glossary.target reference = .ok (some schema) := by
  rw [Glossary.target, h]

theorem soleReference?_mem {part : Api.Schema} (h : schema.soleReference? = some part) :
    part ∈ schema.parts := by
  rw [Api.Schema.soleReference?] at h
  split at h
  · rename_i only hparts
    rw [Option.ite_none_right_eq_some] at h
    rw [hparts, Option.some.inj h.2]
    exact List.mem_singleton_self part
  · cases h

/-- The branch of a schema, with all that decides for it. -/
inductive Branch.Chosen (plan : Plan) (inlining : List String) (file : String) (s : Api.Schema) :
    Branch → Prop
  | unknown {reference : String} {cause : ConversionError}
      (hreference : s.reference = some reference)
      (htarget : plan.glossary.target reference = .error cause) :
      Chosen plan inlining file s (.failure cause)
  | dangling {reference : String} (hreference : s.reference = some reference)
      (htarget : plan.glossary.target reference = .ok none) :
      Chosen plan inlining file s (.done (Plan.danglingType (definitionKey reference)))
  | replaced {reference : String} {target : Api.Schema} (hreference : s.reference = some reference)
      (htarget : plan.glossary.resolve? reference = some target) (halias : target.isAlias = true)
      (hnew : definitionKey reference ∉ inlining) :
      Chosen plan inlining file s (.replaced (definitionKey reference) target)
  | named {reference : String} {target : Api.Schema} (hreference : s.reference = some reference)
      (htarget : plan.glossary.resolve? reference = some target)
      (hstays : target.isAlias = true → definitionKey reference ∈ inlining) :
      Chosen plan inlining file s (.done (plan.typeFor (definitionKey reference) file))
  | sole {part : Api.Schema} (hreference : s.reference = none) (hparts : s.parts ≠ [])
      (hsole : s.soleReference? = some part) : Chosen plan inlining file s (.sole part)
  | unfit {cause : ConversionError} (hreference : s.reference = none) (hparts : s.parts ≠ [])
      (hsole : s.soleReference? = none)
      (hobject : plan.glossary.effectiveObject s = .error cause) :
      Chosen plan inlining file s (.failure cause)
  | composed {object : Api.Schema} (hreference : s.reference = none) (hparts : s.parts ≠ [])
      (hsole : s.soleReference? = none) (hobject : plan.glossary.effectiveObject s = .ok object) :
      Chosen plan inlining file s (.struct object)
  | listed (hreference : s.reference = none) (hparts : s.parts = []) (hchoices : s.choices ≠ []) :
      Chosen plan inlining file s .listed
  | list {items : Api.Schema} (hs : Describes s) (hkind : s.kind? = some .array)
      (hitems : s.items = some items) : Chosen plan inlining file s (.list items)
  | texts (hs : Describes s) (hkind : s.kind? = some .array) (hitems : s.items = none) :
      Chosen plan inlining file s (.done (.list .string))
  | object (hs : Describes s) (hobject : s.isObjectLike = true) (hproperties : s.properties ≠ []) :
      Chosen plan inlining file s (.struct s)
  | map {value : Api.Schema} (hs : Describes s) (hobject : s.isObjectLike = true)
      (hproperties : s.properties = []) (hvalue : s.valueSchema? = some value)
      (hconstrained : value.isUnconstrained = false) : Chosen plan inlining file s (.map value)
  | anything (hs : Describes s) (hobject : s.isObjectLike = true) (hproperties : s.properties = [])
      (hvalue : s.valueSchema?.filter (fun value => !value.isUnconstrained) = none) :
      Chosen plan inlining file s (.done (.map .string .string))
  | scalar {kind : Api.Kind} (hs : Describes s) (hkind : s.kind? = some kind)
      (hscalar : kind ≠ .array ∧ kind ≠ .object) :
      Chosen plan inlining file s (.done (scalarType kind s.format))

theorem ofReference_chosen {reference : String} (hreference : schema.reference = some reference) :
    Branch.Chosen plan inlining file schema (Branch.ofReference plan inlining file reference) := by
  rw [Branch.ofReference]
  split
  · rename_i htarget
    exact .unknown hreference htarget
  · rename_i htarget
    exact .dangling hreference htarget
  · rename_i target htarget
    split
    · rename_i hreplaced
      obtain ⟨halias, hnew⟩ := Bool.and_eq_true_iff.mp hreplaced
      exact .replaced hreference (target_eq_some htarget) halias (by simpa using hnew)
    · rename_i hstays
      exact .named hreference (target_eq_some htarget) fun halias => by simpa [halias] using hstays

theorem ofParts_chosen (hreference : schema.reference = none) (hparts : schema.parts ≠ []) :
    Branch.Chosen plan inlining file schema (Branch.ofParts plan.glossary schema) := by
  rw [Branch.ofParts]
  split
  · rename_i hsole
    exact .sole hreference hparts hsole
  · rename_i hsole
    split
    · rename_i hobject
      exact .unfit hreference hparts hsole hobject
    · rename_i hobject
      exact .composed hreference hparts hsole hobject

theorem ofObject_chosen (hs : Describes schema) (hobject : schema.isObjectLike = true) :
    Branch.Chosen plan inlining file schema (Branch.ofObject schema) := by
  rw [Branch.ofObject]
  split
  · rename_i hproperties
    exact .object hs hobject (by simpa using hproperties)
  · rename_i hproperties
    have hproperties : schema.properties = [] := by simpa using hproperties
    split
    · rename_i hvalue
      obtain ⟨hvalue, hconstrained⟩ := Option.filter_eq_some_iff.mp hvalue
      exact .map hs hobject hproperties hvalue (by simpa using hconstrained)
    · rename_i hvalue
      exact .anything hs hobject hproperties hvalue

theorem ofKind_chosen (hs : Describes schema) :
    Branch.Chosen plan inlining file schema (Branch.ofKind schema) := by
  rw [Branch.ofKind]
  split
  · rename_i hkind
    split
    · rename_i hitems
      exact .list hs hkind hitems
    · rename_i hitems
      exact .texts hs hkind hitems
  · rename_i hkind
    exact ofObject_chosen hs (by simp [Api.Schema.isObjectLike, hkind])
  · rename_i hkind
    exact ofObject_chosen hs (by simp [Api.Schema.isObjectLike, hkind])
  · rename_i kind harray hobject hkind
    exact .scalar hs hkind ⟨harray, hobject⟩

theorem Branch.of_chosen (plan : Plan) (inlining : List String) (file : String)
    (s : Api.Schema) : Chosen plan inlining file s (Branch.of plan inlining file s) := by
  rw [Branch.of]
  split
  · rename_i hreference
    exact ofReference_chosen hreference
  · rename_i hreference
    split
    · rename_i hparts
      exact ofParts_chosen hreference (by simpa using hparts)
    · rename_i hparts
      have hparts : s.parts = [] := by simpa using hparts
      split
      · rename_i hchoices
        exact .listed hreference hparts (by simpa using hchoices)
      · rename_i hchoices
        exact ofKind_chosen ⟨hreference, hparts, by simpa using hchoices⟩

theorem Branch.chosen {branch : Branch} (h : Branch.of plan inlining file schema = branch) :
    Chosen plan inlining file schema branch :=
  h ▸ of_chosen plan inlining file schema

/-! ## Runs -/

section Runs

variable {w w' : Workspace} {type : TypeRef} {inner : Api.Schema}

/-- What one step of synthesis does is to follow a branch that is chosen for the schema. -/
theorem typeWithin_runs {steps : Nat}
    (h : Runs (typeWithin plan (steps + 1) inlining place schema) w type w') :
    ∃ branch, Branch.Chosen plan inlining place.file schema branch ∧
      Runs (branch.follow (typeWithin plan steps) inlining place schema) w type w' := by
  rw [typeWithin_succ] at h
  exact ⟨_, Branch.of_chosen plan inlining place.file schema, h⟩

theorem Branch.list_runs :
    Runs ((Branch.list inner).follow typeOf inlining place schema) w type w' ↔
      ∃ element, type = .list element ∧
        Runs (typeOf inlining { place with field := Naming.itemName place.field } inner)
          w element w' := by
  simp only [Branch.follow, runs_bind, runs_pure]
  constructor
  · rintro ⟨element, _, h, rfl, rfl⟩
    exact ⟨element, rfl, h⟩
  · rintro ⟨element, rfl, h⟩
    exact ⟨element, w', h, rfl, rfl⟩

theorem Branch.map_runs :
    Runs ((Branch.map inner).follow typeOf inlining place schema) w type w' ↔
      ∃ value, type = .map .string value ∧
        Runs (typeOf inlining { place with field := place.field ++ "Value" } inner) w value w' := by
  simp only [Branch.follow, runs_bind, runs_pure]
  constructor
  · rintro ⟨value, _, h, rfl, rfl⟩
    exact ⟨value, rfl, h⟩
  · rintro ⟨value, rfl, h⟩
    exact ⟨value, w', h, rfl, rfl⟩

end Runs

/-! ## What is asked for -/

/-- What the type of a schema depends on, while the aliases in `inlining` are being replaced: the
schemas whose types are asked for. -/
inductive Glossary.Needs (g : Glossary) (inlining : List String) :
    Api.Schema → List String → Api.Schema → Prop
  | replaced {s target : Api.Schema} {reference : String}
      (hreference : s.reference = some reference) (htarget : g.resolve? reference = some target)
      (halias : target.isAlias = true) (hnew : definitionKey reference ∉ inlining) :
      Needs g inlining s (definitionKey reference :: inlining) target
  | sole {s part : Api.Schema} (hreference : s.reference = none)
      (hsole : s.soleReference? = some part) : Needs g inlining s inlining part
  | composed {s object : Api.Schema} {entry : String × Api.Schema} (hreference : s.reference = none)
      (hparts : s.parts ≠ []) (hsole : s.soleReference? = none)
      (hobject : g.effectiveObject s = .ok object) (hentry : entry ∈ object.properties) :
      Needs g inlining s inlining entry.2
  | property {s : Api.Schema} {entry : String × Api.Schema} (hreference : s.reference = none)
      (hentry : entry ∈ s.properties) : Needs g inlining s inlining entry.2
  | items {s inner : Api.Schema} (hreference : s.reference = none) (hitems : s.items = some inner) :
      Needs g inlining s inlining inner
  | value {s inner : Api.Schema} (hreference : s.reference = none)
      (hvalue : s.valueSchema? = some inner) : Needs g inlining s inlining inner

theorem Branch.Chosen.needs {branch : Branch} {inlining' : List String} {target : Api.Schema}
    (h : Chosen plan inlining file schema branch) (hasks : branch.Asks inlining inlining' target) :
    plan.glossary.Needs inlining schema inlining' target := by
  cases hasks with
  | replaced =>
    cases h with
    | replaced hreference htarget halias hnew => exact .replaced hreference htarget halias hnew
  | sole =>
    cases h with
    | sole hreference _ hsole => exact .sole hreference hsole
  | property hentry =>
    cases h with
    | composed hreference hparts hsole hobject =>
      exact .composed hreference hparts hsole hobject hentry
    | object hs _ _ => exact .property hs.reference hentry
  | items =>
    cases h with
    | list hs _ hitems => exact .items hs.reference hitems
  | value =>
    cases h with
    | map hs _ _ hvalue _ => exact .value hs.reference hvalue

theorem Branch.Asks.needs {inlining' : List String} {target : Api.Schema}
    (h : (Branch.of plan inlining file schema).Asks inlining inlining' target) :
    plan.glossary.Needs inlining schema inlining' target :=
  (of_chosen plan inlining file schema).needs h

end Following

end RestThrift.Convert
