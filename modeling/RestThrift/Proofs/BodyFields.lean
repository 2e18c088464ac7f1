import Mathlib
import RestThrift.Proofs.Comparison
import RestThrift.Proofs.Coverage
import RestThrift.Proofs.KeyOrder
import RestThrift.Proofs.Progress

/-!
# Fields of a body

The properties of a body that spreads become fields of the request, like those of any other object
become fields of a struct: in the same order and with the same types. Only defaults are not looked
at. So the body has the fields of the struct without their defaults, and a default that has no
literal is no failure.
-/
namespace RestThrift

/-- The schema states a default other than null. -/
def Api.Schema.StatesDefault (s : Api.Schema) : Prop :=
  ∃ value, s.default = some value ∧ value.untagged ≠ .null

/-- A default that has no literal. -/
def ConversionError.IsDefault (cause : ConversionError) : Prop :=
  ∃ property reason, cause = .defaultValue property reason

/-- The field without its default. -/
def Field.unset (field : Field) : Field := { field with default := none }

namespace Convert

/-- The field of a request that stands for a property as the given field of a struct does: it is
marked as a part of the body, and not numbered yet. -/
def bodyField (entry : String × Api.Schema) (own : Field) : Field :=
  marked { own with id := 0 } .body entry.1

/-- The fields of a request that stand for the properties as the fields of a struct do. -/
def spreadFields (entries : List (String × Api.Schema)) (fields : List Field) : List Field :=
  List.zipWith bodyField entries fields

/-- An object body is read like a struct: its fields are those of the struct, each with its default,
but marked, and a default is reported where the struct reports one. -/
structure ReadsAlike (object : Api.Schema) (built : Except ConversionError (Message × Workspace))
    (read : Except ConversionError (List Field × Workspace)) : Prop where
  fields : ∀ m w fields w', built = .ok (m, w) → read = .ok (fields, w') →
    fields.length = m.fields.length ∧ fields = spreadFields object.properties m.fields
  failures : (∃ cause, read = .error cause ∧ cause.IsDefault) ↔
    ∃ cause, built = .error cause ∧ cause.IsDefault

/-- Both programs end in the same failures, but what is wrong with a default that the object's own
properties state stops only the first one. -/
def ownDefaults (object : Api.Schema) : Comparison where
  Matches := Eq
  Excuses cause := ∃ entry ∈ object.properties, ∃ value, entry.2.default = some value ∧
    defaultLiteral entry.1 value = .error cause
  endless := rfl

variable {plan : Plan} {file request property : String} {body : Api.Body}
  {s object : Api.Schema} {w w' : Workspace} {type : TypeRef} {m : Message} {fields : List Field}
  {entries : List (String × Api.Schema)}

/-! ## Defaults -/

theorem follows_refl {C : Comparison} (hC : C.Matches = Eq) {α : Type}
    (x : Except ConversionError α) : C.Follows id x x := by
  cases x with
  | ok a => exact .ok a
  | error cause => exact .error (hC ▸ rfl)

/-- Null has no default, tagged or not. -/
theorem defaultLiteral_eq_ok_none {value : Yaml.Value} :
    defaultLiteral property value = .ok none ↔ value.untagged = .null := by
  rw [defaultLiteral]
  split
  · rename_i hnull
    exact iff_of_true rfl hnull
  · rename_i hvalue
    refine iff_of_false ?_ hvalue
    cases literal value <;> simp

theorem defaultLiteral_eq_error {value : Yaml.Value} {cause : ConversionError}
    (h : defaultLiteral property value = .error cause) :
    value.untagged ≠ .null ∧ cause.IsDefault := by
  rw [defaultLiteral] at h
  split at h
  · cases h
  · rename_i hvalue
    refine ⟨hvalue, ?_⟩
    split at h
    · cases h
    · exact ⟨_, _, (Except.error.inj h).symm⟩

theorem untagged_ne_null_of_accepts {choice : Api.Choice} {value : Yaml.Value}
    (h : choice.accepts value = true) : value.untagged ≠ .null := by
  cases value with
  | null | tagged _ _ => cases choice <;> cases h
  | _ => simp [Yaml.Value.untagged]

theorem propertyDefault_eq_error {cause : ConversionError}
    (h : propertyDefault w file property s type = .error cause) :
    ∃ value, s.default = some value ∧ defaultLiteral property value = .error cause := by
  rw [propertyDefault] at h
  split at h
  · cases h
  · rename_i value hvalue
    refine ⟨value, hvalue, ?_⟩
    split at h
    · split at h
      · cases h
      · exact h
    · exact h

/-- A property has a default exactly if its schema states one. -/
theorem propertyDefault_eq_none_iff {default : Option Literal}
    (h : propertyDefault w file property s type = .ok default) :
    default = none ↔ ¬ s.StatesDefault := by
  rw [propertyDefault] at h
  split at h
  · rename_i hnone
    refine iff_of_true (Except.ok.inj h).symm ?_
    rintro ⟨value, hvalue, -⟩
    cases hnone.symm.trans hvalue
  · rename_i value hvalue
    have hstates : s.StatesDefault ↔ value.untagged ≠ .null := by
      constructor
      · rintro ⟨other, hother, hne⟩
        obtain rfl := Option.some.inj (hvalue.symm.trans hother)
        exact hne
      · exact fun hne => ⟨value, hvalue, hne⟩
    have hliteral : defaultLiteral property value = .ok default →
        (default = none ↔ ¬ s.StatesDefault) := by
      intro hliteral
      rw [hstates, not_not, ← @defaultLiteral_eq_ok_none property value, hliteral,
        Except.ok.injEq]
    split at h
    · split at h
      · rename_i hmember
        simp only [defaultMember?, Option.bind_eq_bind, Option.bind_eq_some_iff] at hmember
        obtain ⟨position, hposition, -⟩ := hmember
        obtain ⟨hlt, haccepts, -⟩ := List.findIdx?_eq_some_iff_getElem.mp hposition
        refine iff_of_false (by rw [← Except.ok.inj h]; simp) (not_not.mpr ?_)
        exact hstates.mpr (untagged_ne_null_of_accepts haccepts)
      · exact hliteral h
    · exact hliteral h

/-! ## Both readings -/

theorem spreadFields_renumber (entries : List (String × Api.Schema)) (fields : List Field) :
    spreadFields entries ((renumber fields).map Field.unset) =
      spreadFields entries (fields.map Field.unset) := by
  have hfrom : ∀ first, spreadFields entries ((renumberFrom first fields).map Field.unset) =
      spreadFields entries (fields.map Field.unset) := by
    induction fields generalizing entries with
    | nil => exact fun _ => rfl
    | cons field rest ih =>
      intro first
      cases entries with
      | nil => rfl
      | cons entry entries => exact congrArg (bodyField entry field.unset :: ·) (ih entries _)
  exact hfrom 1

/-- The field of a struct for a property. -/
def structField (plan : Plan) (file parent : String) (required : List String)
    (entry : String × Api.Schema) : Build Field := do
  let field ← propertyField (typeOf plan) file parent required entry.1 entry.2
  let default ← propertyDefault (← get) file entry.1 entry.2 field.type
  return { field with default }

/-- The field of a request for a property of its body. -/
def readField (plan : Plan) (file request : String) (required : List String)
    (entry : String × Api.Schema) : Build Field := do
  let field ← propertyField (typeOf plan) file request required entry.1 entry.2
  return marked field .body entry.1

/-- For one property a body reads what a struct reads, except for the default. -/
theorem readField_follows {entry : String × Api.Schema} (hentry : entry ∈ object.properties)
    (w : Workspace) :
    (ownDefaults object).Follows (fun out => (bodyField entry out.1.unset, out.2))
      ((structField plan file request object.required entry).run w)
      ((readField plan file request object.required entry).run w) := by
  simp only [structField, readField, propertyField, bind_assoc, pure_bind, StateT.run_bind,
    StateT.run_get]
  refine (follows_refl rfl _).bind fun out => ?_
  cases hdefault : propertyDefault out.2 file entry.1 entry.2 out.1 with
  | ok default =>
    let own : Field :=
      { name := Naming.fieldName entry.1, type := out.1
        requiredness := .ofRequired (object.required.contains entry.1), default
        comments := describe entry.2.description }
    exact .ok (own, out.2)
  | error cause =>
    obtain ⟨value, hvalue, hliteral⟩ := propertyDefault_eq_error hdefault
    have hexcused : (ownDefaults object).Excuses cause := ⟨entry, hentry, value, hvalue, hliteral⟩
    exact .excused hexcused _

theorem readFields_follow (hentries : ∀ entry ∈ entries, entry ∈ object.properties)
    (w : Workspace) :
    (ownDefaults object).Follows
      (fun out => (spreadFields entries (out.1.map Field.unset), out.2))
      ((entries.mapM (structField plan file request object.required)).run w)
      ((entries.mapM (readField plan file request object.required)).run w) := by
  induction entries generalizing w with
  | nil => exact .ok ([], w)
  | cons entry rest ih =>
    obtain ⟨hentry, hrest⟩ := List.forall_mem_cons.mp hentries
    simp only [List.mapM_cons, StateT.run_bind]
    refine (readField_follows hentry w).bind fun out => ?_
    exact (ih hrest out.2).bind fun others => .ok (out.1 :: others.1, others.2)

/-- A body reads what a struct of the same object reads, without the defaults. -/
theorem bodyFields_follow (hspreads : spreads body.schema = true)
    (hobject : plan.glossary.effectiveObject body.schema = .ok object) (w : Workspace) :
    (ownDefaults object).Follows
      (fun out => (spreadFields object.properties (out.1.fields.map Field.unset), out.2))
      ((structMessage (typeOf plan) file request object).run w)
      ((bodyFields plan file request body).run w) := by
  have hread : bodyFields plan file request body =
      object.properties.mapM (readField plan file request object.required) := by
    simp only [bodyFields, hspreads, if_true, hobject]
    rfl
  have hbuilt : structMessage (typeOf plan) file request object =
      object.properties.mapM (structField plan file request object.required) >>= fun fields =>
        pure { name := request, fqn := fqnOf file request, fields := renumber fields
               comments := describe object.description } := by
    simp only [structMessage, structFields, bind_assoc, pure_bind]
    rfl
  have hfields : (ownDefaults object).Follows
      (fun out => (spreadFields object.properties (out.1.map Field.unset), out.2))
      ((object.properties.mapM (structField plan file request object.required)).run w)
      ((object.properties.mapM (readField plan file request object.required)).run w) :=
    readFields_follow (fun _ h => h) w
  rw [hread, hbuilt, StateT.run_bind]
  generalize (object.properties.mapM (structField plan file request object.required)).run w = built,
    (object.properties.mapM (readField plan file request object.required)).run w = read at hfields
  cases hfields with
  | ok out =>
    let m : Message := { name := request, fqn := fqnOf file request, fields := renumber out.1
                         comments := describe object.description }
    rw [← spreadFields_renumber]
    exact .ok (m, out.2)
  | error h => exact .error h
  | excused h read => exact .excused h read

/-! ## Where both agree -/

/-- The fields of a struct have defaults exactly where the properties state them. -/
theorem structMessage_defaults
    (h : Runs (structMessage (typeOf plan) file request object) w m w') :
    List.Forall₂ (fun (entry : String × Api.Schema) own =>
      own.default = none ↔ ¬ entry.2.StatesDefault) object.properties m.fields := by
  obtain ⟨fields, hbuilt, rfl⟩ := structMessage_built
    (fun entry _ place => typeOf_adds plan place entry.2) h
  refine forall₂_renumber (fun _ _ _ hfield => hfield) (hbuilt.imp ?_)
  rintro entry field ⟨u, type, u', default, -, -, -, hdefault, rfl⟩
  exact propertyDefault_eq_none_iff hdefault

/-- Fields keep their defaults in a body exactly if they have none. -/
theorem spreadFields_unset_iff {P : String × Api.Schema → Prop} {owns : List Field}
    (h : List.Forall₂ (fun entry own => own.default = none ↔ ¬ P entry) entries owns) :
    spreadFields entries (owns.map Field.unset) = spreadFields entries owns ↔
      ∀ entry ∈ entries, ¬ P entry := by
  induction h with
  | nil => simp [spreadFields]
  | @cons entry own entries owns hhead _ ih =>
    have hfield : bodyField entry own.unset = bodyField entry own ↔ ¬ P entry := by
      rw [← hhead]
      constructor
      · exact fun heq => (congrArg Field.default heq).symm
      · intro hnone
        have hunset : own.unset = own := by
          rw [Field.unset, ← hnone]
        rw [hunset]
    rw [List.forall_mem_cons, ← hfield, ← ih]
    exact List.cons_eq_cons

theorem length_spreadFields (entries : List (String × Api.Schema)) (fields : List Field) :
    (spreadFields entries fields).length = min entries.length fields.length :=
  List.length_zipWith

/-- How a body is read, beside the struct of its object: as that is built, but without defaults, and
whatever is wrong with them. Both readings agree exactly where no default is stated or both fail
alike. -/
structure SpreadsLike (plan : Plan) (file request : String) (body : Api.Body) (w : Workspace)
    (object : Api.Schema) : Prop where
  follows : (ownDefaults object).Follows
    (fun out => (spreadFields object.properties (out.1.fields.map Field.unset), out.2))
    ((structMessage (typeOf plan) file request object).run w)
    ((bodyFields plan file request body).run w)
  alike_iff : ReadsAlike object ((structMessage (typeOf plan) file request object).run w)
      ((bodyFields plan file request body).run w) ↔
    (∀ entry ∈ object.properties, ¬ entry.2.StatesDefault) ∨
      ∃ cause, (bodyFields plan file request body).run w = .error cause ∧
        ((structMessage (typeOf plan) file request object).run w = .error cause ∨ cause.IsDefault)

theorem readsAlike_of_built (h : Runs (structMessage (typeOf plan) file request object) w m w') :
    ReadsAlike object (.ok (m, w'))
        (.ok (spreadFields object.properties (m.fields.map Field.unset), w')) ↔
      ∀ entry ∈ object.properties, ¬ entry.2.StatesDefault := by
  have hdefaults := structMessage_defaults h
  rw [← spreadFields_unset_iff hdefaults]
  constructor
  · exact fun halike => (halike.fields _ _ _ _ rfl rfl).2
  · intro heq
    refine ⟨fun m' _ fields _ hm hfields => ?_, by simp⟩
    obtain ⟨rfl, -⟩ := Prod.mk.inj (Except.ok.inj hm)
    obtain ⟨rfl, -⟩ := Prod.mk.inj (Except.ok.inj hfields)
    refine ⟨?_, heq⟩
    rw [length_spreadFields, List.length_map, hdefaults.length_eq, min_self]

theorem readsAlike_of_failed {cause : ConversionError} (hcause : cause.IsDefault)
    (read : Except ConversionError (List Field × Workspace)) :
    ReadsAlike object (.error cause) read ↔ ∃ other, read = .error other ∧ other.IsDefault := by
  constructor
  · exact fun halike => halike.failures.mpr ⟨cause, rfl, hcause⟩
  · intro hread
    exact ⟨fun _ _ _ _ hm => absurd hm (by simp), iff_of_true hread ⟨cause, rfl, hcause⟩⟩

theorem spreadsLike (hspreads : spreads body.schema = true)
    (hobject : plan.glossary.effectiveObject body.schema = .ok object) :
    SpreadsLike plan file request body w object where
  follows := bodyFields_follow hspreads hobject w
  alike_iff := by
    have hfollows := @bodyFields_follow plan file request body object hspreads hobject w
    have hbuilt : ∀ out, (structMessage (typeOf plan) file request object).run w = .ok out →
        Runs (structMessage (typeOf plan) file request object) w out.1 out.2 := fun _ h => h
    generalize (structMessage (typeOf plan) file request object).run w = built,
      (bodyFields plan file request body).run w = read at hfollows hbuilt ⊢
    cases hfollows with
    | ok out => simpa using readsAlike_of_built (hbuilt out rfl)
    | @error cause other hsame =>
      obtain rfl : cause = other := hsame
      exact iff_of_true ⟨fun _ _ _ _ hm => absurd hm (by simp), by simp⟩ (.inr ⟨_, rfl, .inl rfl⟩)
    | excused hexcused read =>
      obtain ⟨entry, hentry, value, hvalue, hliteral⟩ := hexcused
      obtain ⟨hne, hcause⟩ := defaultLiteral_eq_error hliteral
      have hstated : ¬ ∀ entry ∈ object.properties, ¬ entry.2.StatesDefault :=
        fun hnone => hnone entry hentry ⟨value, hvalue, hne⟩
      rw [readsAlike_of_failed hcause, or_iff_right hstated]
      refine exists_congr fun other => and_congr_right fun _ => (or_iff_right_of_imp ?_).symm
      intro hsame
      exact Except.error.inj hsame ▸ hcause

end Convert

/-- A body that spreads fails with its composition, or it is read like the struct of its object but
without defaults: both agree exactly where no property states a default or both fail alike. -/
theorem bodyFields_spread_like (plan : Convert.Plan) (file request : String) (body : Api.Body)
    (w : Convert.Workspace) (h : Convert.spreads body.schema = true) :
    (∃ cause, plan.glossary.effectiveObject body.schema = .error cause ∧
      (Convert.bodyFields plan file request body).run w = .error cause) ∨
    ∃ object, plan.glossary.effectiveObject body.schema = .ok object ∧
      Convert.SpreadsLike plan file request body w object := by
  cases hobject : plan.glossary.effectiveObject body.schema with
  | error cause =>
    refine .inl ⟨cause, rfl, ?_⟩
    simp only [Convert.bodyFields, h, if_true, hobject]
    rfl
  | ok object => exact .inr ⟨object, rfl, Convert.spreadsLike h hobject⟩

/-- The body has a property whose default has no literal. -/
def levelsDocument : List UInt8 :=
  ("swagger: \"2.0\"\npaths:\n  /levels:\n    post:\n      parameters:\n" ++
    "      - name: body\n        in: body\n        schema:\n          properties:\n" ++
    "            levels:\n              type: array\n              items:\n" ++
    "                type: integer\n              default: [1, null]\n" ++
    "      responses:\n        200:\n          schema:\n            type: string\n" ++
    "definitions: {}\n").toUTF8.data.toList

def levelsBody : Api.Body :=
  { schema := { properties := [("levels",
      { typeNames := some (.single "array"), items := some { typeNames := some (.single "integer") }
        default := some (.sequence [.number (.int 1), .null]) })] }
    required := false, description := none }

/-- The plan for the document, which has no named schemas. -/
def levelsPlan : Convert.Plan := (Convert.Plan.of "pets.yaml" {} []).1

theorem levelsBody_spreads_like :
    Convert.spreads levelsBody.schema = true ∧
      ((∃ cause, levelsPlan.glossary.effectiveObject levelsBody.schema = .error cause ∧
          (Convert.bodyFields levelsPlan "pets/pets.thrift" "PostLevelsRequest" levelsBody).run {} =
            .error cause) ∨
        ∃ object, levelsPlan.glossary.effectiveObject levelsBody.schema = .ok object ∧
          Convert.SpreadsLike levelsPlan "pets/pets.thrift" "PostLevelsRequest" levelsBody {}
            object) :=
  ⟨rfl, bodyFields_spread_like levelsPlan "pets/pets.thrift" "PostLevelsRequest" levelsBody {} rfl⟩

/-- The body is that of the document's only operation. -/
theorem levelsDocument_body :
    ∃ document operation, readDocument "pets.yaml" levelsDocument = .ok document ∧
      document.operation? "/levels" .post = some operation ∧
        operation.body? operation.parameters = some levelsBody := by
  have hparse : Yaml.parse? levelsDocument = some (object [("swagger", .text "2.0"),
      ("paths", object [("/levels", object [("post", object [
        ("parameters", .sequence [object [("name", .text "body"), ("in", .text "body"),
          ("schema", object [("properties", object [("levels", object [("type", .text "array"),
            ("items", object [("type", .text "integer")]),
            ("default", .sequence [.number (.int 1), .null])])])])]]),
        ("responses", .mapping [(.number (.int 200),
          object [("schema", object [("type", .text "string")])])])])])]),
      ("definitions", object [])]) := by
    decide +kernel
  exact ⟨_, _, (Convert.readDocument_eq hparse).trans rfl, rfl, rfl⟩

/-- The document is converted, although the struct of its body fails with a default. -/
theorem levelsDocument_drops_default :
    (∃ schema, convertDocument "pets.yaml" levelsDocument {} = .ok schema) ∧
      (∃ document operation, readDocument "pets.yaml" levelsDocument = .ok document ∧
        document.operation? "/levels" .post = some operation ∧
          operation.body? operation.parameters = some levelsBody) ∧
      Convert.spreads levelsBody.schema = true ∧
      ∃ object, levelsPlan.glossary.effectiveObject levelsBody.schema = .ok object ∧
        ¬ Convert.ReadsAlike object
          ((Convert.structMessage (Convert.typeOf levelsPlan) "pets/pets.thrift" "PostLevelsRequest"
            object).run {})
          ((Convert.bodyFields levelsPlan "pets/pets.thrift" "PostLevelsRequest"
            levelsBody).run {}) := by
  have hconverts : ∃ schema, convertDocument "pets.yaml" levelsDocument {} = .ok schema := by
    refine exists_of_isOk ?_
    decide +kernel
  have hread : ∃ out, (Convert.bodyFields levelsPlan "pets/pets.thrift" "PostLevelsRequest"
      levelsBody).run {} = .ok out := by
    refine exists_of_isOk ?_
    decide +kernel
  have hfailed : (Convert.structMessage (Convert.typeOf levelsPlan) "pets/pets.thrift"
      "PostLevelsRequest" levelsBody.schema).run {} =
        .error (.defaultValue "levels" (.unsupported "null")) := rfl
  refine ⟨hconverts, levelsDocument_body, rfl, levelsBody.schema, rfl, fun halike => ?_⟩
  obtain ⟨cause, hcause, -⟩ := halike.failures.mpr ⟨_, hfailed, _, _, rfl⟩
  obtain ⟨out, hout⟩ := hread
  cases hout.symm.trans hcause

end RestThrift
