import Mathlib
import RestThrift.Proofs.Includes
import RestThrift.Proofs.Progress

/-!
# Names without a definition

A name in a type may stand for no definition. Such a name is kept of a reference: the document holds
a schema that refers to a key which it does not define, and the name is what this key would ask for.
All programs of a conversion keep up that this is true of the types in the workspace, so that it is
true of the schema.
-/
namespace RestThrift.Convert

open Workspace

/-! ## Programs that keep an invariant -/

section Ensures

variable {σ ε α β : Type} {I : σ → Prop} {P : α → Prop} {Q : β → Prop}

/-- A successful run keeps the invariant, and its result is as described. -/
def Ensures (I : σ → Prop) (x : StateT σ (Except ε) α) (P : α → Prop) : Prop :=
  ∀ ⦃s a s'⦄, I s → Runs x s a s' → I s' ∧ P a

theorem ensures_pure {a : α} (h : P a) : Ensures I (pure a : StateT σ (Except ε) α) P := by
  intro s b s' hs hrun
  obtain ⟨rfl, rfl⟩ := runs_pure.mp hrun
  exact ⟨hs, h⟩

theorem ensures_get : Ensures I (get : StateT σ (Except ε) σ) I := by
  intro s a s' hs hrun
  obtain ⟨rfl, rfl⟩ := runs_get.mp hrun
  exact ⟨hs, hs⟩

theorem ensures_lift {x : Except ε α} (h : ∀ a, x = .ok a → P a) :
    Ensures I (liftM x : StateT σ (Except ε) α) P := by
  intro s a s' hs hrun
  obtain ⟨hx, rfl⟩ := runs_lift.mp hrun
  exact ⟨hs, h a hx⟩

theorem ensures_throw (cause : ε) : Ensures I (throw cause : StateT σ (Except ε) α) P :=
  fun _ _ _ _ hrun => absurd hrun runs_throw

theorem Ensures.bind {x : StateT σ (Except ε) α} {f : α → StateT σ (Except ε) β}
    (hx : Ensures I x P) (hf : ∀ a, P a → Ensures I (f a) Q) : Ensures I (x >>= f) Q := by
  intro s b s' hs hrun
  obtain ⟨a, t, ha, hb⟩ := runs_bind.mp hrun
  obtain ⟨ht, hPa⟩ := hx hs ha
  exact hf a hPa ht hb

theorem ensures_mapM {f : α → StateT σ (Except ε) β} {as : List α}
    (h : ∀ a ∈ as, Ensures I (f a) Q) : Ensures I (as.mapM f) fun bs => ∀ b ∈ bs, Q b := by
  induction as with
  | nil => exact ensures_pure fun _ hb => absurd hb List.not_mem_nil
  | cons a rest ih =>
    obtain ⟨ha, hrest⟩ := List.forall_mem_cons.mp h
    rw [List.mapM_cons]
    exact ha.bind fun b hb => (ih hrest).bind fun bs hbs =>
      ensures_pure (List.forall_mem_cons.mpr ⟨hb, hbs⟩)

end Ensures

/-! ## Names in types -/

variable {g : Glossary} {stated : Api.Schema → Prop} {plan : Plan} {w : Workspace} {t : TypeRef}
  {s object target : Api.Schema} {file reference : String} {place : Place}
  {inlining inlining' : List String}

/-- The name is what the key of a missing schema would ask for, to which some schema refers. -/
def Glossary.KeepsName (g : Glossary) (stated : Api.Schema → Prop) (written : String) : Prop :=
  ∃ s reference, g.Holds stated s ∧ s.reference = some reference ∧ g.resolve? reference = none ∧
    written = wantedName (definitionKey reference)

/-- All names in the type that stand for no definition are kept of references. -/
def Traced (g : Glossary) (stated : Api.Schema → Prop) (t : TypeRef) : Prop :=
  ∀ written, .named written none ∈ t.walk → g.KeepsName stated written

theorem traced_primitive (p : Primitive) : Traced g stated (.primitive p) :=
  fun _ hn => nomatch List.mem_singleton.mp hn

/-- A name with a full name stands for a definition. -/
theorem traced_some (name fqn : String) : Traced g stated (.named name (some fqn)) :=
  fun _ hn => nomatch List.mem_singleton.mp hn

theorem Traced.list (h : Traced g stated t) : Traced g stated (.list t) := by
  intro written hn
  rcases List.mem_cons.mp hn with hn | hn
  · cases hn
  · exact h written hn

theorem Traced.map (h : Traced g stated t) : Traced g stated (.map .string t) := by
  intro written hn
  rcases List.mem_cons.mp hn with hn | hn
  · cases hn
  · exact (List.mem_append.mp hn).elim (traced_primitive _ written) (h written)

theorem traced_scalarType (kind : Api.Kind) (format : Option String) :
    Traced g stated (scalarType kind format) := by
  cases kind <;> exact traced_primitive _

theorem traced_danglingType (hs : g.Holds stated s) (hreference : s.reference = some reference)
    (htarget : g.resolve? reference = none) :
    Traced g stated (Plan.danglingType (definitionKey reference)) := by
  intro written hn
  obtain ⟨hwritten, -⟩ := TypeRef.named.inj (List.mem_singleton.mp hn)
  exact ⟨s, reference, hs, hreference, htarget, hwritten⟩

/-- A type that is known at once keeps the name of a missing schema or has no such name. -/
theorem Branch.Chosen.traced (h : Branch.Chosen plan inlining file s (.done t))
    (hs : plan.glossary.Holds stated s) : Traced plan.glossary stated t := by
  cases h with
  | dangling hreference htarget =>
    exact traced_danglingType hs hreference (target_eq_none htarget).2
  | named _ _ _ => exact traced_some _ _
  | texts _ _ _ => exact (traced_primitive _).list
  | anything _ _ _ _ => exact (traced_primitive _).map
  | scalar _ _ _ => exact traced_scalarType _ _

/-- The schemas whose types are asked for are held by the document, too. -/
theorem Glossary.Needs.holds (h : g.Needs inlining s inlining' target) (hs : g.Holds stated s) :
    g.Holds stated target := by
  cases h with
  | replaced _ htarget _ _ => exact .named (Table.mem_of_get? htarget)
  | sole _ hsole => exact .part hs (soleReference?_mem hsole)
  | composed _ _ _ hobject hentry => exact (Glossary.ObjectOf.composed hs hobject).property hentry
  | property _ hentry => exact .property hs hentry
  | items _ hitems => exact .items hs hitems
  | value _ hvalue => exact .value hs hvalue

/-! ## Definitions -/

def FieldsTraced (g : Glossary) (stated : Api.Schema → Prop) (fields : List Field) : Prop :=
  ∀ field ∈ fields, Traced g stated field.type

theorem fieldsTraced_nil : FieldsTraced g stated [] :=
  fun _ hfield => absurd hfield List.not_mem_nil

theorem FieldsTraced.renumber {fields : List Field} (h : FieldsTraced g stated fields) :
    FieldsTraced g stated (renumber fields) :=
  forall_mem_renumber (fun _ _ h => h) h

def DefinitionsTraced (g : Glossary) (stated : Api.Schema → Prop) (d : Definitions) : Prop :=
  ∀ t ∈ mentioned d, Traced g stated t

def WorkspaceTraced (g : Glossary) (stated : Api.Schema → Prop) (w : Workspace) : Prop :=
  ∀ entry ∈ w.files, DefinitionsTraced g stated entry.2

theorem definitionsTraced_empty : DefinitionsTraced g stated {} :=
  fun _ ht => absurd ht List.not_mem_nil

theorem definitionsTraced_iff {d : Definitions} : DefinitionsTraced g stated d ↔
    (∀ s ∈ d.services, ∀ f ∈ s.functions, ∀ t ∈ f.types, Traced g stated t) ∧
      (∀ m ∈ d.messages, FieldsTraced g stated m.fields) ∧
        ∀ t ∈ d.typedefs, Traced g stated t.target := by
  simp only [DefinitionsTraced, mentioned, List.forall_mem_append, List.forall_mem_flatMap,
    List.forall_mem_map, FieldsTraced, and_assoc]
  rfl

theorem WorkspaceTraced.modify {change : Definitions → Definitions}
    (h : WorkspaceTraced g stated w)
    (hchange : ∀ d, DefinitionsTraced g stated d → DefinitionsTraced g stated (change d)) :
    WorkspaceTraced g stated (w.modify file change) :=
  Table.forall_mem_update definitionsTraced_empty hchange h

theorem WorkspaceTraced.addMessage {m : Message} (h : WorkspaceTraced g stated w)
    (hm : FieldsTraced g stated m.fields) : WorkspaceTraced g stated (w.addMessage file m) := by
  refine h.modify fun d hd => ?_
  obtain ⟨hservices, hmessages, htypedefs⟩ := definitionsTraced_iff.mp hd
  exact definitionsTraced_iff.mpr ⟨hservices,
    List.forall_mem_append.mpr ⟨hmessages, List.forall_mem_singleton.mpr hm⟩, htypedefs⟩

theorem WorkspaceTraced.addTypedef {t : Typedef} (h : WorkspaceTraced g stated w)
    (ht : Traced g stated t.target) : WorkspaceTraced g stated (w.addTypedef file t) := by
  refine h.modify fun d hd => ?_
  obtain ⟨hservices, hmessages, htypedefs⟩ := definitionsTraced_iff.mp hd
  exact definitionsTraced_iff.mpr ⟨hservices, hmessages,
    List.forall_mem_append.mpr ⟨htypedefs, List.forall_mem_singleton.mpr ht⟩⟩

theorem WorkspaceTraced.addEnum {e : Enumeration} (h : WorkspaceTraced g stated w) :
    WorkspaceTraced g stated (w.addEnum file e) :=
  h.modify fun _ hd => hd

/-! ## Synthesis -/

/-- Programs that keep the types of the workspace traced. -/
abbrev Traces (g : Glossary) (stated : Api.Schema → Prop) {α : Type} (x : Build α)
    (P : α → Prop) : Prop :=
  Ensures (WorkspaceTraced g stated) x P

section Synthesis

variable {typeOf : Place → Api.Schema → Build TypeRef}

theorem enumType_traces (place : Place) (s : Api.Schema) :
    Traces g stated (enumType place s) (Traced g stated) := by
  intro w type w' hw h
  rcases enumType_runs h with ⟨name, -, rfl, rfl⟩ | ⟨-, rfl, rfl⟩
  · exact ⟨hw, traced_some _ _⟩
  · refine ⟨WorkspaceTraced.addEnum ?_, traced_some _ _⟩
    -- Claiming and remembering a name leaves the definitions as they are.
    exact hw

theorem propertyField_traces {property : String} {required : List String} (file parent : String)
    (h : ∀ place, Traces g stated (typeOf place s) (Traced g stated)) :
    Traces g stated (propertyField typeOf file parent required property s)
      fun field => Traced g stated field.type :=
  (h _).bind fun _ htype => ensures_pure htype

theorem structMessage_traces (file name : String) (h : ∀ entry ∈ object.properties, ∀ place,
      Traces g stated (typeOf place entry.2) (Traced g stated)) :
    Traces g stated (structMessage typeOf file name object)
      fun message => FieldsTraced g stated message.fields := by
  have hfields : Traces g stated (structFields typeOf file name object)
      (FieldsTraced g stated) := by
    refine Ensures.bind (ensures_mapM fun entry hentry => ?_) fun _ hfields =>
      ensures_pure (FieldsTraced.renumber hfields)
    exact (propertyField_traces file name (h entry hentry)).bind fun field hfield =>
      ensures_get.bind fun _ _ => (ensures_lift fun _ _ => trivial).bind fun _ _ =>
        ensures_pure hfield
  exact hfields.bind fun _ hfields => ensures_pure hfields

theorem structType_traces (place : Place) (h : ∀ entry ∈ object.properties, ∀ place,
      Traces g stated (typeOf place entry.2) (Traced g stated)) :
    Traces g stated (structType typeOf place object) (Traced g stated) := by
  intro w type w' hw hrun
  obtain ⟨message, w₁, hmessage, hcases⟩ := structType_runs hrun
  obtain ⟨hw₁, hfields⟩ := structMessage_traces place.file place.base h hw hmessage
  rcases hcases with ⟨name, -, rfl, rfl⟩ | ⟨-, rfl, rfl⟩
  · exact ⟨hw₁, traced_some _ _⟩
  · refine ⟨WorkspaceTraced.addMessage ?_ hfields, traced_some _ _⟩
    exact hw₁

/-- To follow a branch keeps types traced, if all types do that it asks for. -/
theorem Branch.Chosen.follow_traces {branch : Branch}
    {typeOf : List String → Place → Api.Schema → Build TypeRef}
    (hbranch : Branch.Chosen plan inlining place.file s branch)
    (hs : plan.glossary.Holds stated s)
    (h : ∀ inlining' target, branch.Asks inlining inlining' target → ∀ place,
      Traces plan.glossary stated (typeOf inlining' place target) (Traced plan.glossary stated)) :
    Traces plan.glossary stated (branch.follow typeOf inlining place s)
      (Traced plan.glossary stated) := by
  cases branch with
  | failure cause => exact ensures_throw cause
  | done type => exact ensures_pure (hbranch.traced hs)
  | replaced key target => exact h _ _ .replaced place
  | sole part => exact h _ _ .sole place
  | struct object => exact structType_traces place fun entry hentry => h _ _ (.property hentry)
  | listed => exact enumType_traces place s
  | list items => exact (h _ _ .items _).bind fun _ htype => ensures_pure htype.list
  | map value => exact (h _ _ .value _).bind fun _ htype => ensures_pure htype.map

theorem typeWithin_traces (steps : Nat) (inlining : List String) (place : Place)
    (hs : plan.glossary.Holds stated s) :
    Traces plan.glossary stated (typeWithin plan steps inlining place s)
      (Traced plan.glossary stated) := by
  induction steps generalizing inlining place s with
  | zero => exact ensures_throw _
  | succ steps ih =>
    rw [typeWithin_succ]
    have hchosen := Branch.of_chosen plan inlining place.file s
    exact hchosen.follow_traces hs fun inlining' target hasks place =>
      ih inlining' place (hasks.needs.holds hs)

end Synthesis

theorem typeOf_traces (place : Place) (hs : plan.glossary.Holds stated s) :
    Traces plan.glossary stated (typeOf plan place s) (Traced plan.glossary stated) :=
  typeWithin_traces _ [] place hs

/-! ## Named schemas -/

theorem define_traces (key name : String) (hs : plan.glossary.Holds stated s) :
    Traces plan.glossary stated (define plan key name s) fun _ => True := by
  intro w _ w' hw h
  rcases define_runs h with ⟨-, rfl⟩ | ⟨-, -, target, w₁, htarget, rfl⟩ |
    ⟨-, -, object, message, w₁, hobject, hmessage, rfl⟩
  · exact ⟨hw.addEnum, trivial⟩
  · obtain ⟨hw₁, htype⟩ := typeWithin_traces _ _ _ hs hw htarget
    exact ⟨hw₁.addTypedef htype, trivial⟩
  · obtain ⟨hw₁, hfields⟩ := structMessage_traces _ _ (fun entry hentry place =>
      typeOf_traces place ((Glossary.ObjectOf.composed hs hobject).property hentry)) hw hmessage
    exact ⟨hw₁.addMessage hfields, trivial⟩

theorem defineAll_traces {schemas : Table Api.Schema}
    (h : ∀ entry ∈ schemas, plan.glossary.Holds stated entry.2) :
    Traces plan.glossary stated (defineAll plan schemas) fun _ => True := by
  induction schemas with
  | nil => exact ensures_pure trivial
  | cons entry rest ih =>
    obtain ⟨hentry, hrest⟩ := List.forall_mem_cons.mp h
    simp only [defineAll]
    cases plan.names.get? entry.1 with
    | some name => exact (define_traces entry.1 name hentry).bind fun _ _ => ih hrest
    | none => exact ih hrest

/-! ## Operations -/

section Requests

variable {request : String} {parameters : List Api.Parameter} {body : Option Api.Body}

theorem parameterFields_traces (file request : String)
    (h : ∀ p ∈ parameters, plan.glossary.Holds stated p.effectiveSchema) :
    Traces plan.glossary stated (parameterFields plan file request parameters)
      (FieldsTraced plan.glossary stated) := by
  induction parameters with
  | nil => exact ensures_pure fieldsTraced_nil
  | cons p rest ih =>
    obtain ⟨hp, hrest⟩ := List.forall_mem_cons.mp h
    rw [parameterFields]
    split
    · have hfield : ∀ carrier, Traces plan.glossary stated
          (parameterField plan file request p carrier)
          fun field => Traced plan.glossary stated field.type :=
        fun carrier => (typeOf_traces _ hp).bind fun _ htype => ensures_pure htype
      exact (hfield _).bind fun _ hfirst => (ih hrest).bind fun _ hothers =>
        ensures_pure (List.forall_mem_cons.mpr ⟨hfirst, hothers⟩)
    · exact ih hrest

theorem bodyFields_traces {b : Api.Body} (file request : String)
    (h : plan.glossary.Holds stated b.schema) :
    Traces plan.glossary stated (bodyFields plan file request b)
      (FieldsTraced plan.glossary stated) := by
  rw [bodyFields]
  split
  · refine (ensures_lift fun _ hobject => hobject).bind fun object hobject =>
      ensures_mapM fun entry hentry => ?_
    have hentry := (Glossary.ObjectOf.composed h hobject).property hentry
    exact (propertyField_traces file request fun place => typeOf_traces place hentry).bind
      fun _ hfield => ensures_pure hfield
  · exact (typeOf_traces _ h).bind fun _ htype =>
      ensures_pure (List.forall_mem_singleton.mpr htype)

theorem requestFields_traces (file request : String)
    (hparameters : ∀ p ∈ parameters, plan.glossary.Holds stated p.effectiveSchema)
    (hbody : ∀ b ∈ body, plan.glossary.Holds stated b.schema) :
    Traces plan.glossary stated (requestFields plan file request parameters body)
      (FieldsTraced plan.glossary stated) := by
  intro w fields w' hw h
  obtain ⟨own, w₁, fromBody, hown, hrest, rfl⟩ := requestFields_runs h
  obtain ⟨hw₁, hown⟩ := parameterFields_traces file request hparameters hw hown
  have hsecond : WorkspaceTraced plan.glossary stated w' ∧
      FieldsTraced plan.glossary stated fromBody := by
    cases body with
    | some b => exact bodyFields_traces file request (hbody b rfl) hw₁ hrest
    | none => exact ensures_pure fieldsTraced_nil hw₁ hrest
  refine ⟨hsecond.1, FieldsTraced.renumber fun field hfield => ?_⟩
  refine forall_mem_absorbAll (P := fun f => Traced plan.glossary stated f.type)
    (fun e f he _ => ?_) fieldsTraced_nil (List.forall_mem_append.mpr ⟨hown, hsecond.2⟩) field
    (mem_sortFields.mp hfield)
  -- A field of a name that is there keeps its type.
  rwa [joins_joinField.type]

theorem thrownFields_traces {responses : Table Api.Response} (file : String)
    (h : ∀ entry ∈ responses, ∀ schema, entry.2.effectiveSchema? = some schema →
      plan.glossary.Holds stated schema) :
    Traces plan.glossary stated (thrownFields plan file responses)
      (FieldsTraced plan.glossary stated) := by
  induction responses with
  | nil => exact ensures_pure fieldsTraced_nil
  | cons entry rest ih =>
    obtain ⟨hentry, hrest⟩ := List.forall_mem_cons.mp h
    rw [thrownFields]
    split
    · rename_i schema hschema
      have hstated : entry.2.effectiveSchema? = some schema := by
        split at hschema
        · cases hschema
        · exact hschema
      exact (typeOf_traces _ (hentry schema hstated)).bind fun _ htype =>
        (ih hrest).bind fun _ hothers =>
          ensures_pure (List.forall_mem_cons.mpr ⟨htype, hothers⟩)
    · exact ih hrest

theorem responseType_traces {operation : Api.Operation} (file base : String)
    (h : ∀ schema, operation.successSchema? = some schema → plan.glossary.Holds stated schema) :
    Traces plan.glossary stated (responseType plan file base operation)
      (Traced plan.glossary stated) := by
  rw [responseType]
  split
  · rename_i success hsuccess
    exact typeOf_traces _ (holds_resultSchema (h success hsuccess))
  · exact ensures_pure (traced_primitive _)

end Requests

/-! ## Services -/

def VariantsTraced (g : Glossary) (stated : Api.Schema → Prop) (variants : List Message) : Prop :=
  ∀ m ∈ variants, FieldsTraced g stated m.fields

/-- The types of functions and requests that are outlined so far. -/
structure OutlineTraced (g : Glossary) (stated : Api.Schema → Prop) (o : Outline) : Prop where
  functions : ∀ f ∈ o.functions, ∀ t ∈ f.types, Traced g stated t
  requests : ∀ entry ∈ o.requests, VariantsTraced g stated entry.2

/-- Programs that keep the types of outline and workspace traced. -/
def TracesService (g : Glossary) (stated : Api.Schema → Prop) (x : BuildService Unit) : Prop :=
  ∀ ⦃o w o' w'⦄, OutlineTraced g stated o → WorkspaceTraced g stated w → Serves x o w () o' w' →
    OutlineTraced g stated o' ∧ WorkspaceTraced g stated w'

theorem tracesService_pure : TracesService g stated (pure ()) := by
  intro o w o' w' ho hw hrun
  obtain ⟨-, rfl, rfl⟩ := serves_pure.mp hrun
  exact ⟨ho, hw⟩

theorem TracesService.bind {x y : BuildService Unit} (hx : TracesService g stated x)
    (hy : TracesService g stated y) : TracesService g stated (do x; y) := by
  intro o w o' w' ho hw hrun
  obtain ⟨_, o₁, w₁, hfirst, hrest⟩ := serves_bind.mp hrun
  obtain ⟨ho₁, hw₁⟩ := hx ho hw hfirst
  exact hy ho₁ hw₁ hrest

section Services

variable {o o' : Outline} {w' : Workspace} {item : Api.PathItem} {operation : Api.Operation}
  {base request service path : String} {method : Api.Method} {returnType : TypeRef}

theorem requestName_traced (ho : OutlineTraced g stated o) (hw : WorkspaceTraced g stated w)
    (h : Serves (requestName file base) o w request o' w') :
    OutlineTraced g stated o' ∧ WorkspaceTraced g stated w' := by
  rcases requestName_serves h with ⟨-, rfl, rfl⟩ | ⟨-, -, rfl, rfl⟩
  · exact ⟨ho, hw⟩
  · exact ⟨⟨ho.functions, ho.requests⟩, hw⟩

theorem buildRequest_traced (hstated : ∀ s, operation.States item s → stated s)
    (ho : OutlineTraced plan.glossary stated o) (hw : WorkspaceTraced plan.glossary stated w)
    (h : Serves (buildRequest plan file base item operation) o w request o' w') :
    OutlineTraced plan.glossary stated o' ∧ WorkspaceTraced plan.glossary stated w' := by
  obtain ⟨o₁, w₁, fields, hname, hfields, rfl⟩ := buildRequest_serves h
  obtain ⟨ho₁, hw₁⟩ := requestName_traced ho hw hname
  obtain ⟨hw', hfields⟩ := requestFields_traces file request
    (fun _ hp => .stated (hstated _ (.parameter hp)))
    (fun _ hb => .stated (hstated _ (.body hb))) hw₁ hfields
  refine ⟨⟨ho₁.functions, ?_⟩, hw'⟩
  exact Table.forall_mem_update (P := VariantsTraced plan.glossary stated)
    (fun _ hm => absurd hm List.not_mem_nil)
    (fun _ hvariants =>
      List.forall_mem_append.mpr ⟨hvariants, List.forall_mem_singleton.mpr hfields⟩)
    ho₁.requests

theorem buildFunction_traces (hstated : ∀ s, operation.States item s → stated s)
    (hreturns : Traced plan.glossary stated returnType) :
    TracesService plan.glossary stated
      (buildFunction plan service path item method operation returnType) := by
  intro o w o' w' ho hw h
  obtain ⟨request, o₁, w₁, throws, hrequest, hthrows, rfl⟩ := buildFunction_serves h
  obtain ⟨ho₁, hw₁⟩ := buildRequest_traced hstated ho hw hrequest
  obtain ⟨hw', hthrows⟩ := thrownFields_traces plan.mainFile
    (fun _ hentry _ hschema => .stated (hstated _ (.response hentry hschema))) hw₁ hthrows
  have hparameter : Traced plan.glossary stated (localType plan.mainFile request) :=
    traced_some _ _
  refine ⟨⟨List.forall_mem_append.mpr ⟨ho₁.functions, List.forall_mem_singleton.mpr ?_⟩,
    ho₁.requests⟩, hw'⟩
  exact List.forall_mem_cons.mpr ⟨hreturns,
    List.forall_mem_map.mpr (List.forall_mem_cons.mpr ⟨hparameter, hthrows.renumber⟩)⟩

theorem buildOperation_traces (hstated : ∀ operation, item.operation? method = some operation →
      ∀ s, operation.States item s → stated s) :
    TracesService plan.glossary stated (buildOperation plan service path item method) := by
  rw [buildOperation]
  cases hoperation : item.operation? method with
  | none => exact tracesService_pure
  | some operation =>
    have hstated := hstated operation hoperation
    intro o w o' w' ho hw h
    simp only [serves_bind, serves_lift] at h
    obtain ⟨returnType, _, w₁, ⟨hresponse, rfl⟩, h⟩ := h
    obtain ⟨hw₁, hreturns⟩ := responseType_traces _ _ (fun _ hschema =>
      .stated (hstated _ (Api.Operation.states_successSchema hschema))) hw hresponse
    split at h
    · exact tracesService_pure ho hw₁ h
    · exact buildFunction_traces hstated hreturns ho hw₁ h

theorem forM_traces (methods : List Api.Method) (hstated : ∀ method operation,
      item.operation? method = some operation → ∀ s, operation.States item s → stated s) :
    TracesService plan.glossary stated
      (methods.forM (buildOperation plan service path item)) := by
  induction methods with
  | nil => exact tracesService_pure
  | cons method rest ih => exact (buildOperation_traces (hstated method)).bind ih

theorem buildService_traces {paths : Table Api.PathItem}
    (hstated : ∀ s, Api.StatedIn paths s → stated s) :
    TracesService plan.glossary stated (buildService plan service paths) := by
  induction paths with
  | nil => exact tracesService_pure
  | cons entry rest ih =>
    have hitem : ∀ method operation, entry.2.operation? method = some operation →
        ∀ s, operation.States entry.2 s → stated s := fun method operation hoperation s hs =>
      hstated s ⟨entry, List.mem_cons_self, method, operation, hoperation, hs⟩
    have hrest : ∀ s, Api.StatedIn rest s → stated s := fun s ⟨other, hother, hs⟩ =>
      hstated s ⟨other, List.mem_cons_of_mem _ hother, hs⟩
    exact (forM_traces Api.Method.all hitem).bind (ih hrest)

end Services

/-! ## Whole conversions -/

section Schemas

variable {options : Options} {edition service : String} {o : Outline} {schema : Schema} {f : File}

theorem united_traced (h : OutlineTraced g stated o) :
    ∀ m ∈ o.united, FieldsTraced g stated m.fields := by
  intro m hm
  obtain ⟨entry, hentry, hu⟩ := List.mem_filterMap.mp hm
  refine uniteAll_keeps (P := fun m => FieldsTraced g stated m.fields)
    (fun first other hfirst hother => ?_) (h.requests entry hentry) hu
  refine forall_mem_unite (P := fun f => Traced g stated f.type) (fun _ _ h => h)
    (fun e f he _ => ?_) hfirst hother
  rwa [joins_uniteField.type]

/-- The main file gets types of the outline. -/
theorem completed_traced {d : Definitions} (hd : DefinitionsTraced g stated d)
    (ho : OutlineTraced g stated o) :
    DefinitionsTraced g stated (completed plan service o d) := by
  obtain ⟨hservices, hmessages, htypedefs⟩ := definitionsTraced_iff.mp hd
  refine definitionsTraced_iff.mpr ⟨List.forall_mem_append.mpr ⟨hservices, fun s hs => ?_⟩,
    List.forall_mem_append.mpr ⟨hmessages, united_traced ho⟩, htypedefs⟩
  rw [serviceOf] at hs
  split at hs
  · cases hs
  · rw [List.mem_singleton.mp hs]
    exact ho.functions

/-- What is assembled has the types of the workspace and of the outline. -/
theorem assemble_traced (hw : WorkspaceTraced g stated w) (ho : OutlineTraced g stated o)
    (hf : f ∈ (assemble plan options edition o w).files) :
    DefinitionsTraced g stated f.definitions := by
  obtain ⟨path, d, hentry, -, hd, -⟩ := mem_assemble_files hf
  have hall : ∀ entry ∈ w.files.update plan.mainFile {} (completed plan options.serviceName o),
      DefinitionsTraced g stated entry.2 :=
    Table.forall_mem_update definitionsTraced_empty (fun _ hd => completed_traced hd ho) hw
  intro t ht
  rw [hd, mem_mentioned_of_rearranges d.sorted_rearranges] at ht
  exact hall _ hentry t ht

/-- A name without a definition in a schema is kept of a reference that the document makes. -/
theorem Course.traced {file : String} {document : Api.Document} {w₀ : Workspace}
    (h : Course file options document plan w₀ w schema)
    (hglossary : plan.glossary = ⟨document.schemas, options.policy⟩) (hf : f ∈ schema.files) :
    DefinitionsTraced plan.glossary (Api.StatedIn document.paths) f.definitions := by
  obtain ⟨w₁, o, hdefine, hservice, rfl⟩ := h.runs
  have hheld : ∀ entry ∈ document.schemas,
      plan.glossary.Holds (Api.StatedIn document.paths) entry.2 := by
    rw [hglossary]
    exact fun entry hentry => .named hentry
  have hempty : w₀.files = [] := by
    have hplanned := h.planned
    simp only [Plan.of, Prod.mk.injEq] at hplanned
    rw [← hplanned.2, files_reserve]
  have hreserved : WorkspaceTraced plan.glossary (Api.StatedIn document.paths) w₀ := by
    rw [WorkspaceTraced, hempty]
    exact fun _ hentry => absurd hentry List.not_mem_nil
  obtain ⟨hdefined, -⟩ := defineAll_traces hheld hreserved hdefine
  obtain ⟨houtlined, hserved⟩ := buildService_traces (fun _ hs => hs)
    ⟨fun _ h => absurd h List.not_mem_nil, fun _ h => absurd h List.not_mem_nil⟩ hdefined hservice
  exact assemble_traced hserved houtlined hf

end Schemas

end RestThrift.Convert
