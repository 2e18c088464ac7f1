import Mathlib
import RestThrift.Proofs.Assembly
import RestThrift.Proofs.Branches

/-!
# The course of a conversion

A conversion leads from workspace to workspace by few kinds of moves: a definition is synthesized,
the name of a request is claimed, or a named schema gets its definition under the name that is
reserved for it. Whatever a program of the conversion calls, its successful runs are made of moves.
-/
namespace RestThrift.Convert

open Workspace

/-! ## Moves -/

namespace Workspace

/-- One definition is synthesized, for whatever schema. -/
inductive Adds (w : Workspace) : Workspace → Prop
  | enumeration (place : Place) (schema : Api.Schema)
      (hnew : w.inlineEnum? place.file place.base = none) : Adds w (w.newEnum place schema)
  | struct (place : Place) (message : Message)
      (hnew : w.matching? place.file place.base message = none) :
      Adds w (w.newStruct place message)

/-- Any number of definitions is synthesized. -/
def Gains : Workspace → Workspace → Prop := Relation.ReflTransGen Adds

variable {w w' : Workspace}

theorem Adds.le (h : Adds w w') : w ≤ w' := by
  cases h with
  | enumeration place schema _ => exact le_newEnum w place schema
  | struct place message _ => exact le_newStruct w place message

end Workspace

/-- One step from a workspace of a conversion to the next one. -/
inductive Plan.Moves (p : Plan) (w : Workspace) : Workspace → Prop
  | adds {w' : Workspace} (h : w.Adds w') : Moves p w w'
  | request (base : String) :
      Moves p w (w.claim p.mainFile (Naming.definitionName (base ++ "Request"))).2
  | enumeration {key : String} (hkey : key ∈ p.glossary.schemas.keys) (schema : Api.Schema) :
      Moves p w ((w.addEnum (p.fileOf key)
        (Convert.enumeration (p.fileOf key) (p.nameOf key) schema)).rememberEnum (p.fileOf key)
          (p.nameOf key) (p.nameOf key))
  | typedef {key : String} (hkey : key ∈ p.glossary.schemas.keys) {t : Typedef}
      (hname : t.name = p.nameOf key) : Moves p w (w.addTypedef (p.fileOf key) t)
  | message {key : String} (hkey : key ∈ p.glossary.schemas.keys) {m : Message}
      (hname : m.name = p.nameOf key) : Moves p w (w.addMessage (p.fileOf key) m)

/-- The workspaces that a conversion by the plan comes to from a workspace. -/
def Plan.Proceeds (p : Plan) : Workspace → Workspace → Prop := Relation.ReflTransGen p.Moves

variable {plan : Plan} {w w' : Workspace}

theorem Plan.Moves.le (h : plan.Moves w w') : w ≤ w' := by
  cases h with
  | adds h => exact h.le
  | request base => exact le_claim w _ _
  | enumeration hkey schema => exact (le_addEnum w _ _).trans (le_rememberEnum _ _ _ _)
  | typedef hkey hname => exact le_addTypedef w _ _
  | message hkey hname => exact le_addMessage w _ _

theorem Plan.Proceeds.le (h : plan.Proceeds w w') : w ≤ w' := by
  induction h with
  | refl => exact le_rfl
  | tail _ hstep ih => exact ih.trans hstep.le

theorem Workspace.Gains.proceeds (h : w.Gains w') (p : Plan) : p.Proceeds w w' :=
  Relation.ReflTransGen.mono (fun _ _ hstep => .adds hstep) _ _ h

theorem Workspace.Gains.le (h : w.Gains w') : w ≤ w' := by
  induction h with
  | refl => exact le_rfl
  | tail _ hstep ih => exact ih.trans hstep.le

/-! ## Programs that move -/

/-- Every successful run leads from workspace to workspace by steps. -/
def Along (step : Workspace → Workspace → Prop) {α : Type} (x : Build α) : Prop :=
  ∀ ⦃w a w'⦄, Runs x w a w' → Relation.ReflTransGen step w w'

section Along

variable {step : Workspace → Workspace → Prop} {α β : Type} {x : Build α}

theorem along_pure (a : α) : Along step (pure a : Build α) := by
  intro w a w' h
  obtain ⟨-, rfl⟩ := runs_pure.mp h
  exact .refl

theorem along_get : Along step (get : Build Workspace) := by
  intro w a w' h
  obtain ⟨-, rfl⟩ := runs_get.mp h
  exact .refl

theorem along_lift (x : Except ConversionError α) : Along step (liftM x : Build α) := by
  intro w a w' h
  obtain ⟨-, rfl⟩ := runs_lift.mp h
  exact .refl

theorem along_throw (cause : ConversionError) : Along step (throw cause : Build α) :=
  fun _ _ _ h => absurd h runs_throw

theorem Along.bind {f : α → Build β} (hx : Along step x) (hf : ∀ a, Along step (f a)) :
    Along step (x >>= f) := by
  intro w b w' h
  obtain ⟨a, w₁, ha, hb⟩ := runs_bind.mp h
  exact (hx ha).trans (hf a hb)

theorem along_mapM {f : α → Build β} {as : List α} (h : ∀ a ∈ as, Along step (f a)) :
    Along step (as.mapM f) := by
  induction as with
  | nil => exact along_pure []
  | cons a rest ih =>
    obtain ⟨ha, hrest⟩ := List.forall_mem_cons.mp h
    rw [List.mapM_cons]
    exact ha.bind fun b => (ih hrest).bind fun bs => along_pure (b :: bs)

end Along

/-! ## Synthesis -/

section Synthesis

variable {typeOf : Place → Api.Schema → Build TypeRef} {object s : Api.Schema} {place : Place}
  {inlining : List String} {steps : Nat}

theorem enumType_adds (place : Place) (schema : Api.Schema) :
    Along Adds (enumType place schema) := by
  intro w type w' h
  rcases enumType_runs h with ⟨name, -, -, rfl⟩ | ⟨hnew, -, rfl⟩
  · exact .refl
  · exact .single (.enumeration place schema hnew)

theorem structFields_along {step : Workspace → Workspace → Prop} (file parent : String)
    (h : ∀ entry ∈ object.properties, ∀ place, Along step (typeOf place entry.2)) :
    Along step (structFields typeOf file parent object) := by
  refine Along.bind (along_mapM fun entry hentry => ?_) fun _ => along_pure _
  have hfield : Along step (propertyField typeOf file parent object.required entry.1 entry.2) :=
    (h entry hentry _).bind fun _ => along_pure _
  exact hfield.bind fun field => along_get.bind fun w =>
    (along_lift _).bind fun _ => along_pure _

theorem structMessage_along {step : Workspace → Workspace → Prop} (file name : String)
    (h : ∀ entry ∈ object.properties, ∀ place, Along step (typeOf place entry.2)) :
    Along step (structMessage typeOf file name object) :=
  (structFields_along file name h).bind fun _ => along_pure _

theorem structType_adds (place : Place)
    (h : ∀ entry ∈ object.properties, ∀ place, Along Adds (typeOf place entry.2)) :
    Along Adds (structType typeOf place object) := by
  intro w type w' hrun
  obtain ⟨message, w₁, hmessage, ⟨name, -, -, rfl⟩ | ⟨hnew, -, rfl⟩⟩ := structType_runs hrun
  · exact structMessage_along _ _ h hmessage
  · exact (structMessage_along _ _ h hmessage).tail (.struct place message hnew)

theorem Branch.follow_adds {branch : Branch}
    {typeOf : List String → Place → Api.Schema → Build TypeRef}
    (h : ∀ inlining' target, branch.Asks inlining inlining' target →
      ∀ place, Along Adds (typeOf inlining' place target)) :
    Along Adds (branch.follow typeOf inlining place s) := by
  cases branch with
  | failure cause => exact along_throw cause
  | done type => exact along_pure type
  | replaced key target => exact h _ _ .replaced place
  | sole part => exact h _ _ .sole place
  | struct object => exact structType_adds place fun entry hentry => h _ _ (.property hentry)
  | listed => exact enumType_adds place s
  | list items => exact (h _ _ .items _).bind fun _ => along_pure _
  | map value => exact (h _ _ .value _).bind fun _ => along_pure _

/-- Synthesis adds definitions and does nothing else. -/
theorem typeWithin_adds (plan : Plan) (steps : Nat) (inlining : List String) (place : Place)
    (s : Api.Schema) : Along Adds (typeWithin plan steps inlining place s) := by
  induction steps generalizing inlining place s with
  | zero => exact along_throw _
  | succ steps ih =>
    rw [typeWithin_succ]
    exact Branch.follow_adds fun inlining' target _ place => ih inlining' place target

end Synthesis

theorem typeOf_adds (plan : Plan) (place : Place) (s : Api.Schema) :
    Along Adds (typeOf plan place s) :=
  typeWithin_adds plan _ _ place s

/-! ## Fields of structs -/

/-- The field of a property is built on the way from a workspace to another: the type is found, and
the default is made right after. -/
def BuiltField (typeOf : Place → Api.Schema → Build TypeRef) (file parent : String)
    (required : List String) (w w' : Workspace) (entry : String × Api.Schema) (field : Field) :
    Prop :=
  ∃ u type u' default, w.Gains u ∧
    Runs (typeOf { file, parent, field := entry.1 } entry.2) u type u' ∧ u'.Gains w' ∧
    propertyDefault u' file entry.1 entry.2 type = .ok default ∧
    field = { name := Naming.fieldName entry.1, type
              requiredness := .ofRequired (required.contains entry.1), default
              comments := describe entry.2.description }

theorem BuiltField.mono {typeOf : Place → Api.Schema → Build TypeRef} {file parent : String}
    {required : List String} {entry : String × Api.Schema} {field : Field} {w'' : Workspace}
    (h : BuiltField typeOf file parent required w w' entry field) (hgains : w'.Gains w'') :
    BuiltField typeOf file parent required w w'' entry field := by
  obtain ⟨u, type, u', default, hu, hrun, hu', hdefault, hfield⟩ := h
  exact ⟨u, type, u', default, hu, hrun, hu'.trans hgains, hdefault, hfield⟩

theorem structMessage_built {typeOf : Place → Api.Schema → Build TypeRef} {file name : String}
    {object : Api.Schema} {message : Message}
    (hadds : ∀ entry ∈ object.properties, ∀ place, Along Adds (typeOf place entry.2))
    (h : Runs (structMessage typeOf file name object) w message w') :
    ∃ fields, List.Forall₂ (BuiltField typeOf file name object.required w w') object.properties
        fields ∧
      message = { name, fqn := fqnOf file name, fields := renumber fields
                  comments := describe object.description } := by
  simp only [structMessage, structFields, runs_bind, runs_pure] at h
  obtain ⟨_, _, ⟨fields, _, hfields, rfl, rfl⟩, rfl, rfl⟩ := h
  have hrun := runs_mapM (R := Gains) (I := w.Gains)
    (P := fun w' => BuiltField typeOf file name object.required w w')
    (fun _ => .refl) (fun h k => h.trans k) (fun hg hw => hw.trans hg) ?_ ?_ .refl hfields
  · exact ⟨fields, hrun.2, rfl⟩
  · exact fun hgains hfield => hfield.mono hgains
  · rintro ⟨property, schema⟩ hentry u field u' hu h
    simp only [runs_bind, propertyField_runs, runs_get, runs_lift, runs_pure] at h
    obtain ⟨_, _, ⟨type, htype, rfl⟩, _, _, ⟨rfl, rfl⟩, default, _, ⟨hdefault, rfl⟩, rfl, rfl⟩ := h
    exact ⟨hadds _ hentry _ htype, u, type, _, default, hu, htype, .refl, hdefault, rfl⟩

/-! ## Definitions of named schemas -/

theorem typeWithin_moves (plan : Plan) (steps : Nat) (inlining : List String) (place : Place)
    (s : Api.Schema) : Along plan.Moves (typeWithin plan steps inlining place s) :=
  fun _ _ _ h => Gains.proceeds (typeWithin_adds plan steps inlining place s h) plan

theorem define_moves {key : String} (hkey : key ∈ plan.glossary.schemas.keys) (s : Api.Schema) :
    Along plan.Moves (define plan key (plan.nameOf key) s) := by
  intro w _ w' h
  rcases define_runs h with ⟨-, rfl⟩ | ⟨-, -, target, w₁, htarget, rfl⟩ |
    ⟨-, -, object, message, w₁, -, hmessage, rfl⟩
  · exact .single (.enumeration hkey s)
  · exact (typeWithin_moves plan _ _ _ _ htarget).tail (.typedef hkey rfl)
  · have hmoves := structMessage_along _ _
      (fun entry _ place => typeWithin_moves plan (plan.steps entry.2) [] place entry.2) hmessage
    simp only [structMessage, runs_bind, runs_pure] at hmessage
    obtain ⟨fields, _, -, rfl, -⟩ := hmessage
    exact hmoves.tail (.message hkey rfl)

theorem defineAll_moves {schemas : Table Api.Schema}
    (h : ∀ key ∈ schemas.keys, key ∈ plan.glossary.schemas.keys ∧
      plan.names.get? key = some (plan.nameOf key)) :
    Along plan.Moves (defineAll plan schemas) := by
  induction schemas with
  | nil => exact along_pure ()
  | cons entry rest ih =>
    obtain ⟨⟨hkey, hname⟩, hrest⟩ := List.forall_mem_cons.mp h
    simp only [defineAll, hname]
    exact (define_moves hkey entry.2).bind fun _ => ih hrest

/-! ## Operations -/

/-- Every successful run for a service leads from workspace to workspace by moves. -/
def AlongService (plan : Plan) {α : Type} (x : BuildService α) : Prop :=
  ∀ o, Along plan.Moves (x.run o)

section Service

variable {α β : Type} {x : BuildService α}

theorem alongService_pure (a : α) : AlongService plan (pure a : BuildService α) :=
  fun o => along_pure (a, o)

theorem alongService_get : AlongService plan (get : BuildService Outline) :=
  fun o => along_pure (o, o)

theorem alongService_modify (f : Outline → Outline) :
    AlongService plan (modify f : BuildService PUnit) :=
  fun o => along_pure (PUnit.unit, f o)

theorem alongService_lift {x : Build α} (h : Along plan.Moves x) :
    AlongService plan (liftM x : BuildService α) :=
  fun o => h.bind fun a => along_pure (a, o)

theorem AlongService.bind {f : α → BuildService β} (hx : AlongService plan x)
    (hf : ∀ a, AlongService plan (f a)) : AlongService plan (x >>= f) := by
  intro o
  rw [StateT.run_bind]
  exact (hx o).bind fun out => hf out.1 out.2

theorem alongService_forM {f : α → BuildService Unit} (h : ∀ a, AlongService plan (f a))
    (as : List α) : AlongService plan (as.forM f) := by
  induction as with
  | nil => exact alongService_pure ()
  | cons a rest ih => exact (h a).bind fun _ => ih

end Service

theorem typeOf_moves (plan : Plan) (place : Place) (s : Api.Schema) :
    Along plan.Moves (typeOf plan place s) :=
  typeWithin_moves plan _ _ place s

theorem parameterFields_moves (plan : Plan) (file request : String)
    (parameters : List Api.Parameter) :
    Along plan.Moves (parameterFields plan file request parameters) := by
  induction parameters with
  | nil => exact along_pure []
  | cons p rest ih =>
    rw [parameterFields]
    split
    · have hfield : ∀ carrier, Along plan.Moves (parameterField plan file request p carrier) :=
        fun carrier => (typeOf_moves plan _ _).bind fun _ => along_pure _
      exact (hfield _).bind fun _ => ih.bind fun _ => along_pure _
    · exact ih

theorem bodyFields_moves (plan : Plan) (file request : String) (body : Api.Body) :
    Along plan.Moves (bodyFields plan file request body) := by
  rw [bodyFields]
  split
  · refine (along_lift _).bind fun object => along_mapM fun entry _ => ?_
    have hfield : Along plan.Moves
        (propertyField (typeOf plan) file request object.required entry.1 entry.2) :=
      (typeOf_moves plan _ _).bind fun _ => along_pure _
    exact hfield.bind fun _ => along_pure _
  · exact (typeOf_moves plan _ _).bind fun _ => along_pure _

theorem requestFields_moves (plan : Plan) (file request : String) (parameters : List Api.Parameter)
    (body : Option Api.Body) :
    Along plan.Moves (requestFields plan file request parameters body) := by
  refine (parameterFields_moves plan file request parameters).bind fun own => ?_
  cases body with
  | some body => exact (bodyFields_moves plan file request body).bind fun _ => along_pure _
  | none => exact (along_pure _).bind fun _ => along_pure _

theorem requestName_moves (plan : Plan) (base : String) :
    AlongService plan (requestName plan.mainFile base) := by
  refine alongService_get.bind fun o => ?_
  split
  · exact alongService_pure _
  · have hclaim : Along plan.Moves
        (claim plan.mainFile (Naming.definitionName (base ++ "Request"))) := by
      intro w name w' h
      obtain ⟨-, rfl⟩ := claim_runs.mp h
      exact .single (.request base)
    exact (alongService_lift hclaim).bind fun _ => (alongService_modify _).bind fun _ =>
      alongService_pure _

theorem buildRequest_moves (plan : Plan) (base : String) (item : Api.PathItem)
    (operation : Api.Operation) :
    AlongService plan (buildRequest plan plan.mainFile base item operation) :=
  (requestName_moves plan base).bind fun _ =>
    (alongService_lift (requestFields_moves plan _ _ _ _)).bind fun _ =>
      (alongService_modify _).bind fun _ => alongService_pure _

theorem thrownFields_moves (plan : Plan) (file : String) (responses : Table Api.Response) :
    Along plan.Moves (thrownFields plan file responses) := by
  induction responses with
  | nil => exact along_pure []
  | cons entry rest ih =>
    rw [thrownFields]
    split
    · exact (typeOf_moves plan _ _).bind fun _ => ih.bind fun _ => along_pure _
    · exact ih

theorem responseType_moves (plan : Plan) (file base : String) (operation : Api.Operation) :
    Along plan.Moves (responseType plan file base operation) := by
  rw [responseType]
  split
  · exact typeOf_moves plan _ _
  · exact along_pure _

theorem buildOperation_moves (plan : Plan) (service path : String) (item : Api.PathItem)
    (method : Api.Method) : AlongService plan (buildOperation plan service path item method) := by
  have hfunction : ∀ operation returnType,
      AlongService plan (buildFunction plan service path item method operation returnType) :=
    fun operation returnType => alongService_get.bind fun _ =>
      (buildRequest_moves plan _ item operation).bind fun _ =>
        (alongService_lift (thrownFields_moves plan _ _)).bind fun _ => alongService_modify _
  rw [buildOperation]
  split
  · refine (alongService_lift (responseType_moves plan _ _ _)).bind fun returnType => ?_
    split
    · exact alongService_pure _
    · exact hfunction _ returnType
  · exact alongService_pure _

theorem buildService_moves (plan : Plan) (service : String) (paths : Table Api.PathItem) :
    AlongService plan (buildService plan service paths) := by
  induction paths with
  | nil => exact alongService_pure ()
  | cons entry rest ih =>
    exact (alongService_forM (buildOperation_moves plan service entry.1 entry.2) _).bind
      fun _ => ih

/-! ## The course of a conversion -/

section Course

variable {file : String} {options : Options} {document : Api.Document} {schema : Schema}
  {schemas : Table Api.Schema} {key : String} {s object : Api.Schema} {entry : String × Api.Schema}

/-- A conversion leads by moves from the reserved names to its end. -/
theorem Course.proceeds (h : Course file options document plan w w' schema)
    (hn : document.schemas.keys.Nodup) : plan.Proceeds w w' := by
  obtain ⟨hglossary, -, hnames, -⟩ := Plan.of_coherent (fun _ => True) hn h.planned
  obtain ⟨w₁, o, hdefine, hservice, -⟩ := h.runs
  have hdefined : plan.Proceeds w w₁ :=
    defineAll_moves (fun key hkey => ⟨hglossary ▸ hkey, hnames key hkey⟩) hdefine
  exact hdefined.trans (buildService_moves plan options.serviceName document.paths {} hservice)

theorem defineAll_defines
    (hnames : ∀ key ∈ schemas.keys, key ∈ plan.glossary.schemas.keys ∧
      plan.names.get? key = some (plan.nameOf key))
    (h : Runs (defineAll plan schemas) w () w') (hentry : (key, s) ∈ schemas) :
    ∃ u u', plan.Proceeds w u ∧ Runs (define plan key (plan.nameOf key) s) u () u' ∧
      plan.Proceeds u' w' := by
  induction schemas generalizing w with
  | nil => exact absurd hentry List.not_mem_nil
  | cons first rest ih =>
    obtain ⟨⟨hkey, hname⟩, hrest⟩ := List.forall_mem_cons.mp hnames
    simp only [defineAll, hname, runs_bind] at h
    obtain ⟨_, w₁, hdefine, h⟩ := h
    rcases List.mem_cons.mp hentry with rfl | hentry
    · exact ⟨w, w₁, .refl, hdefine, defineAll_moves hrest h⟩
    · obtain ⟨u, u', hu, hrun, hu'⟩ := ih hrest h hentry
      have hfirst : plan.Proceeds w w₁ := define_moves hkey first.2 hdefine
      exact ⟨u, u', hfirst.trans hu, hrun, hu'⟩

/-- Every named schema is defined in the course of a conversion. -/
theorem Course.defines (h : Course file options document plan w w' schema)
    (hn : document.schemas.keys.Nodup) (hentry : (key, s) ∈ document.schemas) :
    ∃ u u', plan.Proceeds w u ∧ Runs (define plan key (plan.nameOf key) s) u () u' ∧
      plan.Proceeds u' w' := by
  obtain ⟨hglossary, -, hnames, -⟩ := Plan.of_coherent (fun _ => True) hn h.planned
  obtain ⟨w₁, o, hdefine, hservice, -⟩ := h.runs
  obtain ⟨u, u', hu, hrun, hu'⟩ :=
    defineAll_defines (fun key hkey => ⟨hglossary ▸ hkey, hnames key hkey⟩) hdefine hentry
  have hserved : plan.Proceeds w₁ w' :=
    buildService_moves plan options.serviceName document.paths {} hservice
  exact ⟨u, u', hu, hrun, hu'.trans hserved⟩

/-- The type of each property of a named struct is found in the course of a conversion. -/
theorem Course.finds (h : Course file options document plan w w' schema)
    (hn : document.schemas.keys.Nodup) (hentry : (key, s) ∈ document.schemas)
    (hchoices : s.choices = []) (halias : s.isAlias = false)
    (hobject : plan.glossary.effectiveObject s = .ok object)
    (hproperty : entry ∈ object.properties) : ∃ u type u', plan.Proceeds w u ∧
      Runs (typeOf plan { file := plan.fileOf key, parent := plan.nameOf key, field := entry.1 }
        entry.2) u type u' ∧ plan.Proceeds u' w' := by
  obtain ⟨v, v', hv, hdefine, hv'⟩ := h.defines hn hentry
  rcases define_runs hdefine with ⟨hlisted, -⟩ | ⟨-, haliased, -⟩ |
    ⟨-, -, other, message, v₁, hother, hmessage, rfl⟩
  · simp [hchoices] at hlisted
  · simp [halias] at haliased
  · obtain rfl := Except.ok.inj (hobject.symm.trans hother)
    obtain ⟨fields, hbuilt, heq⟩ := structMessage_built
      (fun entry _ place => typeOf_adds plan place entry.2) hmessage
    obtain ⟨field, -, u, type, u', -, hu, hrun, hu', -⟩ :=
      exists_right_of_forall₂ hbuilt hproperty
    obtain ⟨hglossary, -⟩ := Plan.of_coherent (fun _ => True) hn h.planned
    have hkey : key ∈ plan.glossary.schemas.keys := by
      rw [hglossary]
      exact List.mem_map_of_mem hentry
    have hmove : plan.Moves v₁ (v₁.addMessage (plan.fileOf key) message) :=
      .message hkey (congrArg Message.name heq)
    exact ⟨u, type, u', hv.trans (hu.proceeds plan), hrun,
      ((hu'.proceeds plan).tail hmove).trans hv'⟩

end Course

end RestThrift.Convert
