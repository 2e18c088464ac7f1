import Mathlib
import RestThrift.Proofs.Coherence
import RestThrift.Proofs.Request

/-!
# Functions of operations

Each operation is answered by one function and one request. Requests of one name stand side by side
until they are united; for each such name a definition is owed in the main file.
-/
namespace RestThrift.Convert

open Workspace Text

/-! ## Runs with an outline -/

section Runs

variable {α β : Type} {o o' : Outline} {w w' : Workspace} {a : α} {b : β}

/-- The program ends with a result, an outline and a workspace. -/
def Serves (x : BuildService α) (o : Outline) (w : Workspace) (a : α) (o' : Outline)
    (w' : Workspace) : Prop :=
  Runs (x.run o) w (a, o') w'

theorem serves_pure {c : α} :
    Serves (pure c : BuildService α) o w a o' w' ↔ a = c ∧ o' = o ∧ w' = w := by
  simp only [Serves, StateT.run_pure, runs_pure, Prod.mk.injEq, and_assoc]

theorem serves_bind {x : BuildService α} {f : α → BuildService β} :
    Serves (x >>= f) o w b o' w' ↔
      ∃ a o₁ w₁, Serves x o w a o₁ w₁ ∧ Serves (f a) o₁ w₁ b o' w' := by
  simp only [Serves, StateT.run_bind, runs_bind, Prod.exists]

theorem serves_lift {x : Build α} :
    Serves (liftM x : BuildService α) o w a o' w' ↔ Runs x w a w' ∧ o' = o := by
  have hrun : (liftM x : BuildService α).run o = x >>= fun a => pure (a, o) := rfl
  rw [Serves, hrun]
  simp only [runs_bind, runs_pure, Prod.mk.injEq]
  constructor
  · rintro ⟨_, _, hx, ⟨rfl, rfl⟩, rfl⟩
    exact ⟨hx, rfl⟩
  · rintro ⟨hx, rfl⟩
    exact ⟨a, w', hx, ⟨rfl, rfl⟩, rfl⟩

theorem serves_get {t : Outline} :
    Serves (get : BuildService Outline) o w t o' w' ↔ t = o ∧ o' = o ∧ w' = w := by
  simp only [Serves, StateT.run_get, runs_pure, Prod.mk.injEq, and_assoc]

theorem serves_modify {f : Outline → Outline} {u : PUnit} :
    Serves (modify f : BuildService PUnit) o w u o' w' ↔ o' = f o ∧ w' = w := by
  simp only [Serves, StateT.run_modify, runs_pure, Prod.mk.injEq, true_and]

end Runs

/-! ## Names of functions -/

section FunctionNames

variable {taken : List String} {base path : String}

/-- `stem`, `stem2`, `stem3`, … -/
def counted (stem : String) (n : Nat) : String := if n = 0 then stem else stem ++ toString (n + 1)

theorem counted_injective (stem : String) : Function.Injective (counted stem) := by
  have hinj := suffixed_injective stem "" (by simp)
  simp only [String.append_empty] at hinj
  exact hinj

theorem isPlain_counted {stem : String} (h : IsPlain stem.toList) (n : Nat) :
    IsPlain (counted stem n).toList := by
  rw [counted]
  split
  · exact h
  · rw [String.toList_append]
    exact isPlain_append.mpr ⟨h, isPlain_digits _⟩

/-- What a function's name is before any number: the name that is asked for, possibly with more of
the path behind it. -/
inductive StemOf (base path : String) : String → Prop
  | plain : StemOf base path base
  | suffixed {suffix : String} (h : Naming.pathSuffix? path = some suffix) :
      StemOf base path (Naming.definitionName (base ++ suffix))

/-- A name that is taken is counted on. -/
theorem functionNameFor_eq (path : String) (h : taken.contains base = true) :
    ∃ stem, StemOf base path stem ∧
      functionNameFor taken base path = firstFree (counted stem) taken taken.length 0 := by
  rw [functionNameFor, if_pos h]
  cases hsuffix : Naming.pathSuffix? path with
  | none => exact ⟨base, .plain, rfl⟩
  | some suffix => exact ⟨_, .suffixed hsuffix, rfl⟩

/-- In any case the name is a stem with a number behind it. -/
theorem functionNameFor_counted (taken : List String) (base path : String) :
    ∃ stem n, StemOf base path stem ∧ functionNameFor taken base path = counted stem n := by
  by_cases htaken : taken.contains base = true
  · obtain ⟨stem, hstem, heq⟩ := functionNameFor_eq path htaken
    obtain ⟨n, hn⟩ := firstFree_eq (counted stem) taken taken.length 0
    exact ⟨stem, n, hstem, heq.trans hn⟩
  · refine ⟨base, 0, .plain, ?_⟩
    rw [functionNameFor, if_neg htaken]
    rfl

theorem functionNameFor_not_mem (taken : List String) (base path : String) :
    functionNameFor taken base path ∉ taken := by
  by_cases htaken : taken.contains base = true
  · obtain ⟨stem, -, heq⟩ := functionNameFor_eq path htaken
    rw [heq]
    exact firstFree_not_mem (counted_injective stem) taken
  · rw [functionNameFor, if_neg htaken]
    exact fun hmem => htaken (List.contains_iff_mem.mpr hmem)

theorem isPlain_functionNameFor (hbase : IsPlain base.toList) (taken : List String)
    (path : String) : IsPlain (functionNameFor taken base path).toList := by
  obtain ⟨stem, n, hstem, heq⟩ := functionNameFor_counted taken base path
  rw [heq]
  cases hstem with
  | plain => exact isPlain_counted hbase n
  | suffixed _ => exact isPlain_counted (Naming.isPlain_definitionName _) n

end FunctionNames

/-! ## Failure responses -/

section Failures

variable {entry : String × Api.Response} {file : String} {plan : Plan} {w w' : Workspace}
  {field : Field}

/-- A response that is no success and has a schema. -/
def isFailure (entry : String × Api.Response) : Bool :=
  !Api.isSuccess entry.1 && entry.2.effectiveSchema?.isSome

def failures (responses : Table Api.Response) : Table Api.Response := responses.filter isFailure

theorem isFailure_iff : isFailure entry = true ↔
    ∃ schema, (if Api.isSuccess entry.1 then none else entry.2.effectiveSchema?) = some schema := by
  rw [isFailure]
  cases hsuccess : Api.isSuccess entry.1 with
  | true => simp
  | false => simp [Option.isSome_iff_exists]

/-- The field that is thrown for a failure response. -/
structure ThrowsFor (entry : String × Api.Response) (field : Field) : Prop where
  name : field.name = failureName entry.1
  comments : field.comments = describe entry.2.description

structure Thrown (plan : Plan) (w : Workspace) (file : String) (entry : String × Api.Response)
    (field : Field) : Prop extends ThrowsFor entry field where
  typed : Typed plan w file field.type
  bare : field.annotations = []
  unset : field.default = none

theorem Thrown.mono (h : Thrown plan w file entry field) (hle : w ≤ w') :
    Thrown plan w' file entry field :=
  ⟨h.toThrowsFor, h.typed.mono hle, h.bare, h.unset⟩

end Failures

/-! ## Runs for one operation -/

section Runs

variable {plan : Plan} {stated : Api.Schema → Prop} {o o' : Outline} {w w' : Workspace}
  {file base service path name : String}
  {item : Api.PathItem} {operation : Api.Operation} {method : Api.Method} {success : Api.Schema}
  {fields : List Field} {returnType : TypeRef}

/-- A name that was asked for before is shared, any other one is claimed. -/
theorem requestName_serves (h : Serves (requestName file base) o w name o' w') :
    (o.requestNames.get? base = some name ∧ o' = o ∧ w' = w) ∨
      (o.requestNames.get? base = none ∧
        name = (w.claim file (Naming.definitionName (base ++ "Request"))).1 ∧
        w' = (w.claim file (Naming.definitionName (base ++ "Request"))).2 ∧
        o' = { o with requestNames := o.requestNames.insert base name }) := by
  simp only [requestName, serves_bind, serves_get] at h
  obtain ⟨_, _, _, ⟨rfl, rfl, rfl⟩, h⟩ := h
  split at h
  · rename_i found hfound
    obtain ⟨rfl, rfl, rfl⟩ := serves_pure.mp h
    exact .inl ⟨hfound, rfl, rfl⟩
  · rename_i hnone
    simp only [serves_bind, serves_lift, claim_runs, serves_modify, serves_pure] at h
    obtain ⟨_, _, _, ⟨⟨rfl, rfl⟩, rfl⟩, _, _, _, ⟨rfl, rfl⟩, rfl, rfl, rfl⟩ := h
    exact .inr ⟨hnone, rfl, rfl, rfl⟩

theorem buildRequest_serves
    (h : Serves (buildRequest plan file base item operation) o w name o' w') :
    ∃ o₁ w₁ fields, Serves (requestName file base) o w name o₁ w₁ ∧
      Runs (requestFields plan file name (operation.effectiveParameters item)
        (operation.body? (operation.effectiveParameters item))) w₁ fields w' ∧
      o' = { o₁ with requests := o₁.requests.update name [] fun variants =>
        variants ++ [{ name, fqn := fqnOf file name, fields }] } := by
  simp only [buildRequest, serves_bind, serves_lift, serves_modify, serves_pure] at h
  obtain ⟨_, o₁, w₁, hname, fields, _, _, ⟨hfields, rfl⟩, _, _, _, ⟨rfl, rfl⟩, rfl, rfl, rfl⟩ := h
  exact ⟨_, w₁, fields, hname, hfields, rfl⟩

/-- A failure response has a field, any other response has none. -/
theorem thrownFields_grows {responses : Table Api.Response} (hw : w.Remembers)
    (h : Runs (thrownFields plan file responses) w fields w') (hhome : plan.IsHome file)
    (hheld : ∀ entry ∈ responses, ∀ schema, entry.2.effectiveSchema? = some schema →
      plan.glossary.Holds stated schema) :
    Grows plan stated w w' ∧ List.Forall₂ (Thrown plan w' file) (failures responses) fields := by
  induction responses generalizing w fields with
  | nil =>
    obtain ⟨rfl, rfl⟩ := runs_pure.mp h
    exact ⟨.refl _, .nil⟩
  | cons entry rest ih =>
    obtain ⟨code, response⟩ := entry
    obtain ⟨hentry, hrest⟩ := List.forall_mem_cons.mp hheld
    simp only [thrownFields] at h
    split at h
    · rename_i schema hschema
      have hfails : isFailure (code, response) = true := isFailure_iff.mpr ⟨schema, hschema⟩
      simp only [runs_bind, runs_pure] at h
      obtain ⟨type, w₁, htype, others, _, hothers, rfl, rfl⟩ := h
      have hstated : response.effectiveSchema? = some schema := by
        split at hschema
        · cases hschema
        · exact hschema
      obtain ⟨hgrows, htyped⟩ :=
        typeOf_grows hw htype ⟨hhome, .failure code⟩ (hentry schema hstated)
      obtain ⟨hgrows', hthrown⟩ := ih (hw.grows hgrows) hothers hrest
      rw [failures, List.filter_cons_of_pos hfails]
      exact ⟨hgrows.trans hgrows', .cons ⟨⟨rfl, rfl⟩, htyped.mono hgrows'.le, rfl, rfl⟩ hthrown⟩
    · rename_i hnone
      have hfails : ¬ isFailure (code, response) = true := fun hyes => by
        obtain ⟨schema, hschema⟩ := isFailure_iff.mp hyes
        exact absurd (hnone.symm.trans hschema) (by simp)
      rw [failures, List.filter_cons_of_neg hfails]
      exact ih hw h hrest

/-- The type that a function returns is that of a schema. -/
theorem responseType_runs {type : TypeRef} (hsuccess : operation.successSchema? = some success)
    (hheld : plan.glossary.Holds stated success)
    (h : Runs (responseType plan file base operation) w type w') :
    ∃ place schema, place.file = file ∧ place.parent = base ∧ plan.glossary.Holds stated schema ∧
      Runs (typeOf plan place schema) w type w' := by
  rw [responseType, hsuccess] at h
  exact ⟨_, _, rfl, rfl, holds_resultSchema hheld, h⟩

/-- What an operation adds: a function for its request and its responses. -/
theorem buildFunction_serves
    (h : Serves (buildFunction plan service path item method operation returnType) o w () o' w') :
    ∃ request o₁ w₁ throws,
      Serves (buildRequest plan plan.mainFile (Naming.functionName method path) item operation)
        o w request o₁ w₁ ∧
      Runs (thrownFields plan plan.mainFile operation.responses) w₁ throws w' ∧
      let name := functionNameFor (o.functions.map ServiceFunction.name)
        (Naming.functionName method path) path
      o' = { o₁ with functions := o₁.functions ++ [
        { name, fqn := fqnOf plan.mainFile (service ++ "." ++ name), returnType
          parameters := [{ id := 1, name := "req", type := localType plan.mainFile request }]
          throws := renumber throws
          annotations := [.quoted ("api." ++ method.name) (Naming.colonPath path)]
          comments := describe operation.documentation? }] } := by
  simp only [buildFunction, serves_bind, serves_lift, serves_get, serves_modify] at h
  obtain ⟨_, _, _, ⟨rfl, rfl, rfl⟩, request, o₁, w₁, hrequest, throws, _, _, ⟨hthrows, rfl⟩, rfl,
    rfl⟩ := h
  exact ⟨request, _, w₁, throws, hrequest, hthrows, rfl⟩

end Runs

end RestThrift.Convert
