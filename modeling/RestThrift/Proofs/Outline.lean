import Mathlib
import RestThrift.Proofs.Function

/-!
# Outlines of services

After some operations an outline holds one function for each, and under the name of a request all
requests that were made for it. One operation keeps this up, and so does a whole service.
-/
namespace RestThrift.Convert

open Workspace Text

open scoped List

/-- An operation with its function and its request before uniting. -/
structure Answer where
  call : Call
  function : ServiceFunction
  request : Message

/-- The requests of a name, in order. -/
def variantsOf (answers : List Answer) (name : String) : List Message :=
  (answers.map Answer.request).filter (·.name = name)

/-- What the function and the request of an operation are like. -/
structure Answer.Holds (plan : Plan) (service : String) (w : Workspace) (a : Answer) : Prop where
  named : ∃ taken, a.function.name =
    functionNameFor taken (Naming.functionName a.call.method a.call.path) a.call.path
  functionFqn : a.function.fqn = fqnOf plan.mainFile (service ++ "." ++ a.function.name)
  annotations : a.function.annotations =
    [.quoted ("api." ++ a.call.method.name) (Naming.colonPath a.call.path)]
  parameters : a.function.parameters =
    [{ id := 1, name := "req", type := localType plan.mainFile a.request.name }]
  returns : Typed plan w plan.mainFile a.function.returnType
  throws : List.Forall₂ (Thrown plan w plan.mainFile) (failures a.call.operation.responses)
    a.function.throws
  thrownNumbers : Numbered a.function.throws
  requestFqn : a.request.fqn = fqnOf plan.mainFile a.request.name
  fields : ∀ field ∈ a.request.fields,
    Typed plan w plan.mainFile field.type ∧ field.default = none
  ordered : Numbered a.request.fields ∧ Ascending a.request.fields
  bare : a.request.annotations = []
  inputs : Answers (a.call.Takes plan.glossary) a.request.fields

/-- The names of requests, as definitions that are owed in the main file. -/
def Outline.debts (plan : Plan) (o : Outline) : List (String × String) :=
  o.requestNames.map fun entry => (plan.mainFile, entry.2)

/-- What outline and workspace are like after the operations that are answered. -/
structure Outlined (plan : Plan) (stated : Api.Schema → Prop) (service : String) (w : Workspace)
    (answers : List Answer) (o : Outline) : Prop where
  functions : o.functions = answers.map Answer.function
  distinct : (o.functions.map ServiceFunction.name).Nodup
  holds : ∀ a ∈ answers, a.Holds plan service w
  sorted : o.requests.Sorted
  variants : ∀ name, (o.requests.get? name).getD [] = variantsOf answers name
  present : ∀ name, name ∈ o.requests.keys ↔ ∃ a ∈ answers, a.request.name = name
  asked : ∀ name, name ∈ o.requestNames.map (·.2) ↔ ∃ a ∈ answers, a.request.name = name
  coherent : Coherent plan stated w (o.debts plan)

variable {plan : Plan} {stated : Api.Schema → Prop} {service : String} {w w' : Workspace}
  {answers : List Answer} {o o' : Outline}

theorem Answer.Holds.plain {a : Answer} (h : a.Holds plan service w) :
    IsPlain a.function.name.toList := by
  obtain ⟨taken, hname⟩ := h.named
  rw [hname]
  exact isPlain_functionNameFor (Naming.isPlain_definitionName _) taken _

theorem Answer.Holds.mono {a : Answer} (h : a.Holds plan service w) (hle : w ≤ w') :
    a.Holds plan service w' :=
  { h with
    returns := h.returns.mono hle
    throws := h.throws.imp fun _ _ hthrown => hthrown.mono hle
    fields := fun field hfield => (h.fields field hfield).imp_left fun ht => ht.mono hle }

theorem Outlined.empty (h : Coherent plan stated w []) : Outlined plan stated service w [] {} where
  functions := rfl
  distinct := List.nodup_nil
  holds _ h := absurd h List.not_mem_nil
  sorted := Table.sorted_nil
  variants _ := rfl
  present _ := by simp
  asked _ := by simp
  coherent := h

/-- Synthesis keeps up what an outline holds. -/
theorem Outlined.grows (h : Outlined plan stated service w answers o)
    (hg : Grows plan stated w w') : Outlined plan stated service w' answers o :=
  { h with
    holds := fun a ha => (h.holds a ha).mono hg.le
    coherent := h.coherent.grows hg }

/-! ## One operation -/

/-- Naming a request keeps the workspace coherent, and the name is then among those that were asked
for. -/
theorem requestName_coherent {c : Call} {name : String}
    (h : Coherent plan stated w (o.debts plan))
    (hrun : Serves (requestName plan.mainFile (Naming.functionName c.method c.path)) o w name o'
      w') :
    w ≤ w' ∧ Coherent plan stated w' (o'.debts plan) ∧ o'.functions = o.functions ∧
      o'.requests = o.requests ∧
      ∀ k, k ∈ o'.requestNames.map (·.2) ↔ k = name ∨ k ∈ o.requestNames.map (·.2) := by
  rcases requestName_serves hrun with ⟨hfound, rfl, rfl⟩ | ⟨hnew, hname, rfl, rfl⟩
  · refine ⟨le_rfl, h, rfl, rfl, fun k => (or_iff_right_of_imp ?_).symm⟩
    rintro rfl
    exact List.mem_map.mpr ⟨_, Table.mem_of_get? hfound, rfl⟩
  · have hperm := Table.insert_perm (a := name) hnew
    have hclaim := h.claim (.request c.method c.path)
    rw [← hname] at hclaim
    have hdebts : Outline.debts plan { o with requestNames := o.requestNames.insert _ name } ~
        (plan.mainFile, name) :: o.debts plan := hperm.map _
    refine ⟨le_claim w _ _, hclaim.perm hdebts.symm, rfl, rfl, fun k => ?_⟩
    rw [(hperm.map _).mem_iff, List.map_cons, List.mem_cons]

/-- Building a request adds it to those of its name. -/
theorem buildRequest_coherent {c : Call} {name : String}
    (h : Coherent plan stated w (o.debts plan))
    (hstated : ∀ s, c.operation.States c.item s → stated s)
    (hrun : Serves (buildRequest plan plan.mainFile (Naming.functionName c.method c.path) c.item
      c.operation) o w name o' w') :
    w ≤ w' ∧ Coherent plan stated w' (o'.debts plan) ∧ o'.functions = o.functions ∧
      (∀ k, k ∈ o'.requestNames.map (·.2) ↔ k = name ∨ k ∈ o.requestNames.map (·.2)) ∧
      ∃ request : Message, request.name = name ∧ request.fqn = fqnOf plan.mainFile name ∧
        request.annotations = [] ∧ Numbered request.fields ∧ Ascending request.fields ∧
        o'.requests = o.requests.update name [] (fun variants => variants ++ [request]) ∧
        (∀ field ∈ request.fields, Typed plan w' plan.mainFile field.type ∧ field.default = none) ∧
        Answers (c.Takes plan.glossary) request.fields := by
  obtain ⟨o₁, w₁, fields, hname, hfields, rfl⟩ := buildRequest_serves hrun
  obtain ⟨hle, hcoherent, hfunctions, hrequests, hnames⟩ := requestName_coherent h hname
  have howed : (plan.mainFile, name) ∈ o₁.debts plan := by
    obtain ⟨entry, hentry, rfl⟩ := List.mem_map.mp ((hnames name).mpr (.inl rfl))
    exact List.mem_map_of_mem hentry
  obtain ⟨hgrows, htypes, hanswers⟩ := requestFields_answers hcoherent.remembers hfields
    ⟨plan.isHome_mainFile, hcoherent.heads_of_owed howed⟩
    (fun p hp => .stated (hstated _ (.parameter hp)))
    fun b hb => .stated (hstated _ (.body hb))
  rw [c.effectiveParameters_eq] at hanswers
  obtain ⟨hnumbered, hascending⟩ := requestFields_ordered hfields
  refine ⟨hle.trans hgrows.le, hcoherent.grows hgrows, hfunctions, hnames,
    { name, fqn := fqnOf plan.mainFile name, fields }, rfl, rfl, rfl, hnumbered, hascending, ?_,
    htypes, hanswers⟩
  rw [← hrequests]

theorem variantsOf_append (answers : List Answer) (a : Answer) (name : String) :
    variantsOf (answers ++ [a]) name =
      if a.request.name = name then variantsOf answers name ++ [a.request]
      else variantsOf answers name := by
  simp only [variantsOf, List.map_append, List.map_cons, List.map_nil, List.filter_append,
    List.filter_cons, List.filter_nil, decide_eq_true_eq]
  split
  · rfl
  · rw [List.append_nil]

theorem exists_append_iff {a : Answer} {name : String} :
    (∃ b ∈ answers ++ [a], b.request.name = name) ↔
      name = a.request.name ∨ ∃ b ∈ answers, b.request.name = name := by
  constructor
  · rintro ⟨b, hb, rfl⟩
    rcases List.mem_append.mp hb with hb | hb
    · exact .inr ⟨b, hb, rfl⟩
    · exact .inl (List.mem_singleton.mp hb ▸ rfl)
  · rintro (rfl | ⟨b, hb, rfl⟩)
    · exact ⟨a, List.mem_append_right _ (List.mem_singleton_self a), rfl⟩
    · exact ⟨b, List.mem_append_left _ hb, rfl⟩

/-- One answer more. -/
theorem Outlined.add {a : Answer} (h : Outlined plan stated service w answers o) (hle : w ≤ w')
    (hholds : a.Holds plan service w')
    (hnew : a.function.name ∉ o.functions.map ServiceFunction.name)
    (hfunctions : o'.functions = o.functions ++ [a.function])
    (hrequests : o'.requests =
      o.requests.update a.request.name [] fun variants => variants ++ [a.request])
    (hnames : ∀ k, k ∈ o'.requestNames.map (·.2) ↔
      k = a.request.name ∨ k ∈ o.requestNames.map (·.2))
    (hcoherent : Coherent plan stated w' (o'.debts plan)) :
    Outlined plan stated service w' (answers ++ [a]) o' where
  functions := by rw [hfunctions, h.functions, List.map_append, List.map_cons, List.map_nil]
  distinct := by
    rw [hfunctions, List.map_append, List.map_cons, List.map_nil]
    exact h.distinct.append (List.nodup_singleton _) (List.disjoint_singleton.mpr hnew)
  holds := List.forall_mem_append.mpr
    ⟨fun b hb => (h.holds b hb).mono hle, List.forall_mem_singleton.mpr hholds⟩
  sorted := hrequests ▸ h.sorted.update
  variants name := by rw [hrequests, Table.getD_update, h.variants, variantsOf_append]
  present name := by rw [hrequests, Table.mem_keys_update, h.present, exists_append_iff]
  asked name := by rw [hnames, h.asked, exists_append_iff]
  coherent := hcoherent

/-- A function adds its answer. -/
theorem buildFunction_outlined {c : Call} {returnType : TypeRef}
    (h : Outlined plan stated service w answers o)
    (hstated : ∀ s, c.operation.States c.item s → stated s)
    (hreturns : Typed plan w plan.mainFile returnType)
    (hrun : Serves (buildFunction plan service c.path c.item c.method c.operation returnType)
      o w () o' w') :
    ∃ a, a.call = c ∧ w ≤ w' ∧ Outlined plan stated service w' (answers ++ [a]) o' := by
  obtain ⟨name, o₁, w₁, throws, hrequest, hthrows, ho'⟩ := buildFunction_serves hrun
  -- The workspaces in turn: behind the request and the thrown fields.
  obtain ⟨hle₁, hcoherent₁, hfunctions, hnames, request, rfl, hfqn, hbare, hnumbered, hascending,
    hrequests, hfields, hinputs⟩ := buildRequest_coherent h.coherent hstated hrequest
  obtain ⟨hgrows₂, hthrown⟩ := thrownFields_grows hcoherent₁.remembers hthrows plan.isHome_mainFile
    fun entry hentry schema hschema => .stated (hstated _ (.response hentry hschema))
  have hle : w ≤ w' := hle₁.trans hgrows₂.le
  rw [hfunctions] at ho'
  refine ⟨⟨c, _, request⟩, rfl, hle, h.add hle ?_ (functionNameFor_not_mem _ _ _)
    (congrArg Outline.functions ho') ?_ ?_ ?_⟩
  · exact {
      named := ⟨_, rfl⟩
      functionFqn := rfl
      annotations := rfl
      parameters := rfl
      returns := hreturns.mono hle
      throws := forall₂_renumber
        (fun _ _ _ h => ⟨⟨h.name, h.comments⟩, h.typed, h.bare, h.unset⟩) hthrown
      thrownNumbers := numbered_renumber throws
      requestFqn := hfqn
      fields := fun field hfield => (hfields field hfield).imp_left fun ht => ht.mono hgrows₂.le
      ordered := ⟨hnumbered, hascending⟩
      bare := hbare
      inputs := hinputs }
  · rw [ho', ← hrequests]
  · rw [ho']
    exact hnames
  · rw [ho']
    exact hcoherent₁.grows hgrows₂

/-! ## A whole service -/

/-- A program adds an answer for each call to what an outline holds. -/
def Covers (plan : Plan) (stated : Api.Schema → Prop) (service : String) (x : BuildService Unit)
    (cs : List Call) : Prop :=
  ∀ ⦃answers o w o' w'⦄, Outlined plan stated service w answers o → Serves x o w () o' w' →
    ∃ more, more.map Answer.call = cs ∧ w ≤ w' ∧
      Outlined plan stated service w' (answers ++ more) o'

theorem covers_pure : Covers plan stated service (pure ()) [] := by
  intro answers o w o' w' h hrun
  obtain ⟨-, rfl, rfl⟩ := serves_pure.mp hrun
  exact ⟨[], rfl, le_rfl, by rwa [List.append_nil]⟩

theorem Covers.bind {x y : BuildService Unit} {cs cs' : List Call}
    (hx : Covers plan stated service x cs) (hy : Covers plan stated service y cs') :
    Covers plan stated service (do x; y) (cs ++ cs') := by
  intro answers o w o' w' h hrun
  obtain ⟨_, o₁, w₁, hfirst, hrest⟩ := serves_bind.mp hrun
  obtain ⟨more, rfl, hle, hmore⟩ := hx h hfirst
  obtain ⟨others, rfl, hle', hothers⟩ := hy hmore hrest
  refine ⟨more ++ others, List.map_append, hle.trans hle', ?_⟩
  rwa [← List.append_assoc]

/-- An operation with a success schema returns something, so that it has a function. -/
theorem buildOperation_covers (plan : Plan) (service path : String) {item : Api.PathItem}
    (method : Api.Method) (hstated : ∀ operation, item.operation? method = some operation →
      ∀ s, operation.States item s → stated s) :
    Covers plan stated service (buildOperation plan service path item method)
      (Call.of? path item method).toList := by
  rw [buildOperation, Call.of?]
  cases hoperation : item.operation? method with
  | none => exact covers_pure
  | some operation =>
    have hstated := hstated operation hoperation
    cases hsuccess : operation.successSchema? with
    | none => simpa [hsuccess, responseType, TypeRef.isVoid, TypeRef.void] using covers_pure
    | some success =>
      intro answers o w o' w' h hrun
      simp only [serves_bind, serves_lift] at hrun
      obtain ⟨returnType, _, w₁, ⟨hresponse, rfl⟩, hrun⟩ := hrun
      obtain ⟨place, schema, hfile, hparent, hheld, htype⟩ := responseType_runs hsuccess
        (.stated (hstated _ (Api.Operation.states_successSchema hsuccess))) hresponse
      have hhost : plan.Hosts place.file place.parent := by
        rw [hfile, hparent]
        exact ⟨plan.isHome_mainFile, .function method path⟩
      obtain ⟨hgrows, hreturns⟩ :=
        typeOf_grows h.coherent.remembers htype hhost hheld
      rw [hfile] at hreturns
      rw [hreturns.isVoid_eq_false, if_neg Bool.false_ne_true] at hrun
      obtain ⟨a, hcall, hle, hadd⟩ := buildFunction_outlined
        (c := { path, item, method, operation, success }) (h.grows hgrows) hstated hreturns hrun
      refine ⟨[a], ?_, hgrows.le.trans hle, hadd⟩
      simp [hcall, hsuccess]

theorem forM_covers (plan : Plan) (service path : String) {item : Api.PathItem}
    (methods : List Api.Method) (hstated : ∀ method operation,
      item.operation? method = some operation → ∀ s, operation.States item s → stated s) :
    Covers plan stated service (methods.forM (buildOperation plan service path item))
      (methods.filterMap (Call.of? path item)) := by
  induction methods with
  | nil => exact covers_pure
  | cons method rest ih =>
    have hfirst := buildOperation_covers plan service path method (hstated method)
    have heq : (method :: rest).filterMap (Call.of? path item) =
        (Call.of? path item method).toList ++ rest.filterMap (Call.of? path item) := by
      rw [List.filterMap_cons]
      cases Call.of? path item method <;> rfl
    rw [heq]
    exact hfirst.bind ih

/-- A service answers all calls of its paths. -/
theorem buildService_covers (plan : Plan) (service : String) {paths : Table Api.PathItem}
    (hstated : ∀ s, Api.StatedIn paths s → stated s) :
    Covers plan stated service (buildService plan service paths) (calls paths) := by
  induction paths with
  | nil => exact covers_pure
  | cons entry rest ih =>
    obtain ⟨path, item⟩ := entry
    have hitem : ∀ method operation, item.operation? method = some operation →
        ∀ s, operation.States item s → stated s := fun method operation hoperation s hs =>
      hstated s ⟨_, List.mem_cons_self, method, operation, hoperation, hs⟩
    refine (forM_covers plan service path Api.Method.all hitem).bind (ih fun s hs => hstated s ?_)
    obtain ⟨entry, hentry, hs⟩ := hs
    exact ⟨entry, List.mem_cons_of_mem _ hentry, hs⟩

end RestThrift.Convert
