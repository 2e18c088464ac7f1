import Mathlib
import RestThrift.Proofs.Marks
import RestThrift.Proofs.UniqueNames

/-!
# Coverage of operations

The functions of the service stand for the operations with a success schema, one for each, in the
order of their paths and methods. The other operations leave no trace: without them the conversion
is the same.
-/
namespace RestThrift

namespace Api

variable {item : PathItem} {method : Method} {operation : Operation} {response : Response}
  {path code : String}

/-! ## Success -/

/-- A code of success begins with a two. -/
def BeginsWithTwo (code : String) : Prop := ∃ rest, code.toList = '2' :: rest

theorem isSuccess_iff : isSuccess code = true ↔ BeginsWithTwo code := by
  rw [isSuccess, beq_iff_eq, List.head?_eq_some_iff, BeginsWithTwo]

/-- A response carries a schema of its own or for some media type. -/
def Response.Carries (response : Response) : Prop :=
  response.schema ≠ none ∨ ∃ entry ∈ response.content, entry.2 ≠ none

theorem Content.isSome_schema?_iff {content : Content} :
    content.schema?.isSome = true ↔ ∃ entry ∈ content, entry.2 ≠ none := by
  rw [schema?]
  cases hjson : (content.get? "application/json").join with
  | some schema =>
    have hget := Option.join_eq_some_iff.mp hjson
    have hcarries : ∃ entry ∈ content, entry.2 ≠ none :=
      ⟨_, Table.mem_of_get? hget, Option.some_ne_none schema⟩
    exact iff_of_true rfl hcarries
  | none =>
    simp only [List.isSome_findSome?, List.any_eq_true, Option.isSome_iff_ne_none]

theorem Response.isSome_effectiveSchema?_iff :
    response.effectiveSchema?.isSome = true ↔ response.Carries := by
  rw [effectiveSchema?, Carries]
  cases hschema : response.schema with
  | some schema => simp
  | none => simp only [Content.isSome_schema?_iff, ne_eq, not_true_eq_false, false_or]

/-- Some response with a code of success carries a schema. -/
def Operation.Succeeds (operation : Operation) : Prop :=
  ∃ entry ∈ operation.responses, BeginsWithTwo entry.1 ∧ entry.2.Carries

theorem Operation.isSome_successSchema?_iff :
    operation.successSchema?.isSome = true ↔ operation.Succeeds := by
  rw [successSchema?]
  cases hok : (operation.responses.get? "200").bind Response.effectiveSchema? with
  | some schema =>
    obtain ⟨response, hget, hschema⟩ := Option.bind_eq_some_iff.mp hok
    have hcarries : response.Carries :=
      Response.isSome_effectiveSchema?_iff.mp (by rw [hschema, Option.isSome_some])
    have hcode : BeginsWithTwo "200" := isSuccess_iff.mp (by decide)
    exact iff_of_true rfl ⟨_, Table.mem_of_get? hget, hcode, hcarries⟩
  | none =>
    simp only [List.isSome_findSome?, List.any_eq_true, List.mem_filter, and_assoc, isSuccess_iff,
      Response.isSome_effectiveSchema?_iff, Succeeds]

instance : Decidable operation.Succeeds := decidable_of_iff _ Operation.isSome_successSchema?_iff

/-- The operation of a path and a method. -/
def Document.operation? (document : Document) (path : String) (method : Method) :
    Option Operation :=
  (document.paths.get? path).bind fun item => item.operation? method

/-! ## Documents without the other operations -/

/-- The operation of a method, where there is one, has a success schema. -/
def PathItem.answers (item : PathItem) (method : Method) : Bool :=
  (item.operation? method).any fun operation => operation.Succeeds

/-- A path with the operations that have a success schema. -/
def PathItem.answering (item : PathItem) : PathItem :=
  { item with operations := item.operations.filter fun entry => item.answers entry.1 }

def Document.answering (document : Document) : Document :=
  { document with paths := document.paths.map fun entry => (entry.1, entry.2.answering) }

theorem lookup_filter {α β : Type} [BEq α] [LawfulBEq α] {p : α → Bool} {l : List (α × β)} {a : α} :
    (l.filter fun entry => p entry.1).lookup a = if p a then l.lookup a else none := by
  induction l with
  | nil => simp
  | cons entry rest ih =>
    obtain ⟨key, b⟩ := entry
    rw [List.filter_cons]
    by_cases hkey : a = key
    · subst hkey
      by_cases hp : p a = true
      · simp only [hp, if_true, List.lookup_cons_self]
      · simp only [hp, if_false, ih, Bool.false_eq_true]
    · have hne : (a == key) = false := beq_eq_false_iff_ne.mpr hkey
      by_cases hp : p key = true
      · simp only [hp, if_true, List.lookup_cons, hne, ih]
      · simp only [hp, if_false, List.lookup_cons, hne, ih, Bool.false_eq_true]

theorem PathItem.operation?_answering : item.answering.operation? method =
    if item.answers method then item.operation? method else none :=
  lookup_filter (p := item.answers)

/-! ## Visiting order -/

/-- Paths in ascending order, and the methods of a path in visiting order. -/
def Before (a b : String × Method) : Prop :=
  let methods : List Method := [.get, .put, .post, .delete, .patch]
  a.1 < b.1 ∨ a.1 = b.1 ∧ methods.idxOf a.2 < methods.idxOf b.2

/-- The operation of a path and a method has a success schema. -/
def Document.Returns (document : Document) (path : String) (method : Method) : Prop :=
  ∃ operation, document.operation? path method = some operation ∧ operation.Succeeds

end Api

namespace Convert

open Api

variable {plan : Plan} {stated : Api.Schema → Prop} {service path file : String}
  {item : PathItem} {method : Method} {c : Call}
  {document : Document} {options : Options} {schema : Schema} {answers : List Answer}
  {w : Workspace}

/-! ## Operations that are left out -/

/-- Where nothing is returned nothing is built. -/
theorem buildOperation_of_fails
    (h : ∀ operation, item.operation? method = some operation → ¬ operation.Succeeds) :
    buildOperation plan service path item method = pure () := by
  rw [buildOperation]
  cases hoperation : item.operation? method with
  | none => rfl
  | some operation =>
    have hnone : operation.successSchema? = none := by
      have hfails := h operation hoperation
      rw [← Operation.isSome_successSchema?_iff] at hfails
      simpa using hfails
    simp [responseType, hnone, TypeRef.void, TypeRef.isVoid]

theorem buildOperation_answering (plan : Plan) (service path : String) (item : PathItem)
    (method : Method) : buildOperation plan service path item.answering method =
      buildOperation plan service path item method := by
  by_cases h : item.answers method = true
  · have hfound : item.answering.operation? method = item.operation? method := by
      rw [PathItem.operation?_answering, if_pos h]
    rw [buildOperation, buildOperation, hfound]
    rfl
  · have hmissing : item.answering.operation? method = none := by
      rw [PathItem.operation?_answering, if_neg h]
    have hfails : ∀ operation, item.operation? method = some operation → ¬ operation.Succeeds := by
      intro operation hoperation hsucceeds
      rw [PathItem.answers, hoperation, Option.any_some] at h
      exact h (decide_eq_true hsucceeds)
    rw [buildOperation_of_fails hfails, buildOperation_of_fails fun operation hoperation => ?_]
    rw [hmissing] at hoperation
    cases hoperation

theorem buildService_answering (plan : Plan) (service : String) (paths : Table PathItem) :
    buildService plan service (paths.map fun entry => (entry.1, entry.2.answering)) =
      buildService plan service paths := by
  induction paths with
  | nil => rfl
  | cons entry rest ih =>
    obtain ⟨path, item⟩ := entry
    have hitem : buildOperation plan service path item.answering =
        buildOperation plan service path item :=
      funext fun method => buildOperation_answering plan service path item method
    simp only [List.map_cons, buildService, hitem, ih]

/-- The operations without a success schema contribute nothing. -/
theorem convert_answering (file : String) (document : Document) (options : Options) :
    convert file document.answering options = convert file document options := by
  simp only [convert, Document.answering, buildService_answering]

/-! ## Operations with a function -/

theorem of?_eq_some : Call.of? path item method = some c ↔
    c.path = path ∧ c.item = item ∧ c.method = method ∧
      item.operation? method = some c.operation ∧ c.operation.successSchema? = some c.success := by
  obtain ⟨path', item', method', operation, success⟩ := c
  simp only [Call.of?, Option.bind_eq_bind, Option.bind_eq_some_iff, Option.pure_def,
    Option.some.injEq, Call.mk.injEq]
  constructor
  · rintro ⟨found, hfound, schema, hschema, rfl, rfl, rfl, rfl, rfl⟩
    exact ⟨rfl, rfl, rfl, hfound, hschema⟩
  · rintro ⟨rfl, rfl, rfl, hfound, hschema⟩
    exact ⟨operation, hfound, success, hschema, rfl, rfl, rfl, rfl, rfl⟩

/-- The path and the method of a call. -/
def Call.route (c : Call) : String × Method := (c.path, c.method)

theorem Call.operation?_of_mem (hsorted : document.paths.Sorted) (hc : c ∈ calls document.paths) :
    document.operation? c.path c.method = some c.operation ∧ c.operation.Succeeds := by
  obtain ⟨entry, hentry, hmem⟩ := List.mem_flatMap.mp hc
  obtain ⟨method, -, hof⟩ := List.mem_filterMap.mp hmem
  obtain ⟨hpath, -, rfl, hfound, hsuccess⟩ := of?_eq_some.mp hof
  have hitem : document.paths.get? c.path = some entry.2 := by
    rw [hpath]
    exact Table.get?_of_mem hsorted.nodup hentry
  refine ⟨?_, Operation.isSome_successSchema?_iff.mp (by rw [hsuccess]; rfl)⟩
  rw [Document.operation?, hitem, Option.bind_some, hfound]

theorem mem_routes (hsorted : document.paths.Sorted) :
    (path, method) ∈ (calls document.paths).map Call.route ↔ document.Returns path method := by
  constructor
  · intro h
    obtain ⟨c, hc, hroute⟩ := List.mem_map.mp h
    obtain ⟨rfl, rfl⟩ := Prod.mk.inj hroute
    exact ⟨c.operation, Call.operation?_of_mem hsorted hc⟩
  · rintro ⟨operation, hfound, hsucceeds⟩
    obtain ⟨item, hitem, hoperation⟩ := Option.bind_eq_some_iff.mp hfound
    obtain ⟨success, hsuccess⟩ :=
      Option.isSome_iff_exists.mp (Operation.isSome_successSchema?_iff.mpr hsucceeds)
    let c : Call := { path, item, method, operation, success }
    have hof : Call.of? path item method = some c :=
      of?_eq_some.mpr ⟨rfl, rfl, rfl, hoperation, hsuccess⟩
    have hmethod : method ∈ Method.all := by cases method <;> decide
    have hc : c ∈ calls document.paths := by
      refine List.mem_flatMap.mpr ⟨(path, item), Table.mem_of_get? hitem, ?_⟩
      exact List.mem_filterMap.mpr ⟨method, hmethod, hof⟩
    exact List.mem_map.mpr ⟨c, hc, rfl⟩

theorem pairwise_methods :
    Method.all.Pairwise fun m n => Method.all.idxOf m < Method.all.idxOf n := by
  decide

theorem pairwise_routes {paths : Table PathItem} (hsorted : paths.Sorted) :
    ((calls paths).map Call.route).Pairwise Before := by
  rw [List.pairwise_map, calls, List.pairwise_flatMap]
  constructor
  · intro entry _
    refine List.pairwise_filterMap.mpr (pairwise_methods.imp fun hlt c hc d hd => ?_)
    obtain ⟨hpath, -, rfl, -⟩ := of?_eq_some.mp hc
    obtain ⟨hpath', -, rfl, -⟩ := of?_eq_some.mp hd
    exact .inr ⟨hpath.trans hpath'.symm, hlt⟩
  · refine (List.pairwise_map.mp hsorted).imp fun {entry other} hlt c hc d hd => ?_
    obtain ⟨method, -, hof⟩ := List.mem_filterMap.mp hc
    obtain ⟨method', -, hof'⟩ := List.mem_filterMap.mp hd
    have hpath := (of?_eq_some.mp hof).1
    have hpath' := (of?_eq_some.mp hof').1
    refine .inl ?_
    rw [Call.route, Call.route, hpath, hpath']
    exact hlt

/-! ## The functions of a service -/

/-- The function of an operation is marked with the method and the quoted path. It returns
something, takes one parameter, and throws a field for each response with a schema whose code is
none of success, in the order of the codes. -/
structure Realizes (document : Document) (route : String × Method) (f : ServiceFunction) :
    Prop where
  annotations : ∃ a, f.annotations = [a] ∧ Annotation.Routes route.1 route.2 a
  returns : f.returnType ≠ .void
  parameters : ∃ parameter, f.parameters = [parameter]
  throws : ∃ operation, document.operation? route.1 route.2 = some operation ∧
    (failures operation.responses).Sorted ∧
    (∀ entry, entry ∈ failures operation.responses ↔
      entry ∈ operation.responses ∧ ¬ BeginsWithTwo entry.1 ∧ entry.2.Carries) ∧
    List.Forall₂ ThrowsFor (failures operation.responses) f.throws

theorem mem_failures {responses : Table Response} {entry : String × Response} :
    entry ∈ failures responses ↔
      entry ∈ responses ∧ ¬ BeginsWithTwo entry.1 ∧ entry.2.Carries := by
  rw [failures, List.mem_filter, isFailure, Bool.and_eq_true, Bool.not_eq_true',
    ← Bool.not_eq_true, isSuccess_iff, Response.isSome_effectiveSchema?_iff]

theorem sorted_failures {responses : Table Response} (h : responses.Sorted) :
    (failures responses).Sorted :=
  h.sublist (List.filter_sublist.map _)

theorem Answer.Holds.realizes {a : Answer} (h : a.Holds plan service w) (hsorted : document.Sorted)
    (hcall : a.call ∈ calls document.paths) : Realizes document a.call.route a.function where
  annotations := ⟨_, h.annotations, Annotation.routes_quoted _ _⟩
  returns := by
    intro hvoid
    have hnot := h.returns.isVoid_eq_false
    rw [hvoid] at hnot
    cases hnot
  parameters := ⟨_, h.parameters⟩
  throws := by
    obtain ⟨hfound, -⟩ := Call.operation?_of_mem hsorted.paths hcall
    obtain ⟨item, hitem, hoperation⟩ := Option.bind_eq_some_iff.mp hfound
    have hresponses := hsorted.items _ (Table.mem_of_get? hitem) _ _ hoperation
    refine ⟨a.call.operation, hfound, sorted_failures hresponses, fun _ => mem_failures, ?_⟩
    exact h.throws.imp fun _ _ hthrown => hthrown.toThrowsFor

/-- The functions of a finished schema stand for its operations. -/
theorem Finished.realizes (h : Finished plan stated service answers w schema)
    (hsorted : document.Sorted) (hcalls : answers.map Answer.call = calls document.paths) :
    List.Forall₂ (Realizes document) ((calls document.paths).map Call.route)
      (answers.map Answer.function) := by
  rw [← hcalls, List.map_map, List.forall₂_map_left_iff, List.forall₂_map_right_iff,
    List.forall₂_same]
  intro a ha
  refine (h.holds a ha).realizes hsorted ?_
  rw [← hcalls]
  exact List.mem_map_of_mem ha

/-- The service of the given functions. -/
def mainService (plan : Plan) (service : String) (functions : List ServiceFunction) : Service :=
  { name := service, fqn := fqnOf plan.mainFile service, functions }

theorem Finished.no_services (h : Finished plan stated service [] w schema) :
    schema.files.filter (fun f => !f.definitions.services.isEmpty) = [] := by
  refine List.filter_eq_nil_iff.mpr fun f hf => ?_
  have hnone : f.definitions.services = [] := by
    rw [h.services_eq hf, servicesIn]
    split <;> rfl
  simp [hnone]

/-- Where there are functions the main file has the only service. -/
theorem Finished.one_service (h : Finished plan stated service answers w schema)
    (hne : answers ≠ []) :
    ∃ main, schema.files.filter (fun f => !f.definitions.services.isEmpty) = [main] ∧
      main.path = plan.mainFile ∧
      main.definitions.services = [mainService plan service (answers.map Answer.function)] := by
  obtain ⟨main, hmain, hpath⟩ := List.mem_map.mp h.main
  have hfunctions : (answers.map Answer.function).isEmpty = false := by
    simpa [List.isEmpty_eq_false_iff] using hne
  have hservices : ∀ f ∈ schema.files, f.definitions.services =
      if f.path = main.path then [mainService plan service (answers.map Answer.function)]
      else [] := by
    intro f hf
    rw [h.services_eq hf, servicesIn, serviceOf, hfunctions, hpath]
    simp only [eq_comm, Bool.false_eq_true, if_false, mainService]
  refine ⟨main, ?_, hpath, by rw [hservices main hmain, if_pos rfl]⟩
  rw [← filter_eq_singleton h.paths hmain]
  refine List.filter_congr fun f hf => ?_
  rw [hservices f hf]
  by_cases hsame : f.path = main.path
  · simp [hsame]
  · simp [hsame]

end Convert

/-- The service of the main file, the only one, has exactly one function for each operation with a
success schema, in visiting order; where no operation has one there is no service. The schema is
that of the document without the other operations. -/
theorem convertDocument_covers_operations {file : String} {bytes : List UInt8} {options : Options}
    {schema : Schema} (h : convertDocument file bytes options = .ok schema) :
    ∃ document, readDocument file bytes = .ok document ∧
      convert file document.answering options = .ok schema ∧
      ∃ routes : List (String × Api.Method), routes.Pairwise Api.Before ∧
        (∀ path method, (path, method) ∈ routes ↔ document.Returns path method) ∧
        ((routes = [] ∧ schema.files.filter (fun f => !f.definitions.services.isEmpty) = []) ∨
          (routes ≠ [] ∧ ∃ main service,
            schema.files.filter (fun f => !f.definitions.services.isEmpty) = [main] ∧
            main.path = Convert.spaceFile (Convert.outputStem file) Naming.mainNamespace ∧
            main.definitions.services = [service] ∧
            List.Forall₂ (Convert.Realizes document) routes service.functions)) := by
  have hconvert := h
  obtain ⟨document, plan, answers, w, hread, hstem, -, hcalls, hfinished⟩ :=
    Convert.convertDocument_finished h
  have hsorted := readDocument_sorted hread
  refine ⟨document, hread, ?_, (Convert.calls document.paths).map Convert.Call.route,
    Convert.pairwise_routes hsorted.paths, fun _ _ => Convert.mem_routes hsorted.paths, ?_⟩
  · rw [Convert.convert_answering]
    rwa [convertDocument, hread] at hconvert
  · have hrealizes := hfinished.realizes hsorted hcalls
    by_cases hnone : answers = []
    · subst hnone
      rw [← hcalls]
      exact .inl ⟨rfl, hfinished.no_services⟩
    · obtain ⟨main, hfilter, hpath, hservices⟩ := hfinished.one_service hnone
      refine .inr ⟨?_, main, _, hfilter, ?_, hservices, hrealizes⟩
      · rw [← hcalls]
        simpa using hnone
      · rw [hpath, Convert.Plan.mainFile, hstem]

/-- Two paths, one with a parameter, and two operations whose success carries no schema. -/
def keeperDocument : List UInt8 :=
  ("swagger: \"2.0\"\npaths:\n" ++
    "  /pets/{id}:\n" ++
    "    patch:\n      responses:\n        200:\n          schema: {}\n" ++
    "    get:\n      responses:\n        200:\n          schema: {}\n" ++
    "        404:\n          schema: {}\n        500:\n          description: broken\n" ++
    "    delete:\n      responses:\n        204:\n          description: gone\n" ++
    "  /pets:\n" ++
    "    get:\n      responses:\n        default:\n          schema: {}\n" ++
    "    post:\n      responses:\n        201:\n          schema: {}\n").toUTF8.data.toList

/-- The annotations of the functions, and the names of what they throw. -/
def Schema.routes (schema : Schema) : List (List (String × Option String) × List String) :=
  schema.files.flatMap fun f => f.definitions.services.flatMap fun service =>
    service.functions.map fun function =>
      (function.annotations.map fun a => (a.name, a.value.map Literal.emit),
        function.throws.map Field.name)

def keeperRoutes : List (List (String × Option String) × List String) :=
  [([("api.post", some "\"/pets\"")], []),
    ([("api.get", some "\"/pets/:id\"")], ["error404"]),
    ([("api.patch", some "\"/pets/:id\"")], [])]

theorem keeperDocument_converts :
    ∃ schema, convertDocument "pets.yaml" keeperDocument {} = .ok schema ∧
      schema.routes = keeperRoutes := by
  refine exists_of_toOption ?_
  decide +kernel

theorem keeperDocument_covers_operations :
    ∃ schema, convertDocument "pets.yaml" keeperDocument {} = .ok schema ∧
      schema.routes = keeperRoutes ∧
      ∃ document, readDocument "pets.yaml" keeperDocument = .ok document ∧
        convert "pets.yaml" document.answering {} = .ok schema ∧
        ∃ routes : List (String × Api.Method), routes.Pairwise Api.Before ∧
          (∀ path method, (path, method) ∈ routes ↔ document.Returns path method) ∧
          ((routes = [] ∧ schema.files.filter (fun f => !f.definitions.services.isEmpty) = []) ∨
            (routes ≠ [] ∧ ∃ main service,
              schema.files.filter (fun f => !f.definitions.services.isEmpty) = [main] ∧
              main.path = Convert.spaceFile (Convert.outputStem "pets.yaml") Naming.mainNamespace ∧
              main.definitions.services = [service] ∧
              List.Forall₂ (Convert.Realizes document) routes service.functions)) := by
  obtain ⟨schema, h, hroutes⟩ := keeperDocument_converts
  exact ⟨schema, h, hroutes, convertDocument_covers_operations h⟩

end RestThrift
