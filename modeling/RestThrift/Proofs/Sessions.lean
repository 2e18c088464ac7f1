import Mathlib
import RestThrift.Proofs.Lookup

/-!
# Sessions with a catalog

Whatever is done to a catalog, it has no index or that of its current files. So a session of
look-ups and changes goes as on a plain schema that is scanned at each look-up.
-/
namespace RestThrift

/-! ## Actions -/

/-- The look-ups of a catalog. -/
inductive Finder
  | any
  | services
  | functions
  | messages
  | messagesOf (kind : MessageKind)
  | enums
  | constants
  | typedefs

/-- The definitions that a look-up is for. -/
def Finder.accepts : Finder → Definition → Bool
  | .any, _ => true
  | .services, .service _ => true
  | .functions, .function _ => true
  | .messages, .message _ => true
  | .messagesOf kind, .message m => m.kind == kind
  | .enums, .enumeration _ => true
  | .constants, .constant _ => true
  | .typedefs, .typedef _ => true
  | _, _ => false

/-- What is done to a live schema. -/
inductive Action
  | find (finder : Finder) (query : String)
  | edit (change : List File → List File)
  | sort
  | clone
  | readBack

namespace Catalog

variable {catalog : Catalog} {query : String}

/-- A look-up, with what it finds as definitions. -/
def lookUp (catalog : Catalog) (finder : Finder) (query : String) : List Definition × Catalog :=
  match finder with
  | .any => catalog.find query
  | .services => (catalog.findServices query).map (List.map .service) id
  | .functions => (catalog.findFunctions query).map (List.map .function) id
  | .messages => (catalog.findMessages query).map (List.map .message) id
  | .messagesOf kind => (catalog.findMessagesOf kind query).map (List.map .message) id
  | .enums => (catalog.findEnums query).map (List.map .enumeration) id
  | .constants => (catalog.findConstants query).map (List.map .constant) id
  | .typedefs => (catalog.findTypedefs query).map (List.map .typedef) id

/-- The answer to an action, which is empty for all but look-ups, and the catalog behind it. A
schema that cannot be read back stays as it is. -/
def act (catalog : Catalog) : Action → List Definition × Catalog
  | .find finder query => catalog.lookUp finder query
  | .edit change => ([], catalog.modifyFiles change)
  | .sort => ([], catalog.sort)
  | .clone => ([], catalog.clone)
  | .readBack => ([], catalog.readBack?.getD catalog)

/-- The answers to actions in turn. -/
def session (catalog : Catalog) : List Action → List (List Definition) × Catalog
  | [] => ([], catalog)
  | action :: rest =>
    let (answer, catalog) := catalog.act action
    let (answers, catalog) := catalog.session rest
    (answer :: answers, catalog)

end Catalog

namespace Schema

/-- An action on a schema without an index: a look-up scans the files. -/
def act (schema : Schema) : Action → List Definition × Schema
  | .find finder query => ((scan schema.files query).filter finder.accepts, schema)
  | .edit change => ([], { schema with files := change schema.files })
  | .sort => ([], schema.sorted)
  | .clone => ([], schema)
  | .readBack => ([], ((Json.parse? schema.toJson.render).bind Schema.ofJson?).getD schema)

def session (schema : Schema) : List Action → List (List Definition) × Schema
  | [] => ([], schema)
  | action :: rest =>
    let (answer, schema) := schema.act action
    let (answers, schema) := schema.session rest
    (answer :: answers, schema)

end Schema

/-! ## The index of the current files -/

namespace Catalog

variable {catalog : Catalog}

/-- There is no index, or it is that of the current files. -/
def Current (catalog : Catalog) : Prop :=
  ∀ index, catalog.index = some index → index = Index.ofFiles catalog.schema.files

theorem current_of_none (h : catalog.index = none) : catalog.Current := by
  intro index hindex
  simp [h] at hindex

/-- A look-up answers as a scan does, and leaves the schema and the index of its files behind. -/
theorem find_spec (h : catalog.Current) (query : String) :
    ∃ found, catalog.find query = (scan catalog.schema.files query, found) ∧
      found.schema = catalog.schema ∧ found.Current := by
  cases hindex : catalog.index with
  | none =>
    let index := Index.ofFiles catalog.schema.files
    have hfind : catalog.find query =
        (index.find catalog.schema.files query, { catalog with index := some index }) := by
      simp [find, indexed, hindex, index]
    rw [find_ofFiles] at hfind
    refine ⟨_, hfind, rfl, ?_⟩
    intro other hother
    exact (Option.some.inj hother).symm
  | some index =>
    have hcurrent : index = Index.ofFiles catalog.schema.files := h index hindex
    have hfind : catalog.find query = (index.find catalog.schema.files query, catalog) := by
      simp [find, indexed, hindex]
    rw [hcurrent, find_ofFiles] at hfind
    exact ⟨catalog, hfind, rfl, h⟩

/-- Each look-up finds what a scan finds of its kind. -/
theorem lookUp_spec (h : catalog.Current) (finder : Finder) (query : String) :
    ∃ found, catalog.lookUp finder query =
        ((scan catalog.schema.files query).filter finder.accepts, found) ∧
      found.schema = catalog.schema ∧ found.Current := by
  obtain ⟨found, hfind, hkept⟩ := find_spec h query
  have hpick : ∀ {α : Type} (pick : Definition → Option α) (wrap : α → Definition),
      (∀ d, (pick d).map wrap = if finder.accepts d then some d else none) →
      (catalog.findWith pick query).map (List.map wrap) id =
        ((scan catalog.schema.files query).filter finder.accepts, found) := by
    intro α pick wrap hp
    simp only [findWith, hfind, Prod.map, id_eq]
    rw [map_filterMap_eq_filter hp]
  refine ⟨found, ?_, hkept⟩
  cases finder with
  | any =>
    have hall : (scan catalog.schema.files query).filter Finder.any.accepts =
        scan catalog.schema.files query := List.filter_eq_self.mpr fun _ _ => rfl
    rw [hall]
    exact hfind
  | services => exact hpick Definition.service? .service fun d => by cases d <;> rfl
  | functions => exact hpick Definition.function? .function fun d => by cases d <;> rfl
  | messages => exact hpick Definition.message? .message fun d => by cases d <;> rfl
  | messagesOf kind =>
    have hkind : ∀ d : Definition, (d.message?.filter fun m => m.kind == kind).map .message =
        if (Finder.messagesOf kind).accepts d then some d else none := by
      intro d
      cases d with
      | message m =>
        by_cases hm : m.kind = kind <;> simp [Definition.message?, Finder.accepts, hm]
      | _ => rfl
    rw [← hpick (fun d => d.message?.filter fun m => m.kind == kind) .message hkind]
    simp [lookUp, findMessagesOf, findMessages, findWith, hfind, List.filter_filterMap]
  | enums => exact hpick Definition.enumeration? .enumeration fun d => by cases d <;> rfl
  | constants => exact hpick Definition.constant? .constant fun d => by cases d <;> rfl
  | typedefs => exact hpick Definition.typedef? .typedef fun d => by cases d <;> rfl

/-! ## Whole sessions -/

/-- An action on a catalog does and answers what it does and answers on the plain schema. -/
theorem act_spec (h : catalog.Current) (action : Action) :
    (catalog.act action).1 = (catalog.schema.act action).1 ∧
      (catalog.act action).2.schema = (catalog.schema.act action).2 ∧
      (catalog.act action).2.Current := by
  cases action with
  | find finder query =>
    obtain ⟨found, hlookUp, hschema, hcurrent⟩ := lookUp_spec h finder query
    simp only [act, Schema.act, hlookUp]
    exact ⟨trivial, hschema, hcurrent⟩
  | edit change => exact ⟨rfl, rfl, current_of_none rfl⟩
  | sort => exact ⟨rfl, rfl, current_of_none rfl⟩
  | clone => exact ⟨rfl, rfl, h⟩
  | readBack =>
    simp only [act, Schema.act, readBack?]
    cases (Json.parse? catalog.schema.toJson.render).bind Schema.ofJson? with
    | none => exact ⟨trivial, rfl, h⟩
    | some schema => exact ⟨trivial, rfl, current_of_none rfl⟩

theorem session_spec (h : catalog.Current) (actions : List Action) :
    (catalog.session actions).1 = (catalog.schema.session actions).1 ∧
      (catalog.session actions).2.schema = (catalog.schema.session actions).2 := by
  induction actions generalizing catalog with
  | nil => exact ⟨rfl, rfl⟩
  | cons action rest ih =>
    obtain ⟨hanswer, hschema, hcurrent⟩ := act_spec h action
    obtain ⟨hanswers, hend⟩ := ih hcurrent
    rw [hschema] at hanswers hend
    simp only [session, Schema.session]
    exact ⟨by rw [hanswer, hanswers], hend⟩

/-- A session that begins with any schema, of look-ups of all kinds, changes of the files, sorting,
copying, and writing and reading back, gives the answers that scans of the files give at each
look-up, and leaves the same schema behind. -/
theorem session_eq_scans (schema : Schema) (actions : List Action) :
    ((ofSchema schema).session actions).1 = (schema.session actions).1 ∧
      ((ofSchema schema).session actions).2.schema = (schema.session actions).2 :=
  session_spec (current_of_none rfl) actions

end Catalog

end RestThrift
