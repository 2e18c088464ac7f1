import Mathlib
import RestThrift.Thrift.Order
import RestThrift.Thrift.Shape

/-!
# Data with comments

Lists of comments stand at the namespaces and includes of a file, at its definitions, and at their
members, fields and functions. Data can have all of these lists changed at once, which leaves the
rest as it is: names, references and whether two messages have one shape.
-/
namespace RestThrift

/-- Data in which lists of comments may stand. -/
class Commented (α : Type) where
  /-- The data with each of its lists of comments changed. -/
  recomment (φ : List Comment → List Comment) : α → α
  recomment_id (a : α) : recomment id a = a

export Commented (recomment recomment_id)

/-! ## Data without comments, and data made of other data -/

section Instances

variable {α β : Type} [Commented α] [Commented β]

instance : Commented PUnit := ⟨fun _ => id, fun _ => rfl⟩

instance : Commented String := ⟨fun _ => id, fun _ => rfl⟩

instance : Commented TypeRef := ⟨fun _ => id, fun _ => rfl⟩

instance : Commented (Option Literal) := ⟨fun _ => id, fun _ => rfl⟩

instance : Commented (List α) where
  recomment φ := List.map (recomment φ)
  recomment_id l := by rw [funext recomment_id, List.map_id']

instance : Commented (α × β) where
  recomment φ := Prod.map (recomment φ) (recomment φ)
  recomment_id a := by simp only [Prod.map_apply', recomment_id]

end Instances

/-! ## Schemas -/

instance : Commented Field := ⟨fun φ field => { field with comments := φ field.comments },
  fun _ => rfl⟩

instance : Commented EnumMember := ⟨fun φ m => { m with comments := φ m.comments }, fun _ => rfl⟩

instance : Commented Constant := ⟨fun φ c => { c with comments := φ c.comments }, fun _ => rfl⟩

instance : Commented Typedef := ⟨fun φ t => { t with comments := φ t.comments }, fun _ => rfl⟩

instance : Commented Import := ⟨fun φ i => { i with comments := φ i.comments }, fun _ => rfl⟩

instance : Commented Namespace := ⟨fun φ n => { n with comments := φ n.comments }, fun _ => rfl⟩

instance : Commented Message where
  recomment φ m := { m with fields := recomment φ m.fields, comments := φ m.comments }
  recomment_id m := by simp only [recomment_id, id_eq]

instance : Commented Enumeration where
  recomment φ e := { e with members := recomment φ e.members, comments := φ e.comments }
  recomment_id e := by simp only [recomment_id, id_eq]

instance : Commented ServiceFunction where
  recomment φ f :=
    { f with parameters := recomment φ f.parameters, throws := recomment φ f.throws
             comments := φ f.comments }
  recomment_id f := by simp only [recomment_id, id_eq]

instance : Commented Service where
  recomment φ s := { s with functions := recomment φ s.functions, comments := φ s.comments }
  recomment_id s := by simp only [recomment_id, id_eq]

instance : Commented Definitions where
  recomment φ d :=
    { services := recomment φ d.services, messages := recomment φ d.messages
      enums := recomment φ d.enums, constants := recomment φ d.constants
      typedefs := recomment φ d.typedefs }
  recomment_id d := by simp only [recomment_id]

instance : Commented File where
  recomment φ f :=
    { f with imports := recomment φ f.imports, namespaces := recomment φ f.namespaces
             definitions := recomment φ f.definitions }
  recomment_id f := by simp only [recomment_id]

instance : Commented Schema where
  recomment φ s := { s with files := recomment φ s.files }
  recomment_id s := by simp only [recomment_id]

instance : Commented Definition where
  recomment φ
    | .service s => .service (recomment φ s)
    | .function f => .function (recomment φ f)
    | .message m => .message (recomment φ m)
    | .enumeration e => .enumeration (recomment φ e)
    | .constant c => .constant (recomment φ c)
    | .typedef t => .typedef (recomment φ t)
  recomment_id d := by cases d <;> simp only [recomment_id]

/-- The schema with the list of comments of each of its parts emptied. -/
def Schema.withoutComments (schema : Schema) : Schema := recomment (fun _ => []) schema

variable {φ : List Comment → List Comment}

theorem recomment_list {α : Type} [Commented α] (l : List α) :
    recomment φ l = l.map (recomment φ) := rfl

theorem recomment_cons {α : Type} [Commented α] (a : α) (l : List α) :
    recomment φ (a :: l) = recomment φ a :: recomment φ l := rfl

theorem recomment_append {α : Type} [Commented α] (l l' : List α) :
    recomment φ (l ++ l') = recomment φ l ++ recomment φ l' := List.map_append

/-! ## Shapes -/

theorem sameFields_recomment (as bs : List Field) :
    sameFields (recomment φ as) (recomment φ bs) = sameFields as bs := by
  induction as generalizing bs with
  | nil => cases bs <;> rfl
  | cons a as ih =>
    cases bs with
    | nil => rfl
    | cons b bs =>
      simp only [recomment_cons, sameFields, ih]
      rfl

/-- Whether two messages have one shape does not depend on comments. -/
theorem Message.sameShape_recomment (a b : Message) :
    (recomment φ a).sameShape (recomment φ b) = a.sameShape b := by
  have hfields := sameFields_recomment (φ := φ) a.fields b.fields
  simp only [sameShape, ← hfields]
  rfl

/-! ## Names and references -/

theorem Definitions.message?_recomment (d : Definitions) (name : String) :
    (recomment φ d).message? name = (d.message? name).map (recomment φ) := List.find?_map

theorem Definitions.enum?_recomment (d : Definitions) (name : String) :
    (recomment φ d).enum? name = (d.enum? name).map (recomment φ) := List.find?_map

theorem Definition.name_recomment (definition : Definition) :
    (recomment φ definition).name = definition.name := by cases definition <;> rfl

theorem ServiceFunction.types_recomment (f : ServiceFunction) :
    (recomment φ f).types = f.types := by
  have hfields : (recomment φ f).parameters ++ (recomment φ f).throws =
      (f.parameters ++ f.throws).map (recomment φ) := List.map_append.symm
  rw [types, hfields, List.map_map]
  rfl

theorem Definition.mentions_recomment (definition : Definition) :
    (recomment φ definition).mentions = definition.mentions := by
  cases definition with
  | service s =>
    have htypes : (recomment φ s.functions).flatMap ServiceFunction.types =
        s.functions.flatMap ServiceFunction.types := by
      rw [recomment_list, List.flatMap_map, funext ServiceFunction.types_recomment]
    exact congrArg (fun types => s.parent.toList ++ types.flatMap TypeRef.localNames) htypes
  | function f => exact congrArg (List.flatMap TypeRef.localNames) f.types_recomment
  | message m => exact List.flatMap_map ..
  | _ => rfl

/-! ## Sorted definitions -/

theorem Definitions.entries_recomment (d : Definitions) :
    (recomment φ d).entries = recomment φ d.entries := by
  simp only [entries, recomment, List.map_append, List.map_map, Function.comp_def]

theorem Definitions.ofEntries_recomment (l : List Definition) :
    ofEntries (recomment φ l) = recomment φ (ofEntries l) := by
  have hkind : ∀ {α : Type} [Commented α] (kind? : Definition → Option α),
      (∀ definition, kind? (recomment φ definition) = (kind? definition).map (recomment φ)) →
        (recomment φ l).filterMap kind? = recomment φ (l.filterMap kind?) := by
    intro α _ kind? h
    rw [recomment_list, recomment_list, List.filterMap_map, List.map_filterMap]
    exact congrArg (List.filterMap · l) (funext h)
  have hservices := hkind Definition.service? fun d => by cases d <;> rfl
  have hmessages := hkind Definition.message? fun d => by cases d <;> rfl
  have henums := hkind Definition.enumeration? fun d => by cases d <;> rfl
  have hconstants := hkind Definition.constant? fun d => by cases d <;> rfl
  have htypedefs := hkind Definition.typedef? fun d => by cases d <;> rfl
  simp only [ofEntries, hservices, hmessages, henums, hconstants, htypedefs]
  rfl

theorem Order.dependencies_recomment (entries : List Definition) :
    dependencies (recomment φ entries) = dependencies entries := by
  have hnames : (recomment φ entries).map Definition.name = entries.map Definition.name := by
    rw [recomment_list, List.map_map]
    exact List.map_congr_left fun definition _ => definition.name_recomment
  simp only [dependencies, hnames]
  rw [recomment_list, List.zipIdx_map, List.map_map]
  refine List.map_congr_left fun entry _ => ?_
  simp only [Function.comp_apply, Prod.map_fst, Prod.map_snd, id_eq,
    Definition.mentions_recomment]

/-- The order of definitions depends on names and references only. -/
theorem Definitions.sorted_recomment (d : Definitions) :
    (recomment φ d).sorted = recomment φ d.sorted := by
  rw [sorted, entries_recomment, Order.dependencies_recomment, sorted, ← ofEntries_recomment,
    recomment_list, recomment_list, List.map_filterMap]
  simp only [List.getElem?_map]

end RestThrift
