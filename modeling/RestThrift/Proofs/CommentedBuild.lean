import Mathlib
import RestThrift.Proofs.Assembly
import RestThrift.Proofs.Commented
import RestThrift.Proofs.Edits

/-!
# Comments of definitions under construction

A workspace and an outline hold definitions, whose comments can be changed like those of a finished
schema. Names, shapes and references do not depend on comments, so each step of a conversion
commutes with the change: names are claimed, definitions found and messages united alike, and the
schema that is assembled at the end has its comments changed.
-/
namespace RestThrift

variable {φ : List Comment → List Comment}

/-! ## Workspaces -/

namespace Convert

instance : Commented Workspace where
  recomment φ w := { w with files := Table.mapValues (recomment φ) w.files }
  recomment_id w := by
    change { w with files := recomment id w.files } = w
    rw [recomment_id]

namespace Workspace

variable (w : Workspace) (file base : String)

theorem inlineEnum?_recomment :
    (recomment φ w).inlineEnum? file base = w.inlineEnum? file base := rfl

theorem recomment_of_files_nil {w : Workspace} (h : w.files = []) : recomment φ w = w := by
  obtain ⟨files, taken, inlineEnums⟩ := w
  obtain rfl : files = [] := h
  rfl

theorem definitions_recomment :
    (recomment φ w).definitions file = recomment φ (w.definitions file) := by
  have hget : (recomment φ w).files.get? file = (w.files.get? file).map (recomment φ) :=
    Table.get?_mapValues
  rw [definitions, definitions, hget]
  cases w.files.get? file <;> rfl

theorem modify_recomment {change change' : Definitions → Definitions}
    (h : ∀ d, change' (recomment φ d) = recomment φ (change d)) :
    (recomment φ w).modify file change' = recomment φ (w.modify file change) := by
  have hfiles : Table.update file {} change' (Table.mapValues (recomment φ) w.files) =
      Table.mapValues (recomment φ) (w.files.update file {} change) := by
    have hold := definitions_recomment (φ := φ) w file
    rw [Table.update, Table.update, ← Table.insert_mapValues, ← h]
    exact congrArg (fun d => Table.insert file (change' d) _) hold
  exact congrArg (fun files => { w with files }) hfiles

theorem addMessage_recomment (message : Message) :
    (recomment φ w).addMessage file (recomment φ message) =
      recomment φ (w.addMessage file message) := by
  refine modify_recomment w file fun d => ?_
  simp only [recomment, List.map_append, List.map_cons, List.map_nil]

theorem addEnum_recomment (e : Enumeration) :
    (recomment φ w).addEnum file (recomment φ e) = recomment φ (w.addEnum file e) := by
  refine modify_recomment w file fun d => ?_
  simp only [recomment, List.map_append, List.map_cons, List.map_nil]

theorem addTypedef_recomment (t : Typedef) :
    (recomment φ w).addTypedef file (recomment φ t) = recomment φ (w.addTypedef file t) := by
  refine modify_recomment w file fun d => ?_
  simp only [recomment, List.map_append, List.map_cons, List.map_nil]

theorem matchFrom_recomment (d : Definitions) (taken : List String) (message : Message)
    (steps n : Nat) : matchFrom (recomment φ d) taken base (recomment φ message) steps n =
      matchFrom d taken base message steps n := by
  induction steps generalizing n with
  | zero => rfl
  | succ steps ih =>
    have hshape : ∀ other : Message, (recomment φ other).sameShape
        { recomment φ message with name := numbered base n } =
          other.sameShape { message with name := numbered base n } := fun other =>
      Message.sameShape_recomment other { message with name := numbered base n }
    simp only [matchFrom, Definitions.message?_recomment, ih]
    cases d.message? (numbered base n) with
    | none => rfl
    | some other => simp only [Option.map_some, hshape]

/-- A message of a shape is found whatever the comments are. -/
theorem matching?_recomment (message : Message) :
    (recomment φ w).matching? file base (recomment φ message) =
      w.matching? file base message := by
  have hmatch := matchFrom_recomment (φ := φ) base (w.definitions file) (w.namesIn file) message
    ((w.namesIn file).length + 1) 0
  rw [← definitions_recomment] at hmatch
  exact hmatch

theorem defaultMember?_recomment (name : String) (choices : List Api.Choice) (value : Yaml.Value) :
    defaultMember? (recomment φ w) file name choices value =
      defaultMember? w file name choices value := by
  simp only [defaultMember?, definitions_recomment, Definitions.enum?_recomment]
  cases choices.findIdx? fun choice => choice.accepts value with
  | none => rfl
  | some position =>
    cases (w.definitions file).enum? name with
    | none => rfl
    | some e =>
      have hget : (recomment φ e).members[position]? = (e.members[position]?).map (recomment φ) :=
        List.getElem?_map
      simp only [Option.map_some, Option.bind_eq_bind, Option.bind_some, hget]
      cases e.members[position]? <;> rfl

end Workspace

/-! ## Enumerations and fields -/

variable {e : Api.Edit}

theorem comments_nil : e.comments [] = [] := by
  rw [Api.Edit.comments]
  cases e.keeps <;> rfl

/-- The members of a built enumeration have no comments. -/
theorem recomment_membersFrom (name : String) (names : Option (List String)) (position : Nat)
    (choices : List Api.Choice) : recomment e.comments (membersFrom name names position choices) =
      membersFrom name names position choices := by
  induction choices generalizing position with
  | nil => rfl
  | cons choice rest ih =>
    have hmember : recomment e.comments (memberFor name names position choice) =
        memberFor name names position choice :=
      congrArg (fun comments => { memberFor name names position choice with comments })
        comments_nil
    rw [membersFrom, recomment_cons, hmember, ih]

theorem enumeration_edit (file name : String) (schema : Api.Schema) :
    enumeration file name (schema.edit e) =
      recomment e.comments (enumeration file name schema) := by
  have hmembers : recomment e.comments (enumeration file name schema).members =
      (enumeration file name schema).members := recomment_membersFrom ..
  have hbuilt : recomment e.comments (enumeration file name schema) =
      { enumeration file name schema with
        members := recomment e.comments (enumeration file name schema).members
        comments := e.comments (describe schema.description) } := rfl
  rw [hbuilt, hmembers]
  simp only [enumeration, Api.Schema.choiceNames_edit, Api.Schema.choices_edit,
    Api.Schema.description_edit, Api.Edit.describe_text]

theorem renumberFrom_recomment (id : Int) (fields : List Field) :
    renumberFrom id (recomment φ fields) = recomment φ (renumberFrom id fields) := by
  induction fields generalizing id with
  | nil => rfl
  | cons field rest ih =>
    simp only [recomment_cons, renumberFrom, ih]
    rfl

theorem renumber_recomment (fields : List Field) :
    renumber (recomment φ fields) = recomment φ (renumber fields) :=
  renumberFrom_recomment 1 fields

/-! ## Requests -/

theorem addAnnotations_recomment (field : Field) (added : List Annotation) :
    addAnnotations (recomment φ field) added = recomment φ (addAnnotations field added) := by
  induction added generalizing field with
  | nil => rfl
  | cons a rest ih =>
    have hstep : ∀ f : Field, addAnnotations f (a :: rest) = addAnnotations
        (if f.hasAnnotation a.name then f
          else { f with annotations := f.annotations ++ [a] }) rest := fun _ => rfl
    have hhas : Field.hasAnnotation (recomment φ field) a.name = field.hasAnnotation a.name := rfl
    rw [hstep, hstep, ← ih, hhas]
    split <;> rfl

theorem absorb_recomment {combine : Field → Field → Field}
    (h : ∀ a b, combine (recomment φ a) (recomment φ b) = recomment φ (combine a b))
    (field : Field) (fields : List Field) :
    absorb combine (recomment φ field) (recomment φ fields) =
      recomment φ (absorb combine field fields) := by
  induction fields with
  | nil => rfl
  | cons existing rest ih =>
    have hname : ∀ f : Field, (recomment φ f).name = f.name := fun _ => rfl
    simp only [recomment_cons, absorb, hname, h, ih]
    split <;> rfl

theorem foldl_absorb_recomment {combine : Field → Field → Field}
    (h : ∀ a b, combine (recomment φ a) (recomment φ b) = recomment φ (combine a b))
    (added fields : List Field) :
    (recomment φ added).foldl (fun fields field => absorb combine field fields)
        (recomment φ fields) =
      recomment φ (added.foldl (fun fields field => absorb combine field fields) fields) := by
  induction added generalizing fields with
  | nil => rfl
  | cons field rest ih =>
    rw [recomment_cons, List.foldl_cons, absorb_recomment h, ih, List.foldl_cons]

theorem sortFields_recomment (fields : List Field) :
    sortFields (recomment φ fields) = recomment φ (sortFields fields) := by
  rw [sortFields, recomment_list, recomment_list, sortFields]
  exact (List.map_mergeSort (f := recomment φ) fun a _ b _ => rfl).symm

theorem joinField_recomment (existing field : Field) :
    joinField (recomment e.comments existing) (recomment e.comments field) =
      recomment e.comments (joinField existing field) := by
  have hcomments : (if (e.comments existing.comments).isEmpty then e.comments field.comments
      else e.comments existing.comments) =
        e.comments (if existing.comments.isEmpty then field.comments else existing.comments) := by
    obtain ⟨reference, default, keeps⟩ := e
    cases keeps <;> rfl
  have hjoined : joinField (recomment e.comments existing) (recomment e.comments field) =
      { addAnnotations (recomment e.comments existing) field.annotations with
        requiredness := (joinField existing field).requiredness
        comments := if (e.comments existing.comments).isEmpty then e.comments field.comments
          else e.comments existing.comments } := rfl
  rw [hjoined, addAnnotations_recomment, hcomments]
  rfl

theorem joinedFields_recomment (own others : List Field) :
    renumber (sortFields ((recomment e.comments own ++ recomment e.comments others).foldl
      (fun fields field => absorb joinField field fields) [])) =
    recomment e.comments (renumber (sortFields ((own ++ others).foldl
      (fun fields field => absorb joinField field fields) []))) := by
  have hjoined := foldl_absorb_recomment (joinField_recomment (e := e)) (own ++ others) []
  rw [← renumber_recomment, ← sortFields_recomment, ← hjoined, recomment_append]
  rfl

theorem uniteField_recomment (existing field : Field) :
    uniteField (recomment φ existing) (recomment φ field) =
      recomment φ (uniteField existing field) := addAnnotations_recomment existing field.annotations

theorem unite_recomment (first other : Message) :
    unite (recomment φ first) (recomment φ other) = recomment φ (unite first other) := by
  rw [unite, unite, Message.sameShape_recomment]
  split
  · rfl
  · have hfields : renumber (sortFields ((recomment φ other.fields).foldl
        (fun fields field => absorb uniteField field fields) (recomment φ first.fields))) =
          recomment φ (renumber (sortFields (other.fields.foldl
            (fun fields field => absorb uniteField field fields) first.fields))) := by
      rw [foldl_absorb_recomment uniteField_recomment, sortFields_recomment, renumber_recomment]
    exact congrArg (fun fields => { recomment φ first with fields }) hfields

theorem uniteAll_recomment (variants : List Message) :
    uniteAll (recomment φ variants) = (uniteAll variants).map (recomment φ) := by
  cases variants with
  | nil => rfl
  | cons first others =>
    have hfold : (recomment φ others).foldl unite (recomment φ first) =
        recomment φ (others.foldl unite first) := by
      induction others generalizing first with
      | nil => rfl
      | cons other rest ih =>
        rw [recomment_cons, List.foldl_cons, unite_recomment, ih, List.foldl_cons]
    exact congrArg some hfold

/-- A name, a place and a type without comments of its own. -/
theorem recomment_bare_field {field : Field} (h : field.comments = []) :
    recomment e.comments field = field := by
  obtain ⟨id, name, type, requiredness, default, annotations, comments, location⟩ := field
  obtain rfl : comments = [] := h
  exact congrArg (fun comments => Field.mk id name type requiredness default annotations comments
    location) comments_nil

theorem recomment_request (name fqn : String) (fields : List Field) :
    recomment e.comments ({ name, fqn, fields } : Message) =
      { name, fqn, fields := recomment e.comments fields } := by
  let built (comments : List Comment) : Message :=
    { name, fqn, fields := recomment e.comments fields, comments }
  exact congrArg built comments_nil

/-! ## Outlines -/

instance : Commented Outline where
  recomment φ o :=
    { o with functions := recomment φ o.functions
             requests := Table.mapValues (recomment φ) o.requests }
  recomment_id o := by
    change { o with functions := recomment id o.functions, requests := recomment id o.requests } = o
    rw [recomment_id, recomment_id]

theorem names_recomment (functions : List ServiceFunction) :
    (recomment φ functions).map ServiceFunction.name = functions.map ServiceFunction.name :=
  List.map_map

theorem addRequest_recomment (requests : Table (List Message)) (name : String)
    (message : Message) : Table.update name [] (fun variants => variants ++ [recomment φ message])
        (Table.mapValues (recomment φ) requests) =
      Table.mapValues (recomment φ) (requests.update name [] fun variants =>
        variants ++ [message]) := by
  have hold : ((Table.mapValues (recomment φ) requests).get? name).getD [] =
      recomment φ ((requests.get? name).getD []) := by
    rw [Table.get?_mapValues]
    cases requests.get? name <;> rfl
  have happend : ∀ variants : List Message, recomment φ variants ++ [recomment φ message] =
      recomment φ (variants ++ [message]) := fun variants => (recomment_append variants [_]).symm
  rw [Table.update, Table.update, hold, happend, Table.insert_mapValues]

theorem addFunction_recomment (o : Outline) (f : ServiceFunction) :
    { recomment φ o with functions := (recomment φ o).functions ++ [recomment φ f] } =
      recomment φ { o with functions := o.functions ++ [f] } :=
  congrArg (fun functions => { recomment φ o with functions })
    (recomment_append o.functions [f]).symm

/-- The parameters of a built function have no comments. -/
theorem recomment_function {f : ServiceFunction} (h : ∀ q ∈ f.parameters, q.comments = []) :
    recomment e.comments f =
      { f with throws := recomment e.comments f.throws, comments := e.comments f.comments } := by
  have hparameters : recomment e.comments f.parameters = f.parameters :=
    (List.map_congr_left fun q hq => recomment_bare_field (h q hq)).trans (List.map_id' _)
  exact congrArg (fun parameters => { f with
    parameters, throws := recomment e.comments f.throws, comments := e.comments f.comments })
    hparameters

/-! ## The assembled schema -/

theorem serviceOf_recomment (file name : String) (functions : List ServiceFunction) :
    serviceOf file name (recomment e.comments functions) =
      recomment e.comments (serviceOf file name functions) := by
  cases functions with
  | nil => rfl
  | cons f rest =>
    let built (comments : List Comment) : List Service :=
      [{ name, fqn := fqnOf file name, functions := recomment e.comments (f :: rest), comments }]
    exact congrArg built comments_nil.symm

theorem mentioned_recomment (d : Definitions) : mentioned (recomment φ d) = mentioned d := by
  have hservices : (recomment φ d.services).flatMap
      (fun s => s.functions.flatMap ServiceFunction.types) =
        d.services.flatMap fun s => s.functions.flatMap ServiceFunction.types := by
    rw [recomment_list, List.flatMap_map]
    refine List.flatMap_congr fun s _ => ?_
    have hfunctions : (recomment φ s).functions = s.functions.map (recomment φ) := rfl
    rw [hfunctions, List.flatMap_map, funext ServiceFunction.types_recomment]
  have hmessages : (recomment φ d.messages).flatMap (fun m => m.fields.map Field.type) =
      d.messages.flatMap fun m => m.fields.map Field.type := by
    rw [recomment_list, List.flatMap_map]
    refine List.flatMap_congr fun m _ => ?_
    have hfields : (recomment φ m).fields = m.fields.map (recomment φ) := rfl
    rw [hfields, List.map_map]
    rfl
  have htypedefs : (recomment φ d.typedefs).map Typedef.target = d.typedefs.map Typedef.target := by
    rw [recomment_list, List.map_map]
    rfl
  have hparts : ∀ d : Definitions, mentioned d =
      d.services.flatMap (fun s => s.functions.flatMap ServiceFunction.types) ++
        d.messages.flatMap (fun m => m.fields.map Field.type) ++ d.typedefs.map Typedef.target :=
    fun _ => rfl
  rw [hparts, hparts, ← hservices, ← hmessages, ← htypedefs]
  rfl

theorem assembleFile_recomment (stem base scope edition path : String) (d : Definitions) :
    assembleFile stem base scope edition path (recomment e.comments d) =
      recomment e.comments (assembleFile stem base scope edition path d) := by
  have himports : importsOf path (recomment e.comments d) =
      recomment e.comments (importsOf path d) := by
    let built (comments : List Comment) (target : String) : Import :=
      { path := target, written := includeLiteral target, comments }
    rw [importsOf, importsOf, mentioned_recomment, recomment_list, List.map_map]
    exact List.map_congr_left fun target _ =>
      congrArg (fun comments => built comments target) comments_nil.symm
  rw [assembleFile, assembleFile, himports]
  generalize namespaceFor stem base (Path.stem path) = name
  let built (comments : List Comment) : File :=
    { path, edition, imports := recomment e.comments (importsOf path d)
      namespaces := [{ scope, name, comments }], definitions := recomment e.comments d }
  exact congrArg built comments_nil.symm

theorem sorted_recomment (s : Schema) : (recomment φ s).sorted = recomment φ s.sorted := by
  have hfile : ∀ f : File, (recomment φ f).sorted = recomment φ f.sorted := fun f =>
    congrArg (fun definitions => { recomment φ f with definitions })
      f.definitions.sorted_recomment
  have hfiles : (recomment φ s.files).map File.sorted = recomment φ (s.files.map File.sorted) := by
    rw [recomment_list, recomment_list, List.map_map, List.map_map]
    exact List.map_congr_left fun f _ => hfile f
  exact congrArg (fun files => { s with files }) hfiles

theorem united_recomment (o : Outline) : (recomment φ o).united = recomment φ o.united := by
  have htable : (recomment φ o).requests = o.requests.map (Prod.map id (recomment φ)) := rfl
  rw [Outline.united, htable, List.filterMap_map, recomment_list, Outline.united,
    List.map_filterMap]
  exact congrArg (List.filterMap · o.requests) (funext fun entry => uniteAll_recomment entry.2)

theorem completed_recomment (plan : Plan) (service : String) (o : Outline) (d : Definitions) :
    completed plan service (recomment e.comments o) (recomment e.comments d) =
      recomment e.comments (completed plan service o d) := by
  have hservices : serviceOf plan.mainFile service (recomment e.comments o).functions =
      recomment e.comments (serviceOf plan.mainFile service o.functions) :=
    serviceOf_recomment plan.mainFile service o.functions
  rw [completed, united_recomment, hservices, completed]
  simp only [recomment, List.map_append]

/-- The schema that is assembled of changed definitions is the changed schema. -/
theorem assemble_recomment (plan : Plan) (options : Options) (edition : String) (o : Outline)
    (w : Workspace) :
    assemble plan options edition (recomment e.comments o) (recomment e.comments w) =
      recomment e.comments (assemble plan options edition o w) := by
  let finish (entry : String × Definitions) : File :=
    assembleFile plan.stem ((Options.nonEmpty options.base).getD plan.stem)
      options.namespaceScope edition entry.1 entry.2
  have hassemble : ∀ o w, assemble plan options edition o w = Schema.sorted
      { files := (w.modify plan.mainFile (completed plan options.serviceName o)).files.map
          finish } := fun _ _ => rfl
  have hfiles : ∀ w : Workspace, (recomment e.comments w).files.map finish =
      recomment e.comments (w.files.map finish) := by
    intro w
    have htable : (recomment e.comments w).files =
        w.files.map (Prod.map id (recomment e.comments)) := rfl
    rw [htable, recomment_list, List.map_map, List.map_map]
    exact List.map_congr_left fun entry _ => assembleFile_recomment ..
  have hmodified := w.modify_recomment plan.mainFile
    (completed_recomment (e := e) plan options.serviceName o)
  rw [hassemble, hassemble, ← sorted_recomment, hmodified, hfiles]
  rfl

end Convert

end RestThrift
