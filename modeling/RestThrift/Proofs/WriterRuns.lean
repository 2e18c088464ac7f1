import Mathlib
import RestThrift.Proofs.Build
import RestThrift.Proofs.Commented
import RestThrift.Proofs.Rendering
import RestThrift.Proofs.Table

/-!
# Runs of a writer side by side

Two writers that differ in nothing but their switches run side by side: what one of them writes the
other one writes as well, if comments give them the same lines. Beginning a file resets all that a
writer holds besides its switch, which no program changes, so that every file is written as by a
fresh writer.
-/
namespace RestThrift

namespace Writer

/-- The writer with its switch set. -/
def switched (withComments : Bool) (writer : Writer) : Writer := { writer with withComments }

section Agrees

variable {b c : Bool} {α β γ : Type} {x y : WriterM α} {φ : List Comment → List Comment}

/-- From writers that differ in their switches both programs give the same result, or the same
error, and leave writers that differ in their switches. -/
def Agrees (b c : Bool) (x y : WriterM α) : Prop :=
  ∀ writer : Writer, ∃ (result : Except RenderError α) (left : Writer),
    x.run.run (writer.switched b) = (result, left.switched b) ∧
      y.run.run (writer.switched c) = (result, left.switched c)

/-! ## Programs -/

theorem agrees_pure (a : α) : Agrees b c (pure a) (pure a) := fun w => ⟨.ok a, w, rfl, rfl⟩

theorem Agrees.bind {g h : α → WriterM β} (hx : Agrees b c x y)
    (hg : ∀ a, Agrees b c (g a) (h a)) : Agrees b c (x >>= g) (y >>= h) := by
  intro writer
  obtain ⟨result, left, hleft, hright⟩ := hx writer
  simp only [ExceptT.run_bind, StateT.run_bind, hleft, hright]
  cases result with
  | error cause => exact ⟨.error cause, left, rfl, rfl⟩
  | ok a => exact hg a left

/-- A change that does not look at the switch. -/
theorem agrees_modify {change : Writer → Writer}
    (h : ∀ b w, change (switched b w) = switched b (change w)) :
    Agrees b c (modify change) (modify change) := by
  intro writer
  refine ⟨.ok PUnit.unit, change writer, ?_, ?_⟩
  · rw [← h b writer]
    rfl
  · rw [← h c writer]
    rfl

theorem agrees_get_bind {g h : Writer → WriterM β}
    (hg : ∀ w : Writer, Agrees b c (g (w.switched b)) (h (w.switched c))) :
    Agrees b c (get >>= g) (get >>= h) := fun writer => hg writer writer

theorem agrees_liftExcept (x : Except RenderError α) :
    Agrees b c (liftExcept x) (liftExcept x) := by
  intro writer
  cases x with
  | error cause => exact ⟨.error cause, writer, rfl, rfl⟩
  | ok a => exact ⟨.ok a, writer, rfl, rfl⟩

theorem agrees_line (text : String) : Agrees b c (line text) (line text) :=
  agrees_modify fun _ _ => rfl

theorem agrees_forM {write other : γ → WriterM PUnit} {change : γ → γ} (l : List γ)
    (h : ∀ a, Agrees b c (write a) (other (change a))) :
    Agrees b c (l.forM write) ((l.map change).forM other) := by
  induction l with
  | nil => exact agrees_pure _
  | cons a rest ih => exact (h a).bind fun _ => ih

theorem agrees_each {write : γ → WriterM PUnit} (l : List γ)
    (h : ∀ a, Agrees b c (write a) (write a)) : Agrees b c (l.forM write) (l.forM write) := by
  have hall : Agrees b c (l.forM write) ((l.map id).forM write) := agrees_forM l h
  rwa [List.map_id] at hall

theorem agrees_lines (texts : List String) : Agrees b c (lines texts) (lines texts) :=
  agrees_each texts agrees_line

/-- A writer gives the same lines for the same comments. -/
theorem agrees_comments (cs : List Comment) : Agrees b b (comments cs) (comments cs) := by
  refine agrees_get_bind fun w => ?_
  cases b with
  | false => exact agrees_pure ()
  | true => exact agrees_each cs fun comment => agrees_lines (commentLines comment)

/-- A writer without comments gives no lines, as any writer does where there are none. -/
theorem agrees_no_comments (cs : List Comment) :
    Agrees false true (comments cs) (comments []) :=
  agrees_get_bind fun _ => agrees_pure ()

/-! ## Lists of definitions -/

theorem agrees_separated [Commented γ] {write : γ → WriterM Unit}
    (h : ∀ a, Agrees b c (write a) (write (recomment φ a))) (l : List γ) :
    Agrees b c (separated write l) (separated write (recomment φ l)) := by
  induction l with
  | nil => exact agrees_pure ()
  | cons a rest ih =>
    cases rest with
    | nil => exact h a
    | cons d rest => exact (h a).bind fun _ => (agrees_line "").bind fun _ => ih

theorem agrees_group [Commented γ] {write : γ → WriterM Unit}
    (h : ∀ a, Agrees b c (write a) (write (recomment φ a))) (l : List γ) :
    Agrees b c (group write l) (group write (recomment φ l)) := by
  cases l with
  | nil => exact agrees_pure ()
  | cons a rest => exact (agrees_separated h (a :: rest)).bind fun _ => agrees_line ""

theorem agrees_block [Commented γ] {write : γ → WriterM Unit}
    (h : ∀ a, Agrees b c (write a) (write (recomment φ a))) (l : List γ) :
    Agrees b c (block write l) (block write (recomment φ l)) := by
  cases l with
  | nil => exact agrees_pure ()
  | cons a rest => exact (agrees_forM (a :: rest) h).bind fun _ => agrees_line ""

theorem agrees_braced {header : String} {body other : WriterM Unit} (h : Agrees b c body other) :
    Agrees b c (do line header; enter; body; leave; line "\x7d")
      (do line header; enter; other; leave; line "\x7d") := by
  refine (agrees_line header).bind fun _ => (agrees_modify fun _ _ => rfl).bind fun _ => ?_
  exact h.bind fun _ => (agrees_modify fun _ _ => rfl).bind fun _ => agrees_line _

end Agrees

/-! ## Definitions -/

section Definitions

variable {b c : Bool} {φ : List Comment → List Comment}

theorem annotations_agree (owner : String) (as : List Annotation) :
    Agrees b c (annotations owner as) (annotations owner as) := agrees_liftExcept _

theorem parametersText_recomment (stems : List String) (fields : List Field) :
    parametersText stems (recomment φ fields) = parametersText stems fields := by
  have hparts : (recomment φ fields).mapM
      (fun field => fieldText "" (parameterName stems field.name) field) =
      fields.mapM fun field => fieldText "" (parameterName stems field.name) field :=
    List.mapM_map
  rw [parametersText, hparts, parametersText]

/-- The lists of parameters and of thrown fields have no comments. -/
theorem functionText_recomment (stems : List String) (f : ServiceFunction) :
    functionText stems (recomment φ f) = functionText stems f := by
  have hempty : (recomment φ f).throws.isEmpty = f.throws.isEmpty := List.isEmpty_map
  have hparameters : parametersText stems (recomment φ f).parameters =
      parametersText stems f.parameters := parametersText_recomment stems f.parameters
  have hthrows : parametersText stems (recomment φ f).throws = parametersText stems f.throws :=
    parametersText_recomment stems f.throws
  simp only [functionText, hempty, hparameters, hthrows]
  rfl

-- The comments of the first writer give the same lines as the changed ones do for the second.
variable (hφ : ∀ cs, Agrees b c (comments cs) (comments (φ cs)))

include hφ

theorem namespaceLine_agrees (n : Namespace) :
    Agrees b c (namespaceLine n) (namespaceLine (recomment φ n)) := by
  refine (hφ n.comments).bind fun _ => ?_
  exact (annotations_agree n.name n.annotations).bind fun _ => agrees_line _

theorem includeLine_agrees (i : Import) :
    Agrees b c (includeLine i) (includeLine (recomment φ i)) :=
  (hφ i.comments).bind fun _ => agrees_line _

theorem constant_agrees (d : Constant) : Agrees b c (constant d) (constant (recomment φ d)) :=
  (hφ d.comments).bind fun _ => agrees_line _

theorem typedef_agrees (t : Typedef) : Agrees b c (typedef t) (typedef (recomment φ t)) := by
  refine (hφ t.comments).bind fun _ => ?_
  exact (annotations_agree t.name t.annotations).bind fun _ => agrees_line _

theorem enumMember_agrees (separator : String) (m : EnumMember) :
    Agrees b c (enumMember separator m) (enumMember separator (recomment φ m)) := by
  refine (hφ m.comments).bind fun _ => ?_
  exact (annotations_agree m.name m.annotations).bind fun _ => agrees_line _

theorem enumMembers_agrees (members : List EnumMember) :
    Agrees b c (enumMembers members) (enumMembers (recomment φ members)) := by
  induction members with
  | nil => exact agrees_pure ()
  | cons m rest ih =>
    cases rest with
    | nil => exact enumMember_agrees hφ "" m
    | cons n rest => exact (enumMember_agrees hφ "," m).bind fun _ => ih

theorem enumeration_agrees (e : Enumeration) :
    Agrees b c (enumeration e) (enumeration (recomment φ e)) := by
  refine (hφ e.comments).bind fun _ => ?_
  refine (annotations_agree e.name e.annotations).bind fun _ => ?_
  exact agrees_braced (enumMembers_agrees hφ e.members)

theorem messageField_agrees (field : Field) :
    Agrees b c (messageField field) (messageField (recomment φ field)) := by
  refine (hφ field.comments).bind fun _ => ?_
  exact (agrees_liftExcept (messageFieldText field)).bind fun _ => agrees_line _

theorem message_agrees (m : Message) : Agrees b c (message m) (message (recomment φ m)) := by
  refine (hφ m.comments).bind fun _ => ?_
  refine (annotations_agree m.name m.annotations).bind fun _ => ?_
  exact agrees_braced (agrees_forM m.fields (messageField_agrees hφ))

theorem function_agrees (separator : String) (f : ServiceFunction) :
    Agrees b c (function separator f) (function separator (recomment φ f)) := by
  refine (hφ f.comments).bind fun _ => agrees_get_bind fun writer => ?_
  have htext : functionText (writer.switched c).stems (recomment φ f) =
      functionText (writer.switched b).stems f := functionText_recomment writer.stems f
  rw [htext]
  exact (agrees_liftExcept _).bind fun _ => agrees_line _

theorem functions_agrees (l : List ServiceFunction) :
    Agrees b c (functions l) (functions (recomment φ l)) := by
  induction l with
  | nil => exact agrees_pure ()
  | cons f rest ih =>
    cases rest with
    | nil => exact function_agrees hφ "" f
    | cons g rest =>
      exact (function_agrees hφ "," f).bind fun _ => (agrees_line "").bind fun _ => ih

theorem service_agrees (s : Service) : Agrees b c (service s) (service (recomment φ s)) := by
  refine (hφ s.comments).bind fun _ => ?_
  refine (annotations_agree s.name s.annotations).bind fun _ => ?_
  exact agrees_braced (functions_agrees hφ s.functions)

/-! ## Files -/

theorem file_agrees (f : File) : Agrees b c (file f) (file (recomment φ f)) := by
  have hstems : (recomment φ f).imports.map (fun i => Path.stem i.path) =
      f.imports.map fun i => Path.stem i.path := List.map_map
  rw [file, file, hstems]
  refine (agrees_modify fun _ _ => rfl).bind fun _ => ?_
  refine (agrees_block (namespaceLine_agrees hφ) f.namespaces).bind fun _ => ?_
  refine (agrees_block (includeLine_agrees hφ) f.imports).bind fun _ => ?_
  refine (agrees_group (constant_agrees hφ) f.definitions.constants).bind fun _ => ?_
  refine (agrees_group (typedef_agrees hφ) f.definitions.typedefs).bind fun _ => ?_
  refine (agrees_group (enumeration_agrees hφ) f.definitions.enums).bind fun _ => ?_
  refine (agrees_group (message_agrees hφ) f.definitions.messages).bind fun _ => ?_
  refine (agrees_group (service_agrees hφ) f.definitions.services).bind fun _ => ?_
  exact agrees_get_bind fun writer => agrees_pure writer.out

/-- Files are written alike one after the other, since each leaves writers that differ in their
switches only. -/
theorem writeAll_agrees (files : List File) (writer : Writer) :
    (writer.switched b).writeAll files = (writer.switched c).writeAll (recomment φ files) := by
  induction files generalizing writer with
  | nil => rfl
  | cons f rest ih =>
    obtain ⟨result, left, hleft, hright⟩ := file_agrees hφ f writer
    have hfirst : (writer.switched b).write f = (result, left.switched b) := hleft
    have hsecond : (writer.switched c).write (recomment φ f) = (result, left.switched c) := hright
    calc (writer.switched b).writeAll (f :: rest)
      _ = result :: (left.switched b).writeAll rest := by simp only [writeAll, hfirst]
      _ = result :: (left.switched c).writeAll (recomment φ rest) := by rw [ih]
      _ = (writer.switched c).writeAll (recomment φ f :: recomment φ rest) := by
        simp only [writeAll, hsecond]

end Definitions

/-! ## Files that are written alone -/

/-- Beginning a file resets all that a writer holds but its switch. -/
theorem write_eq_fresh (writer : Writer) (f : File) :
    writer.write f = ({ withComments := writer.withComments } : Writer).write f := rfl

theorem withComments_write (writer : Writer) (f : File) :
    (writer.write f).2.withComments = writer.withComments := by
  have hagrees := file_agrees (b := writer.withComments) agrees_comments f writer
  obtain ⟨result, left, hwrite, -⟩ := hagrees
  have hleft : (writer.write f).2 = left.switched writer.withComments := congrArg Prod.snd hwrite
  rw [hleft, switched]

end Writer

/-- The text of a file that a fresh writer writes alone. -/
def File.textAlone (f : File) (withComments : Bool) : Except RenderError String :=
  (({ withComments } : Writer).write f).1

/-- Whatever a writer holds, it writes each file of a sequence as a fresh writer does. -/
theorem Writer.writeAll_eq_map (writer : Writer) (files : List File) :
    writer.writeAll files = files.map fun f => f.textAlone writer.withComments := by
  induction files generalizing writer with
  | nil => rfl
  | cons f rest ih =>
    have hrest : writer.writeAll (f :: rest) =
        (writer.write f).1 :: (writer.write f).2.writeAll rest := rfl
    rw [hrest, ih, withComments_write, write_eq_fresh, List.map_cons, File.textAlone]

/-! ## Schemas -/

/-- Results that are put behind keys one by one. -/
theorem zip_mapM {ε α β κ : Type} (key : α → κ) (g : α → Except ε β) (l : List α) :
    (l.mapM g).map (fun results => (l.map key).zip results) =
      l.mapM fun a => (g a).map fun b => (key a, b) := by
  induction l with
  | nil => rfl
  | cons a rest ih =>
    rw [List.mapM_cons, List.mapM_cons, ← ih]
    cases g a with
    | error cause => rfl
    | ok b => cases rest.mapM g <;> rfl

/-- Rendering a schema collects the texts of its files, each of them written alone. -/
theorem generate_eq (schema : Schema) (withComments : Bool) : generate schema withComments =
    (schema.files.mapM fun f : File =>
      (f.textAlone withComments).map fun text => (f.path, text)).map Table.ofList := by
  have htexts : (Writer.writeAll { withComments } schema.files).mapM id =
      schema.files.mapM fun f => f.textAlone withComments := by
    rw [Writer.writeAll_eq_map, List.mapM_map]
    rfl
  rw [generate, htexts, ← zip_mapM]
  cases schema.files.mapM fun f : File => f.textAlone withComments <;> rfl

/-- A file's text is found at its path, if no later file has that path. -/
theorem get?_generate {schema : Schema} {withComments : Bool} {texts : Table String}
    (h : generate schema withComments = .ok texts) {before after : List File} {f : File}
    (hfiles : schema.files = before ++ f :: after) (hlast : ∀ g ∈ after, g.path ≠ f.path) :
    ∃ text, f.textAlone withComments = .ok text ∧ texts.get? f.path = some text := by
  rw [generate_eq, hfiles, List.mapM_append, List.mapM_cons] at h
  simp only [Convert.map_eq_ok, Convert.bind_eq_ok] at h
  obtain ⟨entries, ⟨first, -, second, ⟨entry, ⟨text, htext, rfl⟩, others, hothers, hsecond⟩, hall⟩,
    rfl⟩ := h
  obtain rfl := Except.ok.inj hsecond
  obtain rfl := Except.ok.inj hall
  have hkeys : ∀ entry ∈ others, entry.1 ≠ f.path := by
    refine Convert.mapM_keeps (fun g hg entry hentry => ?_) hothers
    obtain ⟨_, -, rfl⟩ := Convert.map_eq_ok.mp hentry
    exact hlast g hg
  have hfilter : others.filter (fun entry => entry.1 = f.path) = [] :=
    List.filter_eq_nil_iff.mpr fun entry hentry => by simpa using hkeys entry hentry
  refine ⟨text, htext, ?_⟩
  change (Table.insertAll (first ++ (f.path, text) :: others) []).get? f.path = some text
  rw [Table.get?_insertAll, List.filter_append, List.filter_cons, hfilter]
  simp

/-- A writer carries nothing from one file to the next, whatever the writes before have left in it:
each file of a sequence is written, or fails, as by a fresh writer. A schema's texts are those of
its files written alone, each at the path of its file unless a later file has the same path. -/
theorem files_written_alone :
    (∀ (writer : Writer) (files : List File), writer.writeAll files =
      files.map fun f => f.textAlone writer.withComments) ∧
    (∀ (schema : Schema) (withComments : Bool), generate schema withComments =
      (schema.files.mapM fun f : File =>
        (f.textAlone withComments).map fun text => (f.path, text)).map Table.ofList) ∧
    ∀ (schema : Schema) (withComments : Bool) (texts : Table String),
      generate schema withComments = .ok texts → ∀ before f after,
        schema.files = before ++ f :: after → (∀ g ∈ after, g.path ≠ f.path) →
          ∃ text, f.textAlone withComments = .ok text ∧ texts.get? f.path = some text :=
  ⟨Writer.writeAll_eq_map, generate_eq, fun _ _ _ h _ _ _ hfiles hlast =>
    get?_generate h hfiles hlast⟩

/-- An enumeration whose member has an annotation that quotes no text. -/
def misquotedFile : File :=
  { path := "kinds.thrift", definitions := { enums := [{
      name := "Kind", fqn := "kinds.thrift#Kind"
      members := [{ name := "CAT", value := 0
                    annotations := [{ name := "rank", value := some (.int 1) }] }] }] } }

/-- A struct with one field. -/
def petFile : File :=
  { path := "pets.thrift", definitions := { messages := [{
      name := "Pet", fqn := "pets.thrift#Pet"
      fields := [{ id := 1, name := "name", type := .string }] }] } }

/-- The failed write leaves the writer inside of the enumeration, and the next file does not show
it. -/
theorem petFile_written_alone :
    (({} : Writer).write misquotedFile).2.depth = 1 ∧
    ({} : Writer).writeAll [misquotedFile, petFile] =
      [misquotedFile.textAlone true, petFile.textAlone true] ∧
    ∃ text, petFile.textAlone true = .ok text ∧
      Table.get? "pets.thrift" [("pets.thrift", "struct Pet \x7b\n    1: string name,\n\x7d\n\n")] =
        some text := by
  obtain ⟨hsequence, -, hschema⟩ := files_written_alone
  refine ⟨rfl, hsequence {} [misquotedFile, petFile], ?_⟩
  exact hschema { files := [petFile] } true _ rfl [] petFile [] rfl fun g hg => by cases hg

/-- A schema is written without comments as if it had none. -/
theorem generate_withoutComments (schema : Schema) :
    generate schema false = generate schema.withoutComments true := by
  have htexts : Writer.writeAll { withComments := false } schema.files =
      Writer.writeAll { withComments := true } schema.withoutComments.files :=
    Writer.writeAll_agrees Writer.agrees_no_comments schema.files {}
  have hpaths : schema.withoutComments.files.map File.path = schema.files.map File.path :=
    List.map_map
  rw [generate, generate, hpaths, htexts]

end RestThrift
