import Mathlib
import RestThrift.Convert.Document
import RestThrift.Proofs.NamedSchema
import RestThrift.Proofs.Outline
import RestThrift.Proofs.Sorting

/-!
# Finished conversions

The requests of a service pay for the names that are still owed, so that in the end every name that
is taken is borne by exactly one definition. The files of the schema hold what the workspace holds,
and the service in the main file.
-/
namespace RestThrift.Convert

open Workspace Text

open scoped List

/-! ## United requests -/

/-- The requests of an outline, one for each name. -/
def Outline.united (o : Outline) : List Message :=
  o.requests.filterMap fun entry => uniteAll entry.2

theorem filterMap_map_eq_keys {α β : Type} {table : Table α} {f : String × α → Option β}
    {g : β → String} (h : ∀ entry ∈ table, ∃ b, f entry = some b ∧ g b = entry.1) :
    (table.filterMap f).map g = table.keys := by
  induction table with
  | nil => rfl
  | cons entry rest ih =>
    obtain ⟨hentry, hrest⟩ := List.forall_mem_cons.mp h
    obtain ⟨b, hb, hg⟩ := hentry
    rw [List.filterMap_cons, hb, List.map_cons, hg, ih hrest, Table.keys_cons]

namespace Outlined

variable {plan : Plan} {stated : Api.Schema → Prop} {service : String} {w : Workspace}
  {answers : List Answer} {o : Outline} {name : String} {united : Message}

theorem mem_variantsOf {m : Message} :
    m ∈ variantsOf answers name ↔ ∃ a ∈ answers, a.request = m ∧ a.request.name = name := by
  simp only [variantsOf, List.mem_filter, List.mem_map, decide_eq_true_eq]
  constructor
  · rintro ⟨⟨a, ha, rfl⟩, hname⟩
    exact ⟨a, ha, rfl, hname⟩
  · rintro ⟨a, ha, rfl, hname⟩
    exact ⟨⟨a, ha, rfl⟩, hname⟩

/-- Uniting keeps the name and the fields of requests. -/
theorem united_spec (h : ∀ a ∈ answers, a.Holds plan service w)
    (hu : uniteAll (variantsOf answers name) = some united) :
    united.name = name ∧ united.fqn = fqnOf plan.mainFile name ∧
      ∀ field ∈ united.fields, OfRequest plan w plan.mainFile field := by
  refine uniteAll_keeps (P := fun m => m.name = name ∧ m.fqn = fqnOf plan.mainFile name ∧
    ∀ field ∈ m.fields, OfRequest plan w plan.mainFile field) ?_ (fun v hv => ?_) hu
  · rintro first other ⟨hname, hfqn, hfirst⟩ ⟨-, -, hother⟩
    refine ⟨unite_name.trans hname, unite_fqn.trans hfqn, ?_⟩
    refine forall_mem_unite (P := OfRequest plan w plan.mainFile)
      (fun _ _ h => ⟨h.typed, h.unset, h.named⟩) (fun e f he _ => ⟨?_, ?_, ?_⟩) hfirst hother
    · rw [joins_uniteField.type]
      exact he.typed
    · rw [joins_uniteField.default]
      exact he.unset
    · rw [joins_uniteField.name]
      exact he.named
  · obtain ⟨a, ha, rfl, rfl⟩ := mem_variantsOf.mp hv
    refine ⟨rfl, (h a ha).requestFqn, fun field hfield => ?_⟩
    obtain ⟨htyped, hunset⟩ := (h a ha).fields field hfield
    exact ⟨htyped, hunset, (h a ha).inputs.named field hfield⟩

/-- Uniting keeps requests numbered and in the order of their names, and invents no annotation. -/
theorem united_ordered (h : ∀ a ∈ answers, a.Holds plan service w)
    (hu : uniteAll (variantsOf answers name) = some united) :
    Numbered united.fields ∧ Ascending united.fields ∧ Quoting united.attachments := by
  have hproper := uniteAll_keeps (P := fun m => (Numbered m.fields ∧ Ascending m.fields) ∧
    m.annotations = [] ∧ ∀ field ∈ m.fields, ∀ a ∈ field.annotations, a.Quotes) ?_
    (fun v hv => ?_) hu
  · obtain ⟨⟨hnumbered, hascending⟩, hbare, hquotes⟩ := hproper
    exact ⟨hnumbered, hascending, Message.quoting_iff.mpr ⟨by simp [hbare], hquotes⟩⟩
  · rintro first other ⟨⟨hnumbered, hascending⟩, hbare, hfirst⟩ ⟨-, -, hother⟩
    refine ⟨⟨numbered_unite hnumbered, ascending_unite hascending⟩, unite_annotations.trans hbare,
      ?_⟩
    refine forall_mem_unite (P := fun f => ∀ a ∈ f.annotations, a.Quotes) (fun _ _ h => h)
      (fun e f he hf a ha => ?_) hfirst hother
    exact (joins_uniteField.only e f a ha).elim (he a) (hf a)
  · obtain ⟨a, ha, rfl, -⟩ := mem_variantsOf.mp hv
    exact ⟨(h a ha).ordered, (h a ha).bare, (h a ha).inputs.quotes⟩

variable (h : Outlined plan stated service w answers o)
include h

theorem mem_requests {entry : String × List Message} (he : entry ∈ o.requests) :
    entry.2 = variantsOf answers entry.1 ∧ ∃ m, uniteAll entry.2 = some m := by
  have hget : o.requests.get? entry.1 = some entry.2 := Table.get?_of_mem h.sorted.nodup he
  have hvariants := h.variants entry.1
  rw [hget, Option.getD_some] at hvariants
  refine ⟨hvariants, ?_⟩
  obtain ⟨a, ha, hname⟩ := (h.present entry.1).mp (Table.mem_keys_of_get? hget)
  have hmem : a.request ∈ entry.2 := hvariants ▸ mem_variantsOf.mpr ⟨a, ha, rfl, hname⟩
  cases hlist : entry.2 with
  | nil => simp [hlist] at hmem
  | cons first rest => exact ⟨_, rfl⟩

theorem mem_united {m : Message} : m ∈ o.united ↔
    m.name ∈ o.requests.keys ∧ uniteAll (variantsOf answers m.name) = some m := by
  simp only [Outline.united, List.mem_filterMap]
  constructor
  · rintro ⟨entry, he, hu⟩
    obtain ⟨hvariants, -⟩ := h.mem_requests he
    rw [hvariants] at hu
    obtain ⟨hname, -⟩ := united_spec h.holds hu
    rw [hname]
    exact ⟨List.mem_map_of_mem he, hu⟩
  · rintro ⟨hkey, hu⟩
    obtain ⟨variants, hget⟩ := Table.exists_get?_of_mem_keys hkey
    have he := Table.mem_of_get? hget
    refine ⟨_, he, ?_⟩
    rw [(h.mem_requests he).1]
    exact hu

/-- The request of each answer is united with those of its name. -/
theorem exists_united {a : Answer} (ha : a ∈ answers) : ∃ m ∈ o.united,
    m.name = a.request.name ∧ uniteAll (variantsOf answers m.name) = some m := by
  have hkey : a.request.name ∈ o.requests.keys := (h.present _).mpr ⟨a, ha, rfl⟩
  obtain ⟨variants, hget⟩ := Table.exists_get?_of_mem_keys hkey
  obtain ⟨hvariants, m, hm⟩ := h.mem_requests (Table.mem_of_get? hget)
  rw [hvariants] at hm
  have hname : m.name = a.request.name := (united_spec h.holds hm).1
  rw [← hname] at hm hkey
  exact ⟨m, h.mem_united.mpr ⟨hkey, hm⟩, hname, hm⟩

/-- The united requests are what is owed. -/
theorem debts_perm : o.debts plan ~ o.united.map fun m => (plan.mainFile, m.name) := by
  have hkeys : o.united.map Message.name = o.requests.keys := by
    refine filterMap_map_eq_keys fun entry he => ?_
    obtain ⟨hvariants, m, hm⟩ := h.mem_requests he
    refine ⟨m, hm, ?_⟩
    rw [hvariants] at hm
    exact (united_spec h.holds hm).1
  have howed : owedIn (o.debts plan) plan.mainFile = o.requestNames.map (·.2) := by
    simp [owedIn, Outline.debts, List.filter_map, Function.comp_def]
  have hnodup : (o.requestNames.map (·.2)).Nodup := by
    rw [← howed]
    exact h.coherent.nodup_owedIn plan.mainFile
  have hnames : o.requestNames.map (·.2) ~ o.united.map Message.name := by
    rw [hkeys]
    refine (List.perm_ext_iff_of_nodup hnodup h.sorted.nodup).mpr fun name => ?_
    rw [h.asked, h.present]
  have hpairs := hnames.map fun name => (plan.mainFile, name)
  rw [List.map_map, List.map_map] at hpairs
  exact hpairs

end Outlined

/-! ## Paying for requests -/

/-- Add messages to a file. -/
def addMessages (w : Workspace) (file : String) (messages : List Message) : Workspace :=
  messages.foldl (fun w m => w.addMessage file m) w

section Messages

variable {plan : Plan} {stated : Api.Schema → Prop} {w : Workspace} {file f : String}
  {messages : List Message}

theorem le_addMessages (w : Workspace) (file : String) (messages : List Message) :
    w ≤ addMessages w file messages := by
  induction messages generalizing w with
  | nil => exact le_rfl
  | cons m rest ih => exact (le_addMessage w file m).trans (ih _)

theorem definitions_addMessages : (addMessages w file messages).definitions f =
    if file = f then { w.definitions f with messages := (w.definitions f).messages ++ messages }
    else w.definitions f := by
  induction messages generalizing w with
  | nil => simp [addMessages]
  | cons m rest ih =>
    rw [addMessages, List.foldl_cons]
    have hrest := ih (w := w.addMessage file m)
    rw [addMessages] at hrest
    rw [hrest, definitions_addMessage]
    split
    · simp
    · rfl

theorem namesIn_addMessages : (addMessages w file messages).namesIn f = w.namesIn f := by
  induction messages generalizing w with
  | nil => rfl
  | cons m rest ih => exact ih

/-- Requests are added, which come from no object. -/
theorem Coherent.addMessages (h : Coherent plan stated w (messages.map fun m => (file, m.name)))
    (hhome : plan.IsHome file)
    (hmessages : ∀ m ∈ messages, m.fqn = fqnOf file m.name ∧
      (∀ field ∈ m.fields, OfRequest plan w file field) ∧
      Numbered m.fields ∧ Ascending m.fields ∧ Quoting m.attachments) :
    Coherent plan stated (addMessages w file messages) [] := by
  induction messages generalizing w with
  | nil => exact h
  | cons m rest ih =>
    obtain ⟨⟨hfqn, hfields, hnumbered, hascending, hquoting⟩, hrest⟩ :=
      List.forall_mem_cons.mp hmessages
    have hmade : Made plan stated w file m :=
      .request hascending (fun field hfield => (hfields field hfield).unset)
        fun field hfield => (hfields field hfield).named
    refine ih (h.addMessage hfqn (fun field hfield => (hfields field hfield).typed) hnumbered
      hquoting hhome hmade) fun m' hm' => ?_
    obtain ⟨hfqn', hfields', hproper⟩ := hrest m' hm'
    exact ⟨hfqn', fun field hfield => (hfields' field hfield).mono (le_addMessage w file m),
      hproper⟩

end Messages

/-! ## The schema -/

/-- The services of a file: only the main file has one. -/
def servicesIn (plan : Plan) (service file : String) (answers : List Answer) : List Service :=
  if plan.mainFile = file then
    serviceOf plan.mainFile service (answers.map Answer.function)
  else []

/-- What a schema has in common with the workspace that it was made from, and what that is like. -/
structure Finished (plan : Plan) (stated : Api.Schema → Prop) (service : String)
    (answers : List Answer) (w : Workspace) (schema : Schema) : Prop where
  coherent : Coherent plan stated w []
  reserved : plan.Reserved w
  wanted : plan.Wanted w
  homes : (plan.glossary.schemas.keys.map plan.home).Nodup
  defined : ∀ entry ∈ plan.glossary.schemas, plan.Defines w entry.1 entry.2
  holds : ∀ a ∈ answers, a.Holds plan service w
  distinct : (answers.map fun a => a.function.name).Nodup
  paths : (schema.files.map File.path).Nodup
  main : plan.mainFile ∈ schema.files.map File.path
  hosted : ∀ file ∈ schema.files, plan.IsHome file.path
  present : ∀ path, (w.definitions path).types ≠ [] → path ∈ schema.files.map File.path
  files : ∀ file ∈ schema.files, file.definitions.Rearranges
    { w.definitions file.path with services := servicesIn plan service file.path answers }
  imports : ∀ file ∈ schema.files, ∃ d : Definitions, file.definitions.Rearranges d ∧
    file.imports = importsOf file.path d
  namespaces : ∀ file ∈ schema.files, ∀ n ∈ file.namespaces, n.annotations = []
  options : ∀ file ∈ schema.files, file.options = []
  requests : ∀ a ∈ answers, ∃ m ∈ (w.definitions plan.mainFile).messages,
    m.name = a.request.name ∧ uniteAll (variantsOf answers m.name) = some m

/-- The main file gets the requests and the service. -/
def completed (plan : Plan) (service : String) (o : Outline) (d : Definitions) : Definitions :=
  { d with
    messages := d.messages ++ o.united
    services := d.services ++ serviceOf plan.mainFile service o.functions }

section Finish

variable {plan : Plan} {stated : Api.Schema → Prop} {w : Workspace} {answers : List Answer}
  {o : Outline} {options : Options} {edition service : String}

theorem mem_assemble_files {file : File} (h : file ∈ (assemble plan options edition o w).files) :
    ∃ path d, (path, d) ∈ w.files.update plan.mainFile {} (completed plan options.serviceName o) ∧
      file.path = path ∧ file.definitions = d.sorted ∧ file.imports = importsOf path d ∧
      (∀ n ∈ file.namespaces, n.annotations = []) ∧ file.options = [] := by
  obtain ⟨plain, hplain, rfl⟩ := List.mem_map.mp h
  obtain ⟨⟨path, d⟩, hmem, rfl⟩ := List.mem_map.mp hplain
  exact ⟨path, d, hmem, rfl, rfl, rfl, List.forall_mem_singleton.mpr rfl, rfl⟩

theorem assemble_paths : (assemble plan options edition o w).files.map File.path =
    (w.files.update plan.mainFile {} (completed plan options.serviceName o)).keys := by
  simp only [assemble, Schema.sorted, List.map_map, Table.keys]
  rfl

theorem mem_keys_of_types {file : String} (h : (w.definitions file).types ≠ []) :
    file ∈ w.files.keys := by
  by_contra hnot
  refine h ?_
  rw [Workspace.definitions, Table.get?_eq_none_iff.mpr hnot]
  rfl

/-- Before it is sorted, a file has the definitions of the workspace, and the main file those of the
requests and the service, too. -/
theorem eq_of_mem_completed (h : Outlined plan stated service w answers o) {path : String}
    {d : Definitions}
    (hmem : (path, d) ∈ w.files.update plan.mainFile {} (completed plan service o)) :
    d = { (addMessages w plan.mainFile o.united).definitions path with
      services := servicesIn plan service path answers } := by
  have hget := Table.get?_of_mem h.coherent.sorted.update.nodup hmem
  have hunserved := (h.coherent.sound path).services
  rw [Table.get?_update] at hget
  rw [definitions_addMessages, servicesIn, ← h.functions]
  split at hget
  · rename_i hmain
    obtain rfl := Option.some.inj hget
    have hempty : ((w.files.get? path).getD {}).services = [] := hunserved
    rw [completed, if_pos hmain, if_pos hmain, hmain, hempty]
    rfl
  · rename_i hmain
    have hsame : w.definitions path = d := by
      rw [Workspace.definitions, hget]
      rfl
    rw [if_neg hmain, if_neg hmain, ← hunserved, hsame]

/-- A schema is finished when all requests are paid for. -/
theorem assemble_finished (h : Outlined plan stated options.serviceName w answers o)
    (hreserved : plan.Reserved w) (hwanted : plan.Wanted w)
    (hhomes : (plan.glossary.schemas.keys.map plan.home).Nodup)
    (hdefined : ∀ entry ∈ plan.glossary.schemas, plan.Defines w entry.1 entry.2) :
    Finished plan stated options.serviceName answers (addMessages w plan.mainFile o.united)
      (assemble plan options edition o w) where
  coherent := by
    refine (h.coherent.perm h.debts_perm).addMessages plan.isHome_mainFile fun m hm => ?_
    obtain ⟨-, hu⟩ := h.mem_united.mp hm
    obtain ⟨-, hfqn, hfields⟩ := Outlined.united_spec h.holds hu
    exact ⟨hfqn, hfields, Outlined.united_ordered h.holds hu⟩
  reserved := hreserved.mono (le_addMessages _ _ _)
  wanted := hwanted.mono (le_addMessages _ _ _)
  homes := hhomes
  defined entry hentry := (hdefined entry hentry).mono (le_addMessages _ _ _)
  holds a ha := (h.holds a ha).mono (le_addMessages _ _ _)
  distinct := by
    have hdistinct := h.distinct
    rwa [h.functions, List.map_map] at hdistinct
  paths := by
    rw [assemble_paths]
    exact (h.coherent.sorted.update).nodup
  main := by
    rw [assemble_paths, Table.mem_keys_update]
    exact .inl rfl
  hosted file hfile := by
    have hpath : file.path ∈ (assemble plan options edition o w).files.map File.path :=
      List.mem_map_of_mem hfile
    rw [assemble_paths, Table.mem_keys_update] at hpath
    rcases hpath with hmain | hpath
    · exact .inl hmain
    · exact h.coherent.hosted _ hpath
  present path hpath := by
    rw [assemble_paths, Table.mem_keys_update]
    rw [definitions_addMessages] at hpath
    split at hpath
    · rename_i hmain
      exact .inl hmain.symm
    · exact .inr (mem_keys_of_types hpath)
  files file hfile := by
    obtain ⟨path, d, hmem, rfl, hd, -⟩ := mem_assemble_files hfile
    rw [hd, ← eq_of_mem_completed h hmem]
    exact d.sorted_rearranges
  imports file hfile := by
    obtain ⟨path, d, -, rfl, hd, himports, -⟩ := mem_assemble_files hfile
    exact ⟨d, hd ▸ d.sorted_rearranges, himports⟩
  namespaces file hfile := by
    obtain ⟨-, -, -, -, -, -, hnamespaces, -⟩ := mem_assemble_files hfile
    exact hnamespaces
  options file hfile := by
    obtain ⟨-, -, -, -, -, -, -, hoptions⟩ := mem_assemble_files hfile
    exact hoptions
  requests a ha := by
    obtain ⟨m, hm, hname, hunited⟩ := h.exists_united ha
    refine ⟨m, ?_, hname, hunited⟩
    rw [definitions_addMessages, if_pos rfl]
    exact List.mem_append_right _ hm

end Finish

/-! ## Converting documents -/

/-- The course of a conversion: with the names that the plan reserves the named schemas are defined,
then the service is built, and the schema is assembled from all that is there at the end. -/
structure Course (file : String) (options : Options) (document : Api.Document) (plan : Plan)
    (w₀ w : Workspace) (schema : Schema) : Prop where
  planned : Plan.of file options document.schemas = (plan, w₀)
  runs : ∃ w₁ o, Runs (defineAll plan document.schemas) w₀ () w₁ ∧
    Serves (buildService plan options.serviceName document.paths) {} w₁ () o w ∧
    schema = assemble plan options document.version o w

/-- A course finishes its schema, with an answer for each operation. The last steps take no names. -/
theorem Course.finished {file : String} {options : Options} {document : Api.Document} {plan : Plan}
    {w₀ w : Workspace} {schema : Schema} (h : Course file options document plan w₀ w schema)
    (hn : document.schemas.keys.Nodup) :
    ∃ answers, answers.map Answer.call = calls document.paths ∧ ∃ w', w ≤ w' ∧
      (∀ f, w'.namesIn f = w.namesIn f) ∧
      Finished plan (Api.StatedIn document.paths) options.serviceName answers w' schema := by
  obtain ⟨w₁, o, hdefine, hservice, rfl⟩ := h.runs
  obtain ⟨hglossary, -, hnames, hcoherent, hreserved, hwanted⟩ :=
    Plan.of_coherent (Api.StatedIn document.paths) hn h.planned
  have hhomes := hcoherent.nodup_owed
  rw [← List.append_nil (List.map _ _)] at hcoherent
  obtain ⟨hall, hle, hdefined⟩ := defineAll_coherent (by rw [hglossary]; exact hn) hnames
    (by rw [hglossary]; exact fun _ h => h) hcoherent hdefine
  obtain ⟨answers, hcalls, hle', houtlined⟩ :=
    buildService_covers _ _ (fun _ h => h) (.empty hall) hservice
  refine ⟨answers, hcalls, _, le_addMessages _ _ _, fun _ => namesIn_addMessages,
    assemble_finished houtlined ((hreserved.mono hle).mono hle') ((hwanted.mono hle).mono hle')
      ?_ ?_⟩
  · rwa [hglossary]
  · rw [hglossary]
    exact fun entry hentry => (hdefined entry hentry).mono hle'

/-- A conversion that gives a schema has taken a course. -/
theorem convert_course {file : String} {document : Api.Document} {options : Options}
    {schema : Schema} (hn : document.schemas.keys.Nodup)
    (h : convert file document options = .ok schema) :
    ∃ plan w₀ w, Course file options document plan w₀ w schema ∧
      ∃ answers, answers.map Answer.call = calls document.paths ∧ ∃ w', w ≤ w' ∧
        Finished plan (Api.StatedIn document.paths) options.serviceName answers w' schema := by
  rw [convert] at h
  cases hplan : Plan.of file options document.schemas with
  | mk plan w₀ =>
    rw [hplan] at h
    simp only [bind_eq_ok, Prod.exists] at h
    obtain ⟨_, w₁, hdefine, _, o, w₂, hservice, hschema⟩ := h
    obtain rfl := Except.ok.inj hschema
    have hcourse : Course file options document plan w₀ w₂
        (assemble plan options document.version o w₂) := ⟨hplan, w₁, o, hdefine, hservice, rfl⟩
    obtain ⟨answers, hcalls, w', hle, -, hfinished⟩ := hcourse.finished hn
    exact ⟨plan, w₀, w₂, hcourse, answers, hcalls, w', hle, hfinished⟩

theorem convert_finished {file : String} {document : Api.Document} {options : Options}
    {schema : Schema} (hn : document.schemas.keys.Nodup)
    (h : convert file document options = .ok schema) :
    ∃ answers w, answers.map Answer.call = calls document.paths ∧
      Finished (Plan.of file options document.schemas).1 (Api.StatedIn document.paths)
        options.serviceName answers w schema := by
  obtain ⟨plan, w₀, w, hcourse, answers, hcalls, w', -, hfinished⟩ := convert_course hn h
  rw [hcourse.planned]
  exact ⟨answers, w', hcalls, hfinished⟩

end RestThrift.Convert
