import Mathlib
import RestThrift.Convert.NamedSchema
import RestThrift.Proofs.Coherence

/-!
# Definitions of named schemas

Reserving names leaves one definition owed for each key, and building the definitions pays for all
of them.
-/
namespace RestThrift.Convert

open Workspace

namespace Plan

/-- The name of a named schema's definition. -/
def nameOf (p : Plan) (key : String) : String :=
  (p.names.get? key).getD (Naming.identifier (Naming.splitDefinition key).2)

def home (p : Plan) (key : String) : String × String := (p.fileOf key, p.nameOf key)

/-- The names of all named schemas are taken. -/
def Reserved (p : Plan) (w : Workspace) : Prop :=
  ∀ key ∈ p.glossary.schemas.keys, p.nameOf key ∈ w.namesIn (p.fileOf key)

/-- What the keys ask for is taken. -/
def Wanted (p : Plan) (w : Workspace) : Prop :=
  ∀ key ∈ p.glossary.schemas.keys, wantedName key ∈ w.namesIn (p.fileOf key)

theorem Wanted.mono {p : Plan} {w w' : Workspace} (h : p.Wanted w) (hle : w ≤ w') : p.Wanted w' :=
  fun key hkey => (hle.names _).subset (h key hkey)

theorem Reserved.mono {p : Plan} {w w' : Workspace} (h : p.Reserved w) (hle : w ≤ w') :
    p.Reserved w' :=
  fun key hkey => (hle.names _).subset (h key hkey)

theorem isHome_fileOf {p : Plan} {key : String} {schema : Api.Schema}
    (h : (key, schema) ∈ p.glossary.schemas) : p.IsHome (p.fileOf key) :=
  .inr ⟨key, List.mem_map_of_mem h, rfl⟩

theorem nameOf_eq {p : Plan} {key name : String} (h : p.names.get? key = some name) :
    p.nameOf key = name := by
  rw [nameOf, h, Option.getD_some]

end Plan

variable {plan : Plan} {stated : Api.Schema → Prop} {w w' : Workspace}
  {owed : List (String × String)} {keys : List String} {key name : String}
  {schema : Api.Schema}

/-! ## Reserved names -/

theorem keys_reserve (stem : String) (keys : List String) (w : Workspace) :
    (reserve stem keys w).1.keys = keys := by
  induction keys generalizing w with
  | nil => rfl
  | cons key rest ih => simp only [reserve, Table.keys_cons, ih]

/-- Nothing is defined where names are reserved. -/
theorem files_reserve (stem : String) (keys : List String) (w : Workspace) :
    (reserve stem keys w).2.files = w.files := by
  induction keys generalizing w with
  | nil => rfl
  | cons key rest ih => exact ih _

/-- A definition is owed for each key. -/
theorem reserve_coherent (hkeys : ∀ key ∈ keys, key ∈ plan.glossary.schemas.keys)
    (h : Coherent plan stated w owed) :
    Coherent plan stated (reserve plan.stem keys w).2
      ((reserve plan.stem keys w).1.map (fun entry => (plan.fileOf entry.1, entry.2)) ++ owed) := by
  induction keys generalizing w owed with
  | nil => exact h
  | cons key rest ih =>
    obtain ⟨hkey, hrest⟩ := List.forall_mem_cons.mp hkeys
    exact (ih hrest (h.claim (.key hkey))).perm List.perm_middle

theorem le_reserve (stem : String) (keys : List String) (w : Workspace) :
    w ≤ (reserve stem keys w).2 := by
  induction keys generalizing w with
  | nil => exact le_rfl
  | cons key rest ih => exact (le_claim w _ _).trans (ih _)

/-- What a key asks for is taken, by its own definition or by another one. -/
theorem wantedName_mem_reserve (stem : String) (hkey : key ∈ keys) (w : Workspace) :
    wantedName key ∈
      (reserve stem keys w).2.namesIn (spaceFile stem (Naming.splitDefinition key).1) := by
  induction keys generalizing w with
  | nil => cases hkey
  | cons first rest ih =>
    rcases List.mem_cons.mp hkey with rfl | hkey
    · have hclaimed := mem_namesIn_claim w (spaceFile stem (Naming.splitDefinition key).1)
        (wantedName key)
      exact ((le_reserve stem rest _).names _).subset hclaimed
    · exact ih hkey _

/-- The names of a plan are in the order of the keys, with a definition owed for each. -/
theorem Plan.of_coherent (stated : Api.Schema → Prop) {file : String} {options : Options}
    {schemas : Table Api.Schema} (hn : schemas.keys.Nodup)
    (h : Plan.of file options schemas = (plan, w)) :
    plan.glossary = { schemas, policy := options.policy } ∧ plan.stem = outputStem file ∧
      (∀ key ∈ schemas.keys, plan.names.get? key = some (plan.nameOf key)) ∧
      Coherent plan stated w (schemas.keys.map plan.home) ∧ plan.Reserved w ∧ plan.Wanted w := by
  simp only [Plan.of, Prod.mk.injEq] at h
  obtain ⟨hplan, rfl⟩ := h
  have hkeys : plan.names.keys = schemas.keys := by
    rw [← hplan]
    exact keys_reserve _ _ _
  have hnames : ∀ entry ∈ plan.names, plan.names.get? entry.1 = some entry.2 := fun entry he =>
    Table.get?_of_mem (hkeys ▸ hn) he
  have howed : plan.names.map (fun entry => (plan.fileOf entry.1, entry.2)) =
      schemas.keys.map plan.home := by
    rw [← hkeys, Table.keys, List.map_map]
    refine List.map_congr_left fun entry he => ?_
    simp only [Function.comp_apply, Plan.home, Plan.nameOf_eq (hnames entry he)]
  have hstem : plan.stem = outputStem file := by rw [← hplan]
  have hglossary : plan.glossary = { schemas, policy := options.policy } := by rw [← hplan]
  have hall : ∀ key ∈ schemas.keys, key ∈ plan.glossary.schemas.keys := by
    rw [hglossary]
    exact fun _ hkey => hkey
  have hcoherent := reserve_coherent hall (Coherent.empty plan stated)
  have hreserved : Coherent plan stated (reserve (outputStem file) schemas.keys {}).2
      (schemas.keys.map plan.home) := by
    rw [← howed]
    simpa [hstem, ← hplan] using hcoherent
  refine ⟨hglossary, hstem, fun key hkey => ?_, hreserved, fun key hkey => ?_, fun key hkey => ?_⟩
  · rw [← hkeys] at hkey
    obtain ⟨name, hname⟩ := Table.exists_get?_of_mem_keys hkey
    rw [hname, Plan.nameOf_eq hname]
  · rw [hglossary] at hkey
    have hmem : plan.home key ∈ schemas.keys.map plan.home := List.mem_map_of_mem hkey
    exact (hreserved.borne _).subset (List.mem_append_right _ (mem_owedIn.mpr hmem))
  · rw [hglossary] at hkey
    rw [Plan.fileOf, hstem]
    exact wantedName_mem_reserve (outputStem file) hkey {}

/-! ## Definitions -/

/-- The definition that a schema has under a name. -/
inductive Defined (plan : Plan) (w : Workspace) (file name : String) (schema : Api.Schema) :
    Definition → Prop
  | enumeration (hchoices : schema.choices.isEmpty = false) :
      Defined plan w file name schema (.enumeration (enumeration file name schema))
  | typedef {t : Typedef} (hchoices : schema.choices.isEmpty = true)
      (halias : schema.isAlias = true) (hname : t.name = name)
      (hdenotes : plan.Denotes file schema t.target) : Defined plan w file name schema (.typedef t)
  | message {object : Api.Schema} {m : Message} (hchoices : schema.choices.isEmpty = true)
      (halias : schema.isAlias = false)
      (hobject : plan.glossary.effectiveObject schema = .ok object)
      (hformed : Formed plan w file name object m) : Defined plan w file name schema (.message m)

theorem Defined.mono {file : String} {d : Definition} (h : Defined plan w file name schema d)
    (hle : w ≤ w') : Defined plan w' file name schema d := by
  cases h with
  | enumeration hchoices => exact .enumeration hchoices
  | typedef hchoices halias hname hdenotes => exact .typedef hchoices halias hname hdenotes
  | message hchoices halias hobject hformed =>
    exact .message hchoices halias hobject (hformed.mono hle)

theorem Defined.name_eq {file : String} {d : Definition} (h : Defined plan w file name schema d) :
    d.name = name := by
  cases h with
  | enumeration _ => rfl
  | typedef _ _ hname _ => exact hname
  | message _ _ _ hformed => exact hformed.named.1

/-- A schema has its definition under the name of a key. -/
def Plan.Defines (p : Plan) (w : Workspace) (key : String) (schema : Api.Schema) : Prop :=
  ∃ d ∈ (w.definitions (p.fileOf key)).types, Defined p w (p.fileOf key) (p.nameOf key) schema d

theorem Plan.Defines.mono (h : plan.Defines w key schema) (hle : w ≤ w') :
    plan.Defines w' key schema := by
  obtain ⟨d, hd, hdefined⟩ := h
  exact ⟨d, types_subset hle _ hd, hdefined.mono hle⟩

/-- What defining a named schema does: an enumeration is added and remembered, or a typedef is
added for the type of an alias, or else the struct of the composed object. -/
theorem define_runs (hrun : Runs (define plan key name schema) w () w') :
    (schema.choices.isEmpty = false ∧
      w' = (w.addEnum (plan.fileOf key) (enumeration (plan.fileOf key) name schema)).rememberEnum
        (plan.fileOf key) name name) ∨
    (schema.choices.isEmpty = true ∧ schema.isAlias = true ∧ ∃ target w₁,
      Runs (typeWithin plan (plan.steps schema) [key]
        { file := plan.fileOf key, parent := name, field := "" } schema) w target w₁ ∧
      w' = w₁.addTypedef (plan.fileOf key)
        { name, fqn := fqnOf (plan.fileOf key) name, target
          comments := describe schema.description }) ∨
    (schema.choices.isEmpty = true ∧ schema.isAlias = false ∧ ∃ object message w₁,
      plan.glossary.effectiveObject schema = .ok object ∧
      Runs (structMessage (typeOf plan) (plan.fileOf key) name object) w message w₁ ∧
      w' = w₁.addMessage (plan.fileOf key) message) := by
  simp only [define] at hrun
  cases hchoices : schema.choices.isEmpty with
  | false =>
    simp only [hchoices, Bool.not_false, if_true] at hrun
    exact .inl ⟨rfl, runs_modify.mp hrun⟩
  | true =>
    simp only [hchoices, Bool.not_true, Bool.false_eq_true, if_false] at hrun
    cases halias : schema.isAlias with
    | true =>
      simp only [halias, if_true, runs_bind, runs_modify] at hrun
      obtain ⟨target, w₁, htarget, rfl⟩ := hrun
      exact .inr (.inl ⟨rfl, rfl, target, w₁, htarget, rfl⟩)
    | false =>
      simp only [halias, Bool.false_eq_true, if_false, runs_bind, runs_lift, runs_modify] at hrun
      obtain ⟨object, _, ⟨hobject, rfl⟩, message, w₁, hmessage, rfl⟩ := hrun
      exact .inr (.inr ⟨rfl, rfl, object, message, w₁, hobject, hmessage, rfl⟩)

/-- The definition of a named schema is made under its name. -/
theorem define_coherent (hn : plan.glossary.schemas.keys.Nodup)
    (h : Coherent plan stated w (plan.home key :: owed))
    (hentry : (key, schema) ∈ plan.glossary.schemas)
    (hrun : Runs (define plan key (plan.nameOf key) schema) w () w') :
    Coherent plan stated w' owed ∧ w ≤ w' ∧ plan.Defines w' key schema := by
  have hhome : plan.IsHome (plan.fileOf key) := Plan.isHome_fileOf hentry
  have hhost : plan.Hosts (plan.fileOf key) (plan.nameOf key) :=
    ⟨hhome, h.heads_of_owed List.mem_cons_self⟩
  have hheld : plan.glossary.Holds stated schema := .named hentry
  rcases define_runs hrun with ⟨hchoices, rfl⟩ | ⟨hchoices, halias, target, w₁, htarget, rfl⟩ |
    ⟨hchoices, halias, object, message, w₁, hobject, hmessage, rfl⟩
  · have hadd := h.addEnumeration hhome hheld (plan.nameOf key)
    have he : enumeration (plan.fileOf key) (plan.nameOf key) schema ∈
        ((w.addEnum (plan.fileOf key) (enumeration (plan.fileOf key) (plan.nameOf key)
          schema)).definitions (plan.fileOf key)).enums := by
      simp [definitions_addEnum]
    have hle := le_addEnum w (plan.fileOf key)
      (enumeration (plan.fileOf key) (plan.nameOf key) schema)
    exact ⟨hadd, hle.trans (le_rememberEnum _ _ _ _), _, Definitions.enumeration_mem_types he,
      .enumeration hchoices⟩
  · have hreached : plan.glossary.ReachedFrom [key] schema :=
      List.forall_mem_singleton.mpr (.refl (Table.get?_of_mem hn hentry))
    obtain ⟨hgrows, htyped⟩ := typeWithin_grows h.remembers htarget hhost hheld hreached
    let t : Typedef := { name := plan.nameOf key, fqn := fqnOf (plan.fileOf key) (plan.nameOf key)
                         target, comments := describe schema.description }
    have hadd := (h.grows hgrows).addTypedef (t := t) rfl htyped quoting_nil hhome
    have ht : t ∈ ((w₁.addTypedef (plan.fileOf key) t).definitions (plan.fileOf key)).typedefs := by
      simp [definitions_addTypedef]
    have hle := hgrows.le.trans (le_addTypedef w₁ (plan.fileOf key) t)
    exact ⟨hadd, hle, _, Definitions.typedef_mem_types ht,
      .typedef hchoices halias rfl (typeWithin_denotes htarget hreached)⟩
  · have hmerged : plan.glossary.ObjectOf stated object := .composed hheld hobject
    obtain ⟨hgrows, hformed⟩ :=
      structMessage_grows (typeOf_accounted plan stated) h.remembers hmessage hhost hmerged
        fun entry _ => plan.glossary.reachedFrom_nil entry.2
    have hadd := (h.grows hgrows).addStruct hhome hmerged hformed
    have hle := le_addMessage w₁ (plan.fileOf key) message
    have hm : message ∈
        ((w₁.addMessage (plan.fileOf key) message).definitions (plan.fileOf key)).messages := by
      simp [definitions_addMessage]
    exact ⟨hadd, hgrows.le.trans hle, _, Definitions.message_mem_types hm,
      .message hchoices halias hobject (hformed.mono hle)⟩

/-- All definitions that are owed for named schemas are made. -/
theorem defineAll_coherent {todo : Table Api.Schema} (hn : plan.glossary.schemas.keys.Nodup)
    (hnames : ∀ key ∈ todo.keys, plan.names.get? key = some (plan.nameOf key))
    (htodo : ∀ entry ∈ todo, entry ∈ plan.glossary.schemas)
    (h : Coherent plan stated w (todo.keys.map plan.home ++ owed))
    (hrun : Runs (defineAll plan todo) w () w') :
    Coherent plan stated w' owed ∧ w ≤ w' ∧ ∀ entry ∈ todo, plan.Defines w' entry.1 entry.2 := by
  induction todo generalizing w with
  | nil =>
    obtain ⟨-, rfl⟩ := runs_pure.mp hrun
    exact ⟨h, le_rfl, fun _ h => absurd h List.not_mem_nil⟩
  | cons entry rest ih =>
    obtain ⟨key, schema⟩ := entry
    obtain ⟨hkey, hrest⟩ := List.forall_mem_cons.mp hnames
    obtain ⟨hentry, htodo⟩ := List.forall_mem_cons.mp htodo
    simp only [defineAll, hkey, runs_bind] at hrun
    obtain ⟨_, w₁, hdefine, hrun⟩ := hrun
    obtain ⟨hcoherent, hle, hdefines⟩ := define_coherent hn h hentry hdefine
    obtain ⟨hall, hle', hothers⟩ := ih hrest htodo hcoherent hrun
    exact ⟨hall, hle.trans hle', List.forall_mem_cons.mpr ⟨hdefines.mono hle', hothers⟩⟩

end RestThrift.Convert
