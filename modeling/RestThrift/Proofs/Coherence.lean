import Mathlib
import RestThrift.Proofs.Attachments
import RestThrift.Proofs.Fields
import RestThrift.Proofs.Synthesis

/-!
# Coherent workspaces

A name that is taken is borne by one definition, or a definition is owed for it: names of named
schemas and of requests are taken before their definitions exist. Definitions carry their
fully-qualified names, their types are types that synthesis makes, their fields are numbered, and
their annotations quote texts.
-/
namespace RestThrift

/-- Messages, enumerations and typedefs: the definitions that a type can stand for. -/
def Definitions.types (d : Definitions) : List Definition :=
  d.messages.map .message ++ d.enums.map .enumeration ++ d.typedefs.map .typedef

theorem Definitions.message_mem_types {d : Definitions} {m : Message} (h : m ∈ d.messages) :
    .message m ∈ d.types := by
  simp [types, h]

theorem Definitions.enumeration_mem_types {d : Definitions} {e : Enumeration} (h : e ∈ d.enums) :
    .enumeration e ∈ d.types := by
  simp [types, h]

theorem Definitions.typedef_mem_types {d : Definitions} {t : Typedef} (h : t ∈ d.typedefs) :
    .typedef t ∈ d.types := by
  simp [types, h]

theorem Definitions.forall_mem_types {d : Definitions} {P : Definition → Prop} :
    (∀ definition ∈ d.types, P definition) ↔ (∀ m ∈ d.messages, P (.message m)) ∧
      (∀ e ∈ d.enums, P (.enumeration e)) ∧ ∀ t ∈ d.typedefs, P (.typedef t) := by
  simp only [types, List.forall_mem_append, List.forall_mem_map, and_assoc]

namespace Convert

open Workspace Text

open scoped List

theorem types_subset {w w' : Workspace} (h : w ≤ w') (file : String) :
    (w.definitions file).types ⊆ (w'.definitions file).types := by
  refine List.append_subset.mpr ⟨List.append_subset.mpr ⟨?_, ?_⟩, ?_⟩ <;> intro d hd <;>
    obtain ⟨inner, hinner, rfl⟩ := List.mem_map.mp hd
  · exact Definitions.message_mem_types ((h.messages file).subset hinner)
  · exact Definitions.enumeration_mem_types ((h.enums file).subset hinner)
  · exact Definitions.typedef_mem_types ((h.typedefs file).subset hinner)

/-! ## Debts -/

/-- The names that are owed in a file. -/
def owedIn (owed : List (String × String)) (file : String) : List String :=
  (owed.filter (·.1 = file)).map (·.2)

section Debts

variable {owed other : List (String × String)} {file f name : String}

@[simp] theorem owedIn_nil : owedIn [] file = [] := rfl

@[simp] theorem owedIn_cons_self :
    owedIn ((file, name) :: owed) file = name :: owedIn owed file := by
  simp [owedIn]

theorem owedIn_cons_of_ne (h : file ≠ f) : owedIn ((file, name) :: owed) f = owedIn owed f := by
  simp [owedIn, h]

theorem mem_owedIn : name ∈ owedIn owed file ↔ (file, name) ∈ owed := by
  simp [owedIn]

theorem nodup_of_owedIn (h : ∀ file, (owedIn owed file).Nodup) : owed.Nodup := by
  induction owed with
  | nil => exact List.nodup_nil
  | cons entry rest ih =>
    obtain ⟨file, name⟩ := entry
    have hself := h file
    rw [owedIn_cons_self] at hself
    refine List.nodup_cons.mpr ⟨fun hmem => (List.nodup_cons.mp hself).1 (mem_owedIn.mpr hmem), ?_⟩
    refine ih fun f => ?_
    by_cases hf : file = f
    · subst hf
      exact (List.nodup_cons.mp hself).2
    · have hother := h f
      rwa [owedIn_cons_of_ne hf] at hother

theorem owedIn_perm (h : owed.Perm other) (file : String) :
    (owedIn owed file).Perm (owedIn other file) :=
  (h.filter _).map _

end Debts

/-! ## Names that are asked for -/

theorem Plan.Asks.isPlain {p : Plan} {file base : String} (h : p.Asks file base) :
    IsPlain base.toList := by
  cases h with
  | key _ => exact Naming.isPlain_identifier _
  | request _ _ => exact Naming.isPlain_definitionName _
  | place _ field => exact Naming.isPlain_nestedName _ field

/-- A name arises from one that is asked for, which is then taken, too. -/
def Plan.Names (p : Plan) (w : Workspace) (file name : String) : Prop :=
  ∃ base n, name = numbered base n ∧ p.Asks file base ∧ base ∈ w.namesIn file

theorem Plan.Names.isPlain {p : Plan} {w : Workspace} {file name : String}
    (h : p.Names w file name) : IsPlain name.toList := by
  obtain ⟨base, n, rfl, hasks, -⟩ := h
  exact isPlain_numbered hasks.isPlain n

theorem Plan.Names.mono {p : Plan} {w w' : Workspace} {file name : String}
    (h : p.Names w file name) (hle : w.namesIn file ⊆ w'.namesIn file) : p.Names w' file name := by
  obtain ⟨base, n, hname, hasks, hbase⟩ := h
  exact ⟨base, n, hname, hasks, hle hbase⟩

/-- What is asked for is taken as soon as a name is claimed for it. -/
theorem mem_namesIn_claim (w : Workspace) (file base : String) :
    base ∈ (w.claim file base).2.namesIn file := by
  rw [namesIn_claim, if_pos rfl]
  obtain ⟨n, hn, rfl | hbase⟩ := freeName_eq (w.namesIn file) base
  · exact List.mem_append_right _ (List.mem_singleton.mpr hn.symm)
  · exact List.mem_append_left _ hbase

theorem Plan.Asks.claim {p : Plan} {file base : String} (h : p.Asks file base) (w : Workspace) :
    p.Names (w.claim file base).2 file (w.claim file base).1 := by
  obtain ⟨n, hn, -⟩ := freeName_eq (w.namesIn file) base
  exact ⟨base, n, hn, h, mem_namesIn_claim w file base⟩

/-! ## The invariant -/

/-- Where a message comes from: it is the struct of an object, or the request of operations. -/
inductive Made (plan : Plan) (stated : Api.Schema → Prop) (w : Workspace) (file : String)
    (m : Message) : Prop
  | struct {object : Api.Schema} (hobject : plan.glossary.ObjectOf stated object)
      (hformed : Formed plan w file m.name object m)
  | request (hascending : Ascending m.fields) (hdefaults : ∀ field ∈ m.fields, field.default = none)
      (hnames : ∀ field ∈ m.fields, ∃ input, field.name = Naming.fieldName input)

/-- What the definitions of a file are like. -/
structure Sound (plan : Plan) (stated : Api.Schema → Prop) (w : Workspace) (file : String)
    (d : Definitions) : Prop where
  services : d.services = []
  constants : d.constants = []
  named : ∀ definition ∈ d.types, definition.fqn = fqnOf file definition.name
  fields : ∀ m ∈ d.messages, ∀ field ∈ m.fields, Typed plan w file field.type
  targets : ∀ t ∈ d.typedefs, Typed plan w file t.target
  numbered : ∀ m ∈ d.messages, Numbered m.fields
  quoting : ∀ definition ∈ d.types, Quoting definition.attachments
  made : ∀ m ∈ d.messages, Made plan stated w file m
  listed : ∀ e ∈ d.enums, ∃ s, plan.glossary.Holds stated s ∧ e = enumeration file e.name s

/-- What a workspace is like, up to the definitions that are owed for names in files. -/
structure Coherent (plan : Plan) (stated : Api.Schema → Prop) (w : Workspace)
    (owed : List (String × String)) : Prop where
  sorted : w.files.Sorted
  hosted : ∀ file ∈ w.files.keys, plan.IsHome file
  asked : ∀ file, ∀ name ∈ w.namesIn file, plan.Names w file name
  nodup : ∀ file, (w.namesIn file).Nodup
  borne : ∀ file,
    ((w.definitions file).types.map Definition.name ++ owedIn owed file).Perm (w.namesIn file)
  sound : ∀ file, Sound plan stated w file (w.definitions file)
  remembers : w.Remembers

variable {plan : Plan} {stated : Api.Schema → Prop} {w w' : Workspace}
  {owed other : List (String × String)} {file base name : String} {d : Definitions}

theorem Formed.named {object : Api.Schema} {message : Message}
    (h : Formed plan w file name object message) :
    message.name = name ∧ message.fqn = fqnOf file name := by
  obtain ⟨fields, -, rfl⟩ := h
  exact ⟨rfl, rfl⟩

theorem Formed.typed {object : Api.Schema} {message : Message}
    (h : Formed plan w file name object message) :
    ∀ field ∈ message.fields, Typed plan w file field.type := by
  obtain ⟨fields, hfields, rfl⟩ := h
  refine forall_mem_renumber (fun _ _ hf => hf) fun field hfield => ?_
  obtain ⟨entry, -, hentry⟩ := exists_left_of_forall₂ hfields hfield
  exact hentry.typed

theorem Formed.numbered {object : Api.Schema} {message : Message}
    (h : Formed plan w file name object message) : Numbered message.fields := by
  obtain ⟨fields, -, rfl⟩ := h
  exact numbered_renumber fields

/-- A struct of an object has no annotations. -/
theorem Formed.bare {object : Api.Schema} {message : Message}
    (h : Formed plan w file name object message) :
    message.annotations = [] ∧ ∀ field ∈ message.fields, field.annotations = [] := by
  obtain ⟨fields, hfields, rfl⟩ := h
  refine ⟨rfl, forall_mem_renumber (fun _ _ hf => hf) fun field hfield => ?_⟩
  obtain ⟨entry, -, hentry⟩ := exists_left_of_forall₂ hfields hfield
  rw [hentry.shape]

theorem Formed.quoting {object : Api.Schema} {message : Message} {shown fqn : String}
    (h : Formed plan w file name object message) :
    Quoting { message with name := shown, fqn }.attachments := by
  obtain ⟨hheader, hfields⟩ := h.bare
  refine Message.quoting_iff.mpr ⟨?_, fun field hfield a ha => ?_⟩
  · simp [hheader]
  · rw [hfields field hfield] at ha
    exact absurd ha List.not_mem_nil

theorem membersFrom_bare {names : Option (List String)} {choices : List Api.Choice} {n : Nat} :
    ∀ m ∈ membersFrom name names n choices, m.annotations = [] := by
  induction choices generalizing n with
  | nil => exact fun _ h => absurd h List.not_mem_nil
  | cons choice rest ih => exact List.forall_mem_cons.mpr ⟨rfl, ih⟩

theorem enumeration_quoting (file name : String) (schema : Api.Schema) :
    Quoting (enumeration file name schema).attachments := by
  refine quoting_append.mpr ⟨quoting_nil, quoting_flatMap.mpr fun m hm => ?_⟩
  rw [EnumMember.attachments, membersFrom_bare m hm]
  exact quoting_nil

theorem Formed.rename {object : Api.Schema} {message : Message}
    (h : Formed plan w file base object message) (name : String) :
    Formed plan w file name object { message with name, fqn := fqnOf file name } := by
  obtain ⟨fields, hfields, rfl⟩ := h
  exact ⟨fields, hfields, rfl⟩

theorem Made.mono {m : Message} (h : Made plan stated w file m) (hle : w ≤ w') :
    Made plan stated w' file m := by
  cases h with
  | struct hobject hformed => exact .struct hobject (hformed.mono hle)
  | request hascending hdefaults hnames => exact .request hascending hdefaults hnames

theorem Sound.mono (h : Sound plan stated w file d) (hle : w ≤ w') :
    Sound plan stated w' file d where
  services := h.services
  constants := h.constants
  named := h.named
  fields m hm field hfield := (h.fields m hm field hfield).mono hle
  targets t ht := (h.targets t ht).mono hle
  numbered := h.numbered
  quoting := h.quoting
  made m hm := (h.made m hm).mono hle
  listed := h.listed

namespace Coherent

theorem empty (plan : Plan) (stated : Api.Schema → Prop) : Coherent plan stated {} [] where
  sorted := Table.sorted_nil
  hosted _ h := absurd h List.not_mem_nil
  asked file name h := absurd h List.not_mem_nil
  nodup file := List.nodup_nil
  borne file := List.Perm.nil
  sound file :=
    ⟨rfl, rfl, fun _ h => absurd h List.not_mem_nil, fun _ h => absurd h List.not_mem_nil,
      fun _ h => absurd h List.not_mem_nil, fun _ h => absurd h List.not_mem_nil,
      fun _ h => absurd h List.not_mem_nil, fun _ h => absurd h List.not_mem_nil,
      fun _ h => absurd h List.not_mem_nil⟩
  remembers file base name h := by simp [inlineEnum?] at h

theorem perm (h : Coherent plan stated w owed) (hp : owed.Perm other) :
    Coherent plan stated w other :=
  { h with borne := fun file => ((owedIn_perm hp file).append_left _).symm.trans (h.borne file) }

/-- A definition is owed for a name that is claimed. -/
theorem claim (h : Coherent plan stated w owed) (hasks : plan.Asks file base) :
    Coherent plan stated (w.claim file base).2 ((file, (w.claim file base).1) :: owed) where
  sorted := h.sorted
  hosted := h.hosted
  asked f name hname := by
    have hle := (le_claim w file base).names f
    rw [namesIn_claim] at hname
    split at hname
    · rename_i hf
      subst hf
      rcases List.mem_append.mp hname with hname | hname
      · exact (h.asked file name hname).mono hle.subset
      · rw [List.mem_singleton.mp hname]
        exact hasks.claim w
    · exact (h.asked f name hname).mono hle.subset
  nodup f := by
    rw [namesIn_claim]
    split
    · rename_i hf
      refine (h.nodup f).append (List.nodup_singleton _) ?_
      rw [List.disjoint_singleton, hf]
      exact freeName_not_mem _ _
    · exact h.nodup f
  borne f := by
    rw [namesIn_claim, definitions_claim]
    split
    · rename_i hf
      subst hf
      rw [owedIn_cons_self]
      calc _
        _ ~ (w.claim file base).1 ::
              ((w.definitions file).types.map Definition.name ++ owedIn owed file) :=
          List.perm_middle
        _ ~ (w.claim file base).1 :: w.namesIn file := (h.borne file).cons _
        _ ~ w.namesIn file ++ [(w.claim file base).1] := (List.perm_append_singleton _ _).symm
    · rename_i hf
      rw [owedIn_cons_of_ne hf]
      exact h.borne f
  sound f := (h.sound f).mono (le_claim w file base)
  remembers := h.remembers

/-- A definition that is owed is made. -/
theorem modify {change : Definitions → Definitions}
    (h : Coherent plan stated w ((file, name) :: owed)) (hle : w ≤ w.modify file change)
    (hhome : plan.IsHome file)
    (hnames : ((change (w.definitions file)).types.map Definition.name).Perm
      (name :: (w.definitions file).types.map Definition.name))
    (hsound : Sound plan stated w file (w.definitions file) →
      Sound plan stated (w.modify file change) file (change (w.definitions file))) :
    Coherent plan stated (w.modify file change) owed where
  sorted := h.sorted.update
  hosted f hf := by
    rcases Table.mem_keys_update.mp hf with rfl | hf
    · exact hhome
    · exact h.hosted f hf
  asked := h.asked
  nodup := h.nodup
  borne f := by
    rw [definitions_modify, namesIn_modify]
    split
    · rename_i hf
      subst hf
      have hb := h.borne file
      rw [owedIn_cons_self] at hb
      calc _
        _ ~ name :: (w.definitions file).types.map Definition.name ++ owedIn owed file :=
          hnames.append_right _
        _ ~ (w.definitions file).types.map Definition.name ++ name :: owedIn owed file :=
          List.perm_middle.symm
        _ ~ w.namesIn file := hb
    · rename_i hf
      have hb := h.borne f
      rwa [owedIn_cons_of_ne hf] at hb
  sound f := by
    rw [definitions_modify]
    split
    · rename_i hf
      subst hf
      exact hsound (h.sound file)
    · exact (h.sound f).mono hle
  remembers f b n hn := by
    obtain ⟨e, he, hen⟩ := h.remembers f b n hn
    exact ⟨e, (hle.enums f).subset he, hen⟩

theorem addMessage {m : Message} (h : Coherent plan stated w ((file, m.name) :: owed))
    (hfqn : m.fqn = fqnOf file m.name)
    (hfields : ∀ field ∈ m.fields, Typed plan w file field.type)
    (hnumbered : Numbered m.fields) (hquoting : Quoting m.attachments) (hhome : plan.IsHome file)
    (hmade : Made plan stated w file m) : Coherent plan stated (w.addMessage file m) owed := by
  have hle := le_addMessage w file m
  refine h.modify hle hhome ?_ fun hs => ?_
  · simp only [Definitions.types, List.map_append, List.map_cons, List.map_nil, List.append_assoc]
    exact List.perm_middle
  · obtain ⟨hmessages, hothers⟩ := Definitions.forall_mem_types.mp hs.named
    obtain ⟨hquotings, hotherQuotings⟩ := Definitions.forall_mem_types.mp hs.quoting
    have hfields' : ∀ m' ∈ (w.definitions file).messages ++ [m], ∀ field ∈ m'.fields,
        Typed plan w file field.type :=
      List.forall_mem_append.mpr ⟨hs.fields, List.forall_mem_singleton.mpr hfields⟩
    exact {
      services := hs.services
      constants := hs.constants
      named := Definitions.forall_mem_types.mpr
        ⟨List.forall_mem_append.mpr ⟨hmessages, List.forall_mem_singleton.mpr hfqn⟩, hothers⟩
      fields := fun m' hm field hfield => (hfields' m' hm field hfield).mono hle
      targets := fun t ht => (hs.targets t ht).mono hle
      numbered := List.forall_mem_append.mpr
        ⟨hs.numbered, List.forall_mem_singleton.mpr hnumbered⟩
      quoting := Definitions.forall_mem_types.mpr
        ⟨List.forall_mem_append.mpr ⟨hquotings, List.forall_mem_singleton.mpr hquoting⟩,
          hotherQuotings⟩
      made := List.forall_mem_append.mpr ⟨fun m' hm => (hs.made m' hm).mono hle,
        List.forall_mem_singleton.mpr (hmade.mono hle)⟩
      listed := hs.listed }

theorem addEnum {e : Enumeration} (h : Coherent plan stated w ((file, e.name) :: owed))
    (hfqn : e.fqn = fqnOf file e.name) (hquoting : Quoting e.attachments)
    (hhome : plan.IsHome file)
    (hlisted : ∃ s, plan.glossary.Holds stated s ∧ e = enumeration file e.name s) :
    Coherent plan stated (w.addEnum file e) owed := by
  have hle := le_addEnum w file e
  refine h.modify hle hhome ?_ fun hs => ?_
  · simp only [Definitions.types, List.map_append, List.map_cons, List.map_nil, List.append_assoc,
      List.singleton_append]
    exact (List.perm_middle.append_left _).trans List.perm_middle
  · obtain ⟨hmessages, henums, htypedefs⟩ := Definitions.forall_mem_types.mp hs.named
    obtain ⟨hmessages', henums', htypedefs'⟩ := Definitions.forall_mem_types.mp hs.quoting
    exact {
      services := hs.services
      constants := hs.constants
      named := Definitions.forall_mem_types.mpr
        ⟨hmessages, List.forall_mem_append.mpr ⟨henums, List.forall_mem_singleton.mpr hfqn⟩,
          htypedefs⟩
      fields := fun m hm field hfield => (hs.fields m hm field hfield).mono hle
      targets := fun t ht => (hs.targets t ht).mono hle
      numbered := hs.numbered
      quoting := Definitions.forall_mem_types.mpr
        ⟨hmessages', List.forall_mem_append.mpr ⟨henums', List.forall_mem_singleton.mpr hquoting⟩,
          htypedefs'⟩
      made := fun m hm => (hs.made m hm).mono hle
      listed := List.forall_mem_append.mpr ⟨hs.listed, List.forall_mem_singleton.mpr hlisted⟩ }

theorem addTypedef {t : Typedef} (h : Coherent plan stated w ((file, t.name) :: owed))
    (hfqn : t.fqn = fqnOf file t.name) (htarget : Typed plan w file t.target)
    (hquoting : Quoting t.attachments) (hhome : plan.IsHome file) :
    Coherent plan stated (w.addTypedef file t) owed := by
  have hle := le_addTypedef w file t
  refine h.modify hle hhome ?_ fun hs => ?_
  · simp only [Definitions.types, List.map_append, List.map_cons, List.map_nil]
    rw [← List.append_assoc]
    exact List.perm_append_singleton _ _
  · obtain ⟨hmessages, henums, htypedefs⟩ := Definitions.forall_mem_types.mp hs.named
    obtain ⟨hmessages', henums', htypedefs'⟩ := Definitions.forall_mem_types.mp hs.quoting
    have htargets : ∀ t' ∈ (w.definitions file).typedefs ++ [t], Typed plan w file t'.target :=
      List.forall_mem_append.mpr ⟨hs.targets, List.forall_mem_singleton.mpr htarget⟩
    exact {
      services := hs.services
      constants := hs.constants
      named := Definitions.forall_mem_types.mpr
        ⟨hmessages, henums,
          List.forall_mem_append.mpr ⟨htypedefs, List.forall_mem_singleton.mpr hfqn⟩⟩
      fields := fun m hm field hfield => (hs.fields m hm field hfield).mono hle
      targets := fun t' ht => (htargets t' ht).mono hle
      numbered := hs.numbered
      quoting := Definitions.forall_mem_types.mpr
        ⟨hmessages', henums',
          List.forall_mem_append.mpr ⟨htypedefs', List.forall_mem_singleton.mpr hquoting⟩⟩
      made := fun m hm => (hs.made m hm).mono hle
      listed := hs.listed }

/-- An enumeration may be remembered once it is defined. -/
theorem rememberEnum (h : Coherent plan stated w owed) (base : String)
    (he : ∃ e ∈ (w.definitions file).enums, e.name = name) :
    Coherent plan stated (w.rememberEnum file base name) owed :=
  { h with
    sound := fun f => (h.sound f).mono (le_rememberEnum w file base name)
    remembers := fun f b n hn => by
      rw [inlineEnum?_rememberEnum] at hn
      split at hn
      · rename_i hf
        obtain ⟨rfl, rfl⟩ := hf
        obtain rfl := Option.some.inj hn
        exact he
      · exact h.remembers f b n hn }

/-- The struct of an object is made under a name that is owed. -/
theorem addStruct {object : Api.Schema} {m : Message}
    (h : Coherent plan stated w ((file, name) :: owed)) (hhome : plan.IsHome file)
    (hobject : plan.glossary.ObjectOf stated object) (hformed : Formed plan w file name object m) :
    Coherent plan stated (w.addMessage file m) owed := by
  obtain ⟨rfl, hfqn⟩ := hformed.named
  exact h.addMessage hfqn hformed.typed hformed.numbered hformed.quoting hhome
    (.struct hobject hformed)

/-- The enumeration of a schema is made under a name that is owed, and may be remembered. -/
theorem addEnumeration {s : Api.Schema} (h : Coherent plan stated w ((file, name) :: owed))
    (hhome : plan.IsHome file) (hheld : plan.glossary.Holds stated s) (base : String) :
    Coherent plan stated ((w.addEnum file (enumeration file name s)).rememberEnum file base name)
      owed := by
  have hadd := h.addEnum (e := enumeration file name s) rfl (enumeration_quoting _ _ _) hhome
    ⟨s, hheld, rfl⟩
  exact hadd.rememberEnum base ⟨enumeration file name s, by simp [definitions_addEnum], rfl⟩

/-- Nothing is owed twice. -/
theorem nodup_owedIn (h : Coherent plan stated w owed) (file : String) :
    (owedIn owed file).Nodup := by
  have hborne := (h.borne file).nodup_iff.mpr (h.nodup file)
  exact (List.nodup_append'.mp hborne).2.1

theorem nodup_owed (h : Coherent plan stated w owed) : owed.Nodup := nodup_of_owedIn h.nodup_owedIn

/-! ## Steps -/

theorem step (h : Coherent plan stated w owed) (hstep : Step plan stated w w') :
    Coherent plan stated w' owed := by
  cases hstep with
  | enumeration place schema hhost hheld hnew =>
    exact (h.claim hhost.asks).addEnumeration hhost.home hheld place.base
  | struct place object message hhost hobject hformed hnew =>
    have hrenamed := (hformed.rename (w.claim place.file place.base).1).mono
      (le_claim w place.file place.base)
    exact (h.claim hhost.asks).addStruct hhost.home hobject hrenamed

theorem grows (h : Coherent plan stated w owed) (hg : Grows plan stated w w') :
    Coherent plan stated w' owed :=
  hg.keeps (P := fun w => Coherent plan stated w owed) (fun hs hw => hw.step hs) h

/-- The names that definitions are owed for are parents of places. -/
theorem heads_of_owed (h : Coherent plan stated w owed) (howed : (file, name) ∈ owed) :
    plan.Heads file name := by
  have hname : name ∈ w.namesIn file :=
    (h.borne file).subset (List.mem_append_right _ (mem_owedIn.mpr howed))
  obtain ⟨base, n, rfl, hasks, -⟩ := h.asked file name hname
  exact .definition hasks n

/-! ## The names at the end -/

theorem plain (h : Coherent plan stated w owed) (file name : String)
    (hname : name ∈ w.namesIn file) : IsPlain name.toList :=
  (h.asked file name hname).isPlain

theorem mem_namesIn (h : Coherent plan stated w []) {definition : Definition}
    (hd : definition ∈ (w.definitions file).types) : definition.name ∈ w.namesIn file :=
  (h.borne file).subset (by simpa using ⟨definition, hd, rfl⟩)

/-- Every name that is taken is borne by a definition. -/
theorem exists_bearer (h : Coherent plan stated w []) (hname : name ∈ w.namesIn file) :
    ∃ definition ∈ (w.definitions file).types, definition.name = name := by
  simpa using (h.borne file).symm.subset hname

theorem nodup_names (h : Coherent plan stated w []) (file : String) :
    ((w.definitions file).types.map Definition.name).Nodup := by
  have hb := h.borne file
  rw [owedIn_nil, List.append_nil] at hb
  exact hb.nodup_iff.mpr (h.nodup file)

/-- Definitions of one name in one file are the same. -/
theorem type_unique (h : Coherent plan stated w []) {d other : Definition}
    (hd : d ∈ (w.definitions file).types) (hother : other ∈ (w.definitions file).types)
    (hname : other.name = d.name) : other = d :=
  List.inj_on_of_nodup_map (h.nodup_names file) hother hd hname

end Coherent

end Convert

end RestThrift
