import Mathlib
import RestThrift.Proofs.Reading

/-!
# Unique names

No two messages, enumerations, typedefs or functions of a finished schema have one fully-qualified
name: names of one file are taken once each, files have different paths, and a function's name
cannot be read as a definition's.
-/
namespace RestThrift

open Text

open scoped List

/-- The fully-qualified names of messages, enumerations, typedefs and functions. -/
def Definitions.fqns (d : Definitions) : List String :=
  d.types.map Definition.fqn ++ d.services.flatMap fun s => s.functions.map ServiceFunction.fqn

theorem Definitions.Rearranges.types {d' d : Definitions} (h : d'.Rearranges d) :
    d'.types ~ d.types :=
  ((h.messages.map _).append (h.enums.map _)).append (h.typedefs.map _)

namespace Convert

theorem filter_eq_singleton {α β : Type} [DecidableEq β] {f : α → β} {l : List α} {a : α}
    (hn : (l.map f).Nodup) (ha : a ∈ l) : l.filter (fun b => f b = f a) = [a] := by
  induction l with
  | nil => simp at ha
  | cons head rest ih =>
    obtain ⟨hhead, hrest⟩ := List.nodup_cons.mp hn
    rcases List.mem_cons.mp ha with rfl | ha
    · have hnone : rest.filter (fun b => f b = f a) = [] := by
        refine List.filter_eq_nil_iff.mpr fun b hb heq => hhead ?_
        exact List.mem_map.mpr ⟨b, hb, of_decide_eq_true heq⟩
      rw [List.filter_cons_of_pos (by simp), hnone]
    · have hne : f head ≠ f a := fun heq => hhead (List.mem_map.mpr ⟨a, ha, heq.symm⟩)
      rw [List.filter_cons_of_neg (by simpa using hne), ih hrest ha]

namespace Finished

variable {plan : Plan} {stated : Api.Schema → Prop} {service : String} {answers : List Answer}
  {w : Workspace} {schema : Schema} {file : File}

section File

variable (h : Finished plan stated service answers w schema) (hfile : file ∈ schema.files)
include h hfile

theorem types_perm : file.definitions.types ~ (w.definitions file.path).types :=
  (h.files file hfile).types

theorem services_eq : file.definitions.services = servicesIn plan service file.path answers := by
  have hperm := (h.files file hfile).services
  rw [servicesIn, serviceOf] at hperm ⊢
  split
  · rename_i hmain
    rw [if_pos hmain] at hperm
    split
    · rename_i hempty
      rw [if_pos hempty] at hperm
      exact hperm.eq_nil
    · rename_i hempty
      rw [if_neg hempty] at hperm
      exact List.perm_singleton.mp hperm
  · rename_i hmain
    rw [if_neg hmain] at hperm
    exact hperm.eq_nil

/-- The functions of a file are those of the answers, when it is the main file. -/
theorem functions_eq : file.definitions.services.flatMap Service.functions =
    if plan.mainFile = file.path then answers.map Answer.function else [] := by
  rw [h.services_eq hfile, servicesIn, serviceOf]
  split
  · split
    · rename_i hempty
      exact (List.isEmpty_iff.mp hempty).symm
    · simp
  · rfl

theorem fqn_eq {definition : Definition} (hd : definition ∈ file.definitions.types) :
    definition.fqn = fqnOf file.path definition.name ∧ IsPlain definition.name.toList := by
  have hmem := (h.types_perm hfile).mem_iff.mp hd
  exact ⟨(h.coherent.sound file.path).named _ hmem,
    h.coherent.plain _ _ (h.coherent.mem_namesIn hmem)⟩

/-- A message of a file is a struct or a request. -/
theorem made {m : Message} (hm : m ∈ file.definitions.messages) :
    Made plan stated w file.path m :=
  (h.coherent.sound file.path).made m ((h.files file hfile).messages.mem_iff.mp hm)

/-- An enumeration of a file lists the values of a schema that the document holds. -/
theorem listed {e : Enumeration} (he : e ∈ file.definitions.enums) :
    ∃ s, plan.glossary.Holds stated s ∧ e = enumeration file.path e.name s :=
  (h.coherent.sound file.path).listed e ((h.files file hfile).enums.mem_iff.mp he)

theorem nodup_names : (file.definitions.types.map Definition.name).Nodup :=
  ((h.types_perm hfile).map _).nodup_iff.mpr (h.coherent.nodup_names file.path)

theorem mem_functionFqns {fqn : String}
    (hf : fqn ∈ file.definitions.services.flatMap fun s => s.functions.map ServiceFunction.fqn) :
    file.path = plan.mainFile ∧ ∃ a ∈ answers, fqn = a.function.fqn := by
  rw [← List.map_flatMap, h.functions_eq hfile] at hf
  split at hf
  · rename_i hmain
    rw [List.map_map] at hf
    obtain ⟨a, ha, hfqn⟩ := List.mem_map.mp hf
    exact ⟨hmain.symm, a, ha, hfqn.symm⟩
  · simp at hf

end File

/-- A full name of a file is one of its definitions, or of a function in the main file. -/
theorem mem_fqns (h : Finished plan stated service answers w schema) (hfile : file ∈ schema.files)
    {fqn : String} (hf : fqn ∈ file.definitions.fqns) :
    (∃ name : String, IsPlain name.toList ∧ fqn = fqnOf file.path name) ∨
      (file.path = plan.mainFile ∧ ∃ name : String, IsPlain name.toList ∧
        fqn = fqnOf plan.mainFile (service ++ "." ++ name)) := by
  rcases List.mem_append.mp hf with hf | hf
  · obtain ⟨definition, hd, rfl⟩ := List.mem_map.mp hf
    obtain ⟨hfqn, hplain⟩ := h.fqn_eq hfile hd
    exact .inl ⟨_, hplain, hfqn⟩
  · obtain ⟨hmain, a, ha, rfl⟩ := h.mem_functionFqns hfile hf
    exact .inr ⟨hmain, _, (h.holds a ha).plain, (h.holds a ha).functionFqn⟩

theorem nodup_typeFqns (h : Finished plan stated service answers w schema)
    (hfile : file ∈ schema.files) :
    (file.definitions.types.map Definition.fqn).Nodup := by
  refine (List.nodup_map_iff_inj_on (h.nodup_names hfile).of_map).mpr fun d hd d' hd' heq => ?_
  obtain ⟨hfqn, hplain⟩ := h.fqn_eq hfile hd
  obtain ⟨hfqn', hplain'⟩ := h.fqn_eq hfile hd'
  rw [hfqn, hfqn', fqnOf_inj hplain hplain'] at heq
  exact List.inj_on_of_nodup_map (h.nodup_names hfile) hd hd' heq.2

theorem nodup_functionFqns (h : Finished plan stated service answers w schema)
    (hfile : file ∈ schema.files) :
    (file.definitions.services.flatMap fun s => s.functions.map ServiceFunction.fqn).Nodup := by
  rw [← List.map_flatMap, h.functions_eq hfile]
  split
  · rw [List.map_map]
    refine (List.nodup_map_iff_inj_on h.distinct.of_map).mpr fun a ha b hb heq => ?_
    rw [Function.comp_apply, Function.comp_apply, (h.holds a ha).functionFqn,
      (h.holds b hb).functionFqn] at heq
    refine List.inj_on_of_nodup_map h.distinct ha hb ?_
    simpa [fqnOf, String.append_assoc] using heq
  · exact List.nodup_nil

theorem nodup_fqns (h : Finished plan stated service answers w schema) :
    (schema.files.flatMap fun file => file.definitions.fqns).Nodup := by
  refine List.nodup_flatMap.mpr ⟨fun file hfile => ?_, ?_⟩
  · refine (h.nodup_typeFqns hfile).append (h.nodup_functionFqns hfile) fun fqn ht hf => ?_
    obtain ⟨definition, hd, rfl⟩ := List.mem_map.mp ht
    obtain ⟨hfqn, hplain⟩ := h.fqn_eq hfile hd
    obtain ⟨-, a, ha, heq⟩ := h.mem_functionFqns hfile hf
    rw [hfqn, (h.holds a ha).functionFqn] at heq
    exact fqnOf_ne_function hplain (h.holds a ha).plain heq
  · have hpaths := List.pairwise_map.mp h.paths
    refine hpaths.imp_of_mem fun {f g} hf hg hne fqn hfqn hgqn => ?_
    rcases h.mem_fqns hf hfqn with ⟨m, hm, rfl⟩ | ⟨hfmain, m, hm, rfl⟩ <;>
      rcases h.mem_fqns hg hgqn with ⟨n, hn, heq⟩ | ⟨hgmain, n, hn, heq⟩
    · exact hne ((fqnOf_inj hm hn).mp heq).1
    · exact fqnOf_ne_function hm hn heq
    · exact fqnOf_ne_function hn hm heq.symm
    · exact hne (hfmain.trans hgmain.symm)

end Finished

end Convert

/-- Full names are pairwise distinct over all files, names of definitions in each file, and names
of functions in each service. -/
theorem convertDocument_names_distinct {file : String} {bytes : List UInt8} {options : Options}
    {schema : Schema} (h : convertDocument file bytes options = .ok schema) :
    (schema.files.flatMap fun f => f.definitions.fqns).Nodup ∧
      ∀ f ∈ schema.files, (f.definitions.types.map Definition.name).Nodup ∧
        ∀ s ∈ f.definitions.services, (s.functions.map ServiceFunction.name).Nodup := by
  obtain ⟨document, plan, answers, w, -, -, -, -, hfinished⟩ := Convert.convertDocument_finished h
  refine ⟨hfinished.nodup_fqns, fun f hf => ⟨hfinished.nodup_names hf, fun s hs => ?_⟩⟩
  rw [hfinished.services_eq hf, Convert.servicesIn] at hs
  split at hs
  · rw [Convert.serviceOf] at hs
    split at hs
    · simp at hs
    · obtain rfl := List.mem_singleton.mp hs
      rw [List.map_map]
      exact hfinished.distinct
  · simp at hs

theorem petDocument_names_distinct :
    ∃ schema, convertDocument "pets.yaml" petDocument { policy := .strict } = .ok schema ∧
      (schema.files.flatMap fun f => f.definitions.fqns).Nodup ∧
      ∀ f ∈ schema.files, (f.definitions.types.map Definition.name).Nodup ∧
        ∀ s ∈ f.definitions.services, (s.functions.map ServiceFunction.name).Nodup := by
  obtain ⟨schema, h⟩ := petDocument_converts
  exact ⟨schema, h, convertDocument_names_distinct h⟩

end RestThrift
