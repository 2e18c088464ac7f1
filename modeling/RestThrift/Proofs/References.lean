import Mathlib
import RestThrift.Proofs.UniqueNames

/-!
# References of a finished schema

A named type of a schema stands for a name that is taken, and a name that is taken is borne by one
definition in the end. Only the lenient policy leaves a name without a definition.
-/
namespace RestThrift

open scoped List

/-- Messages, enumerations and typedefs of a schema, with the files that they are in. -/
def Schema.types (s : Schema) : List (File × Definition) :=
  s.files.flatMap fun f => f.definitions.types.map fun d => (f, d)

/-- How a name is written in a file: bare for a definition there, qualified for any other. -/
def WrittenIn (file target name written : String) : Prop :=
  (target = file → written = name) ∧ (target ≠ file → ∃ stem, written = stem ++ "." ++ name)

namespace Convert

variable {plan : Plan} {stated : Api.Schema → Prop} {service : String} {answers : List Answer}
  {w : Workspace} {schema : Schema} {file written : String} {t : TypeRef} {fqn : Option String}

theorem writtenIn_self {name : String} : WrittenIn file file name name :=
  ⟨fun _ => rfl, fun hne => absurd rfl hne⟩

theorem writtenIn_typeFor {plan : Plan} {key written : String} {fqn : Option String}
    (h : plan.typeFor key file = .named written fqn) :
    fqn = some (fqnOf (plan.fileOf key) (plan.nameOf key)) ∧
      WrittenIn file (plan.fileOf key) (plan.nameOf key) written := by
  obtain ⟨hwritten, hfqn⟩ := TypeRef.named.inj h
  rw [← hwritten]
  exact ⟨hfqn.symm, fun hfile => if_pos hfile, fun hfile => ⟨_, if_neg hfile⟩⟩

/-- A named type is written, as seen from a file, for a name that is taken. -/
def PointsAtTaken (w : Workspace) (file written : String) (fqn : Option String) : Prop :=
  ∃ target name, fqn = some (fqnOf target name) ∧ name ∈ w.namesIn target ∧
    WrittenIn file target name written

theorem Coherent.pointsAtTaken (h : Coherent plan stated w []) {definition : Definition}
    (hd : definition ∈ (w.definitions file).types)
    (htype : localType file definition.name = .named written fqn) :
    PointsAtTaken w file written fqn := by
  obtain ⟨rfl, rfl⟩ := TypeRef.named.inj htype
  exact ⟨file, definition.name, rfl, h.mem_namesIn hd, writtenIn_self⟩

/-- A name in a type that synthesis makes is kept of a missing schema, or it stands for a named
schema, which is no alias unless it comes back to itself, or for a struct or an enumeration of the
file itself. -/
theorem Typed.named_cases (h : Typed plan w file t) (hn : .named written fqn ∈ t.walk) :
    (plan.glossary.policy = .lenient ∧ fqn = none) ∨
      (∃ key named, plan.glossary.schemas.get? key = some named ∧
        (named.isAlias = true → plan.glossary.Recurs key) ∧
        plan.typeFor key file = .named written fqn) ∨
      ∃ definition ∈ (w.definitions file).types, definition.typedef? = none ∧
        localType file definition.name = .named written fqn := by
  induction h with
  | primitive _ => simp [TypeRef.walk] at hn
  | list _ ih =>
    rcases List.mem_cons.mp hn with hn | hn
    · cases hn
    · exact ih hn
  | map _ ih =>
    rcases List.mem_cons.mp hn with hn | hn
    · cases hn
    · rcases List.mem_append.mp hn with hn | hn
      · simp [TypeRef.string, TypeRef.walk] at hn
      · exact ih hn
  | dangling hpolicy _ =>
    obtain ⟨-, rfl⟩ := TypeRef.named.inj (List.mem_singleton.mp hn)
    exact .inl ⟨hpolicy, rfl⟩
  | reference hnamed hrecurs =>
    exact .inr (.inl ⟨_, _, hnamed, hrecurs, (List.mem_singleton.mp hn).symm⟩)
  | enumeration he =>
    exact .inr (.inr ⟨_, Definitions.enumeration_mem_types he, rfl,
      (List.mem_singleton.mp hn).symm⟩)
  | message hm =>
    exact .inr (.inr ⟨_, Definitions.message_mem_types hm, rfl, (List.mem_singleton.mp hn).symm⟩)

/-- The names in a type that synthesis makes are taken, or kept of a missing schema. -/
theorem Typed.named (h : Typed plan w file t) (hcoherent : Coherent plan stated w [])
    (hreserved : plan.Reserved w) (hn : .named written fqn ∈ t.walk) :
    (plan.glossary.policy = .lenient ∧ fqn = none) ∨ PointsAtTaken w file written fqn := by
  rcases h.named_cases hn with hmissing | ⟨key, _, hnamed, -, htype⟩ | ⟨definition, hd, -, htype⟩
  · exact .inl hmissing
  · obtain ⟨hfqn, hwritten⟩ := writtenIn_typeFor htype
    exact .inr ⟨_, _, hfqn, hreserved key (Table.mem_keys_of_get? hnamed), hwritten⟩
  · exact .inr (hcoherent.pointsAtTaken hd htype)

namespace Finished

theorem nodup_types (h : Finished plan stated service answers w schema) :
    (schema.types.map fun entry => entry.2.fqn).Nodup := by
  have heq : (schema.types.map fun entry => entry.2.fqn) =
      schema.files.flatMap fun f => f.definitions.types.map Definition.fqn := by
    simp [Schema.types, List.map_flatMap, Function.comp_def]
  obtain ⟨heach, hacross⟩ := List.nodup_flatMap.mp h.nodup_fqns
  rw [heq]
  refine List.nodup_flatMap.mpr ⟨fun f hf => h.nodup_typeFqns hf, hacross.imp fun hfg => ?_⟩
  exact List.disjoint_of_subset_left (List.subset_append_left _ _)
    (List.disjoint_of_subset_right (List.subset_append_left _ _) hfg)

/-- A name that is taken is borne by a definition of its file. -/
theorem exists_bearer (h : Finished plan stated service answers w schema) {target name : String}
    (hname : name ∈ w.namesIn target) : ∃ g ∈ schema.files, ∃ d ∈ g.definitions.types,
      g.path = target ∧ d.name = name ∧ d.fqn = fqnOf target name := by
  obtain ⟨d, hd, rfl⟩ := h.coherent.exists_bearer hname
  obtain ⟨g, hg, rfl⟩ := List.mem_map.mp (h.present target (List.ne_nil_of_mem hd))
  have hmem : d ∈ g.definitions.types := (h.types_perm hg).mem_iff.mpr hd
  exact ⟨g, hg, d, hmem, rfl, rfl, (h.fqn_eq hg hmem).1⟩

/-- A name that is taken is borne by exactly one definition of the schema. -/
theorem exists_unique_bearer (h : Finished plan stated service answers w schema)
    {target name : String} (hname : name ∈ w.namesIn target) :
    ∃ f d, schema.types.filter (fun entry => entry.2.fqn = fqnOf target name) = [(f, d)] ∧
      f.path = target ∧ d.name = name := by
  obtain ⟨f, hf, d, hd, rfl, rfl, hfqn⟩ := h.exists_bearer hname
  have hentry : (f, d) ∈ schema.types := List.mem_flatMap.mpr ⟨f, hf, List.mem_map.mpr ⟨d, hd, rfl⟩⟩
  refine ⟨f, d, ?_, rfl, rfl⟩
  rw [← hfqn]
  exact filter_eq_singleton (f := fun entry => entry.2.fqn) h.nodup_types hentry

theorem constants_eq_nil (h : Finished plan stated service answers w schema) {f : File}
    (hf : f ∈ schema.files) : f.definitions.constants = [] := by
  have hperm := (h.files f hf).constants
  rw [(h.coherent.sound f.path).constants] at hperm
  exact hperm.eq_nil

/-- The types that a finished file mentions are types that synthesis makes. -/
theorem typed (h : Finished plan stated service answers w schema) {f : File} (hf : f ∈ schema.files)
    (ht : t ∈ mentioned f.definitions) : Typed plan w f.path t := by
  have hsound := h.coherent.sound f.path
  have hfiles := h.files f hf
  simp only [mentioned, List.mem_append] at ht
  rcases ht with (ht | ht) | ht
  · rw [← List.flatMap_assoc, h.functions_eq hf] at ht
    split at ht
    · rename_i hmain
      rw [← hmain]
      obtain ⟨function, hfunction, ht⟩ := List.mem_flatMap.mp ht
      obtain ⟨a, ha, rfl⟩ := List.mem_map.mp hfunction
      have hholds := h.holds a ha
      obtain ⟨m, hm, hname, -⟩ := h.requests a ha
      rw [hholds.parameters] at ht
      rcases List.mem_cons.mp ht with rfl | ht
      · exact hholds.returns
      · obtain ⟨field, hfield, rfl⟩ := List.mem_map.mp ht
        rcases List.mem_append.mp hfield with hfield | hfield
        · obtain rfl := List.mem_singleton.mp hfield
          rw [← hname]
          exact .message hm
        · obtain ⟨entry, -, hthrown⟩ := exists_left_of_forall₂ hholds.throws hfield
          exact hthrown.typed
    · simp at ht
  · obtain ⟨m, hm, ht⟩ := List.mem_flatMap.mp ht
    obtain ⟨field, hfield, rfl⟩ := List.mem_map.mp ht
    exact hsound.fields m (hfiles.messages.mem_iff.mp hm) field hfield
  · obtain ⟨definition, hd, rfl⟩ := List.mem_map.mp ht
    exact hsound.targets definition (hfiles.typedefs.mem_iff.mp hd)

end Finished

end Convert

/-- A named type anywhere in a schema that knows its definition stands for exactly one message,
enumeration or typedef, is found under its file and name, and is written as seen from there. Under
the strict policy every named type knows its definition. -/
theorem convertDocument_references_resolve {file : String} {bytes : List UInt8} {options : Options}
    {schema : Schema} (h : convertDocument file bytes options = .ok schema) :
    ∀ f ∈ schema.files, ∀ t ∈ Convert.mentioned f.definitions, ∀ written fqn,
      .named written fqn ∈ t.walk →
        (options.policy = .strict → fqn ≠ none) ∧
        ∀ target, fqn = some target → ∃ g definition,
          schema.types.filter (fun entry => entry.2.fqn = target) = [(g, definition)] ∧
          target = fqnOf g.path definition.name ∧
          WrittenIn f.path g.path definition.name written := by
  obtain ⟨document, plan, answers, w, -, -, hglossary, -, hfinished⟩ :=
    Convert.convertDocument_finished h
  intro f hf t ht written fqn hn
  have htyped := hfinished.typed hf ht
  rcases htyped.named hfinished.coherent hfinished.reserved hn with
    ⟨hpolicy, rfl⟩ | ⟨target, name, rfl, hname, hwritten⟩
  · rw [hglossary] at hpolicy
    refine ⟨fun hstrict => ?_, fun target heq => absurd heq (by simp)⟩
    rw [hstrict] at hpolicy
    cases hpolicy
  · obtain ⟨g, definition, hfilter, rfl, rfl⟩ := hfinished.exists_unique_bearer hname
    refine ⟨fun _ => by simp, fun target heq => ?_⟩
    obtain rfl := Option.some.inj heq
    exact ⟨g, definition, hfilter, rfl, hwritten⟩

theorem petDocument_references_resolve :
    ∃ schema, convertDocument "pets.yaml" petDocument { policy := .strict } = .ok schema ∧
      ∀ f ∈ schema.files, ∀ t ∈ Convert.mentioned f.definitions, ∀ written fqn,
        .named written fqn ∈ t.walk → fqn ≠ none ∧ ∀ target, fqn = some target →
          ∃ g definition,
            schema.types.filter (fun entry => entry.2.fqn = target) = [(g, definition)] ∧
            target = fqnOf g.path definition.name ∧
            WrittenIn f.path g.path definition.name written := by
  obtain ⟨schema, h⟩ := petDocument_converts
  refine ⟨schema, h, fun f hf t ht written fqn hn => ?_⟩
  obtain ⟨hstrict, hresolved⟩ := convertDocument_references_resolve h f hf t ht written fqn hn
  exact ⟨hstrict rfl, hresolved⟩

end RestThrift
