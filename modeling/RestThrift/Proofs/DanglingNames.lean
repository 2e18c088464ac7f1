import Mathlib
import RestThrift.Proofs.Aliases
import RestThrift.Proofs.KeptNames

/-!
# References to missing schemas

The lenient policy keeps the short name of a key that is missing, without its namespace, and does
not look whether the name is taken. So it is the name of a definition that has nothing to do with
the reference wherever the name is taken in the file in the end, as it is if a key of that file asks
for it, and wherever it is the service's name.
-/
namespace RestThrift

/-- A message, an enumeration, a typedef or a service of the file has the name. -/
def File.Captures (f : File) (name : String) : Prop :=
  (∃ d ∈ f.definitions.types, d.name = name) ∨ ∃ s ∈ f.definitions.services, s.name = name

/-- Names without a definition are no names of definitions or services of their file. -/
def Schema.CapturesNothing (schema : Schema) : Prop :=
  ∀ f ∈ schema.files, ∀ written, f.Uses written none → ¬ f.Captures written

namespace Convert

/-- What a name without a definition is like in a file of the schema that a document was converted
to, where `w` is the workspace at the end. -/
structure DanglingName (document : Api.Document) (options : Options) (plan : Plan) (w : Workspace)
    (f : File) (written : String) : Prop where
  policy : options.policy = .lenient
  kept : Glossary.KeepsName ⟨document.schemas, options.policy⟩ (Api.StatedIn document.paths) written
  bare : '.' ∉ written.toList
  captured : f.Captures written ↔ written ∈ w.namesIn f.path ∨
    (f.path = plan.mainFile ∧ calls document.paths ≠ [] ∧ written = options.serviceName)
  key : ∀ key ∈ document.schemas.keys, plan.fileOf key = f.path → wantedName key = written →
    written ∈ w.namesIn f.path
  asked : written ∈ w.namesIn f.path → ∃ base n, plan.Asks f.path base ∧ written = numbered base n

variable {plan : Plan} {stated : Api.Schema → Prop} {service written : String} {w : Workspace}
  {answers : List Answer} {schema : Schema} {f : File} {g : Glossary}

/-- A name that is kept has no namespace before it. -/
theorem Glossary.KeepsName.dot_not_mem (h : g.KeepsName stated written) :
    '.' ∉ written.toList := by
  obtain ⟨s, reference, -, -, -, hwritten⟩ := h
  have hplain : Text.IsPlain (wantedName (definitionKey reference)).toList :=
    Naming.isPlain_identifier _
  rw [hwritten]
  exact fun hdot => (hplain '.' hdot).2 rfl

namespace Finished

variable (h : Finished plan stated service answers w schema) (hf : f ∈ schema.files)
include h hf

/-- Only the lenient policy leaves a name without a definition. -/
theorem lenient_of_uses (huses : f.Uses written none) : plan.glossary.policy = .lenient := by
  obtain ⟨d, hd, t, ht, hn⟩ := huses
  rcases (h.typed hf (h.mem_mentioned hf hd ht)).named_cases hn with ⟨hpolicy, -⟩ |
    ⟨_, _, -, -, htype⟩ | ⟨_, -, -, htype⟩
  · exact hpolicy
  · cases htype
  · cases htype

/-- The names of a file's messages, enumerations and typedefs are those that are taken. -/
theorem exists_type_iff : (∃ d ∈ f.definitions.types, d.name = written) ↔
    written ∈ w.namesIn f.path := by
  constructor
  · rintro ⟨d, hd, rfl⟩
    exact h.coherent.mem_namesIn ((h.types_perm hf).mem_iff.mp hd)
  · intro htaken
    obtain ⟨d, hd, hname⟩ := h.coherent.exists_bearer htaken
    exact ⟨d, (h.types_perm hf).mem_iff.mpr hd, hname⟩

/-- The main file has a service if there are functions. -/
theorem exists_service_iff : (∃ s ∈ f.definitions.services, s.name = written) ↔
    f.path = plan.mainFile ∧ answers ≠ [] ∧ written = service := by
  rw [h.services_eq hf, servicesIn, serviceOf]
  by_cases hmain : plan.mainFile = f.path
  · cases answers with
    | nil => simp
    | cons a rest => simp [hmain, eq_comm]
  · simp [hmain, Ne.symm hmain]

end Finished

end Convert

/-- A name without a definition is kept, bare, of a reference that the document makes to a missing
schema. It is captured in its file exactly if it is taken there or the service has it; it is taken if
a key of that file asks for it, and only if it is asked for there at all. -/
theorem convertDocument_dangling_names {file : String} {bytes : List UInt8} {options : Options}
    {schema : Schema} (h : convertDocument file bytes options = .ok schema) :
    ∃ document plan w₀ w, readDocument file bytes = .ok document ∧
      Convert.Course file options document plan w₀ w schema ∧
      ∀ f ∈ schema.files, ∀ written, f.Uses written none →
        Convert.DanglingName document options plan w f written := by
  obtain ⟨document, plan, w₀, w, hread, hn, hglossary, hcourse, -⟩ :=
    Convert.convertDocument_course h
  obtain ⟨answers, hcalls, w', -, hnames, hfinished⟩ := hcourse.finished hn
  refine ⟨document, plan, w₀, w, hread, hcourse, fun f hf written huses => ?_⟩
  have hpolicy := hfinished.lenient_of_uses hf huses
  have hkept : plan.glossary.KeepsName (Api.StatedIn document.paths) written := by
    obtain ⟨d, hd, t, ht, hname⟩ := huses
    exact hcourse.traced hglossary hf t (hfinished.mem_mentioned hf hd ht) written hname
  have hservice : (∃ s ∈ f.definitions.services, s.name = written) ↔ f.path = plan.mainFile ∧
      answers ≠ [] ∧ written = options.serviceName := hfinished.exists_service_iff hf
  rw [ne_eq, ← List.map_eq_nil_iff, hcalls] at hservice
  rw [hglossary] at hpolicy hkept
  exact {
    policy := hpolicy
    kept := hkept
    bare := hkept.dot_not_mem
    captured := by
      -- The requests that come last have taken their names before.
      rw [← hnames]
      exact or_congr (hfinished.exists_type_iff hf) hservice
    key := by
      rintro key hkey hpath rfl
      rw [← hnames, ← hpath]
      exact hfinished.wanted key (by rwa [hglossary])
    asked := by
      rw [← hnames]
      intro htaken
      obtain ⟨base, n, hname, hasks, -⟩ := hfinished.coherent.asked f.path written htaken
      exact ⟨base, n, hasks, hname⟩ }

/-- A key with a namespace is missing, and a key without it asks for the same name. -/
def holderDocument : List UInt8 :=
  ("swagger: \"2.0\"\npaths: {}\ndefinitions:\n" ++
    "  Holder:\n    properties:\n      thing:\n        $ref: \"#/definitions/ext.Pet\"\n" ++
    "  Pet:\n    properties:\n      name:\n        type: string\n").toUTF8.data.toList

/-- The field has the name of the struct that it does not refer to. -/
theorem holderDocument_converts :
    ∃ schema, convertDocument "pets.yaml" holderDocument {} = .ok schema ∧
      decide (∃ f ∈ schema.files, (∃ m ∈ f.definitions.messages, m.name = "Pet") ∧
        ∃ m ∈ f.definitions.messages, ∃ field ∈ m.fields,
          field.type = .named "Pet" none) = true := by
  refine exists_of_toOption ?_
  decide +kernel

theorem holderDocument_uses :
    ∃ schema, convertDocument "pets.yaml" holderDocument {} = .ok schema ∧
      ∃ f ∈ schema.files, f.Uses "Pet" none ∧ f.Captures "Pet" := by
  obtain ⟨schema, h, hview⟩ := holderDocument_converts
  obtain ⟨f, hf, ⟨pet, hpet, hname⟩, holder, hholder, field, hfield, htype⟩ :=
    of_decide_eq_true hview
  refine ⟨schema, h, f, hf, ⟨.message holder, ?_, field.type, List.mem_map_of_mem hfield, ?_⟩,
    .inl ⟨.message pet, Definitions.message_mem_types hpet, hname⟩⟩
  · simp [Definitions.entries, hholder]
  · rw [htype]
    exact List.mem_singleton_self _

theorem holderDocument_dangling_names :
    ∃ schema, convertDocument "pets.yaml" holderDocument {} = .ok schema ∧
      ∃ document plan w₀ w, readDocument "pets.yaml" holderDocument = .ok document ∧
        Convert.Course "pets.yaml" {} document plan w₀ w schema ∧
        ∃ f ∈ schema.files, f.Uses "Pet" none ∧
          Convert.DanglingName document {} plan w f "Pet" := by
  obtain ⟨schema, h, f, hf, huses, -⟩ := holderDocument_uses
  obtain ⟨document, plan, w₀, w, hread, hcourse, hall⟩ := convertDocument_dangling_names h
  exact ⟨schema, h, document, plan, w₀, w, hread, hcourse, f, hf, huses, hall f hf "Pet" huses⟩

theorem holderDocument_captures :
    ∃ schema, convertDocument "pets.yaml" holderDocument {} = .ok schema ∧
      ¬ schema.CapturesNothing := by
  obtain ⟨schema, h, f, hf, huses, hcaptures⟩ := holderDocument_uses
  exact ⟨schema, h, fun hnothing => hnothing f hf "Pet" huses hcaptures⟩

end RestThrift
