import Mathlib
import RestThrift.Proofs.Inputs

/-!
# Numbers of fields

Fields count from one in every message, parameter list and throws list of a finished schema. The
fields of a request stand in the order of their names, also where requests were united.
-/
namespace RestThrift

namespace Convert

variable {plan : Plan} {stated : Api.Schema → Prop} {service : String} {answers : List Answer}
  {w : Workspace} {schema : Schema} {file : File} {request : Message}

namespace Finished

theorem numbered_message (h : Finished plan stated service answers w schema)
    (hfile : file ∈ schema.files) {m : Message} (hm : m ∈ file.definitions.messages) :
    Numbered m.fields := by
  have hmem := (h.files file hfile).messages.mem_iff.mp hm
  exact (h.coherent.sound file.path).numbered m hmem

/-- The functions of a service are those of answers, in the main file. -/
theorem exists_answer (h : Finished plan stated service answers w schema)
    (hfile : file ∈ schema.files) {s : Service} (hs : s ∈ file.definitions.services)
    {f : ServiceFunction} (hf : f ∈ s.functions) :
    file.path = plan.mainFile ∧ ∃ a ∈ answers, a.function = f := by
  have hmem : f ∈ file.definitions.services.flatMap Service.functions :=
    List.mem_flatMap.mpr ⟨s, hs, hf⟩
  rw [h.functions_eq hfile] at hmem
  split at hmem
  · rename_i hmain
    exact ⟨hmain.symm, List.mem_map.mp hmem⟩
  · exact absurd hmem List.not_mem_nil

/-- What the function of an answer takes is the request that the answer's own one is united into. -/
theorem takesRequest_iff (h : Finished plan stated service answers w schema)
    (hfile : file ∈ schema.files) (hmain : file.path = plan.mainFile) {a : Answer}
    (ha : a ∈ answers) :
    TakesRequest file a.function request ↔ request = (a.united answers).request := by
  constructor
  · rintro ⟨parameter, hparameters, htype, hfound⟩
    obtain rfl := List.singleton_inj.mp ((h.holds a ha).parameters.symm.trans hparameters)
    obtain ⟨hname, -⟩ := TypeRef.named.inj htype
    obtain ⟨-, -, hunited⟩ := h.united_spec hfile hmain ha
    rw [hname] at hunited
    exact Option.some.inj (hfound.symm.trans hunited)
  · rintro rfl
    exact h.takesRequest hfile hmain ha ha rfl

end Finished

end Convert

/-- The numbers of fields count from one in each message, parameter list and throws list, and each
function takes one request, whose fields ascend by their names. -/
theorem convertDocument_fields_numbered {file : String} {bytes : List UInt8} {options : Options}
    {schema : Schema} (h : convertDocument file bytes options = .ok schema) :
    ∀ f ∈ schema.files, (∀ m ∈ f.definitions.messages, Numbered m.fields) ∧
      ∀ s ∈ f.definitions.services, ∀ fn ∈ s.functions,
        Numbered fn.parameters ∧ Numbered fn.throws ∧
          (∃ request, TakesRequest f fn request) ∧
          ∀ request, TakesRequest f fn request → Ascending request.fields := by
  obtain ⟨document, plan, answers, w, -, -, -, -, hfinished⟩ := Convert.convertDocument_finished h
  refine fun f hf => ⟨fun m hm => hfinished.numbered_message hf hm, fun s hs fn hfn => ?_⟩
  obtain ⟨hmain, a, ha, rfl⟩ := hfinished.exists_answer hf hs hfn
  have htakes : ∀ request, TakesRequest f a.function request ↔ _ :=
    fun _ => hfinished.takesRequest_iff hf hmain ha
  refine ⟨?_, (hfinished.holds a ha).thrownNumbers, ⟨_, (htakes _).mpr rfl⟩, ?_⟩
  · rw [(hfinished.holds a ha).parameters]
    rfl
  · intro request hrequest
    obtain rfl := (htakes request).mp hrequest
    obtain ⟨hu, -, -⟩ := hfinished.united_spec hf hmain ha
    obtain ⟨-, hascending, -⟩ := Convert.Outlined.united_ordered hfinished.holds hu
    exact hascending

theorem petDocument_fields_numbered :
    ∃ schema, convertDocument "pets.yaml" petDocument { policy := .strict } = .ok schema ∧
      ∀ f ∈ schema.files, (∀ m ∈ f.definitions.messages, Numbered m.fields) ∧
        ∀ s ∈ f.definitions.services, ∀ fn ∈ s.functions,
          Numbered fn.parameters ∧ Numbered fn.throws ∧
            (∃ request, TakesRequest f fn request) ∧
            ∀ request, TakesRequest f fn request → Ascending request.fields := by
  obtain ⟨schema, h⟩ := petDocument_converts
  exact ⟨schema, h, convertDocument_fields_numbered h⟩

end RestThrift
