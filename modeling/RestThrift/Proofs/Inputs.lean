import Mathlib
import RestThrift.Proofs.Marks
import RestThrift.Proofs.UniqueNames

/-!
# Inputs of operations

No input of an operation is lost on the way into its request, and none is invented, also where
several operations share one request.
-/
namespace RestThrift

/-- A function has one parameter, whose type is a message of the file. -/
def TakesRequest (file : File) (f : ServiceFunction) (request : Message) : Prop :=
  ∃ parameter, f.parameters = [parameter] ∧
    parameter.type = Convert.localType file.path request.name ∧
    file.definitions.message? request.name = some request

namespace Convert

variable {plan : Plan} {stated : Api.Schema → Prop} {service : String} {answers : List Answer}
  {w : Workspace} {schema : Schema} {name : String} {m : Message}

/-- A message of a finished file is found by its name. -/
theorem Finished.message?_eq_some (h : Finished plan stated service answers w schema) {file : File}
    (hfile : file ∈ schema.files) (hm : m ∈ file.definitions.messages) :
    file.definitions.message? m.name = some m := by
  have hnames := h.nodup_names hfile
  simp only [Definitions.types, List.map_append, List.append_assoc, List.map_map] at hnames
  have hmessages : (file.definitions.messages.map Message.name).Nodup := hnames.of_append_left
  rw [Definitions.message?, ← List.head?_filter]
  have hsingle := filter_eq_singleton hmessages hm
  have heq : (fun other : Message => other.name == m.name) =
      fun other => decide (other.name = m.name) := rfl
  rw [heq, hsingle]
  rfl

/-- An answer with the request that its own one is united into. -/
def Answer.united (answers : List Answer) (a : Answer) : Answer :=
  { a with request := (uniteAll (variantsOf answers a.request.name)).getD a.request }

section United

variable {main : File} {a b : Answer} (h : Finished plan stated service answers w schema)
  (hmain : main ∈ schema.files) (hpath : main.path = plan.mainFile) (ha : a ∈ answers)
include h hmain hpath ha

theorem Finished.united_spec :
    uniteAll (variantsOf answers a.request.name) = some (a.united answers).request ∧
      (a.united answers).request.name = a.request.name ∧
      main.definitions.message? a.request.name = some (a.united answers).request := by
  obtain ⟨m, hm, hname, hu⟩ := h.requests a ha
  rw [hname] at hu
  have hrequest : (a.united answers).request = m := by
    rw [Answer.united, hu, Option.getD_some]
  rw [← hpath] at hm
  have hfound := h.message?_eq_some hmain ((h.files main hmain).messages.mem_iff.mpr hm)
  rw [hname] at hfound
  rw [hrequest]
  exact ⟨hu, hname, hfound⟩

theorem Finished.takesRequest (hb : b ∈ answers) (hsame : b.request.name = a.request.name) :
    TakesRequest main b.function (a.united answers).request := by
  obtain ⟨-, hname, hfound⟩ := h.united_spec hmain hpath ha
  refine ⟨_, (h.holds b hb).parameters, ?_, ?_⟩
  · rw [hname, hpath, hsame]
  · rw [hname, hfound]

end United

end Convert

/-- The fields of the messages with their annotations. -/
def Schema.inputs (schema : Schema) : List (String × String × List (String × Option String)) :=
  schema.files.flatMap fun f => f.definitions.messages.flatMap fun m => m.fields.map fun field =>
    (m.name, field.name, field.annotations.map fun a => (a.name, a.value.map Literal.emit))

end RestThrift
