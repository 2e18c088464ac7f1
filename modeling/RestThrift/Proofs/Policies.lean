import Mathlib
import RestThrift.Proofs.Comparison
import RestThrift.Proofs.Reading

/-!
# The two reference policies

A conversion under the strict policy and one under the lenient policy take the same steps until a
reference has no target.
-/
namespace RestThrift

namespace Convert

/-- What the strict and the lenient policy give: the same, unless the strict one misses a schema. -/
inductive Tolerates (schemas : Table Api.Schema) {α : Type} :
    Except ConversionError α → Except ConversionError α → Prop
  | ok (a : α) : Tolerates schemas (.ok a) (.ok a)
  | error (cause : ConversionError) (h : ∀ reference, cause ≠ .danglingReference reference) :
      Tolerates schemas (.error cause) (.error cause)
  | missing (reference : String) (h : schemas.get? (definitionKey reference) = none)
      (lenient : Except ConversionError α) :
      Tolerates schemas (.error (.danglingReference reference)) lenient

/-- The strict policy is compared with the lenient one: a failure that is not about a reference is
shared, and a missing target excuses. -/
def tolerance (schemas : Table Api.Schema) : Comparison where
  Matches cause other := cause = other ∧ ∀ reference, cause ≠ .danglingReference reference
  Excuses cause := ∃ reference, cause = .danglingReference reference ∧
    schemas.get? (definitionKey reference) = none
  endless := ⟨rfl, fun _ h => by cases h⟩

section Tolerance

variable {schemas : Table Api.Schema} {α : Type}

theorem tolerates_of_follows {x y : Except ConversionError α}
    (h : (tolerance schemas).Follows id x y) : Tolerates schemas x y := by
  cases h with
  | ok a => exact .ok a
  | error h =>
    obtain ⟨rfl, hcause⟩ := h
    exact .error _ hcause
  | excused h y =>
    obtain ⟨reference, rfl, hmissing⟩ := h
    exact .missing reference hmissing y

/-- A result that does not depend on the policy and is not about a reference. -/
theorem tolerance_refl {x : Except ConversionError α}
    (h : ∀ reference, x ≠ .error (.danglingReference reference)) :
    (tolerance schemas).Follows id x x := by
  cases x with
  | ok a => exact .ok a
  | error cause => exact .error ⟨rfl, fun reference heq => h reference (by rw [heq])⟩

/-- A missing target is the only thing that the policies treat differently. -/
theorem target_tolerant (reference : String) : (tolerance schemas).Follows id
    (Glossary.target ⟨schemas, .strict⟩ reference)
    (Glossary.target ⟨schemas, .lenient⟩ reference) := by
  cases hfound : schemas.get? (definitionKey reference) with
  | some schema =>
    have htarget : ∀ policy, Glossary.target ⟨schemas, policy⟩ reference = .ok (some schema) :=
      fun policy => target_eq_ok hfound
    rw [htarget, htarget]
    exact .ok (some schema)
  | none =>
    have hstrict : Glossary.target ⟨schemas, .strict⟩ reference =
        .error (.danglingReference reference) := by
      simp only [Glossary.target, Glossary.resolve?, hfound]
    have hexcused : (tolerance schemas).Excuses (.danglingReference reference) :=
      ⟨reference, rfl, hfound⟩
    rw [hstrict]
    exact .excused hexcused _

theorem defaultLiteral_ne_dangling (property : String) (value : Yaml.Value) (reference : String) :
    defaultLiteral property value ≠ .error (.danglingReference reference) := by
  intro heq
  rw [defaultLiteral] at heq
  split at heq
  · cases heq
  · split at heq <;> cases heq

end Tolerance

theorem convert_tolerant (file : String) (document : Api.Document) (options : Options) :
    Tolerates document.schemas (convert file document { options with policy := .strict })
      (convert file document { options with policy := .lenient }) := by
  have hid : Api.Schema.edit {} = id := funext Api.Schema.edit_empty
  have htarget : ∀ reference, (tolerance document.schemas).Follows
      (Option.map (Api.Schema.edit {}))
      (Glossary.target ⟨document.schemas, .strict⟩ reference)
      (Glossary.target ⟨(document.edit {}).schemas, .lenient⟩ reference) := by
    rw [Api.Document.edit_empty, hid, Option.map_id]
    exact target_tolerant
  have hkeys : KeepsKeys {} := fun _ => rfl
  have halike := convert_alike file document options hkeys htarget
    (fun property value => tolerance_refl (defaultLiteral_ne_dangling property value))
    fun _ _ => rfl
  rw [Api.Document.edit_empty, Api.Edit.comments_of_keeps rfl, funext recomment_id] at halike
  exact tolerates_of_follows halike

theorem readDocument_ne_dangling (file : String) (bytes : List UInt8) (reference : String) :
    readDocument file bytes ≠ .error (.danglingReference reference) := by
  intro heq
  rw [readDocument] at heq
  split at heq
  · cases heq
  · split at heq
    · cases heq
    · split at heq <;> cases heq
  · cases heq

end Convert

/-- A document that the strict policy converts is converted alike by the lenient one. A failure
under the strict policy is one under the lenient policy too, unless a reference is missing; its key
is then indeed none of the document's. -/
theorem convertDocument_policies_agree (file : String) (bytes : List UInt8) (options : Options) :
    (∀ schema, convertDocument file bytes { options with policy := .strict } = .ok schema →
      convertDocument file bytes { options with policy := .lenient } = .ok schema) ∧
    (∀ cause, convertDocument file bytes { options with policy := .strict } = .error cause →
      (∀ reference, cause ≠ .danglingReference reference) →
      convertDocument file bytes { options with policy := .lenient } = .error cause) ∧
    ∀ reference, convertDocument file bytes { options with policy := .strict } =
        .error (.danglingReference reference) →
      ∃ document, readDocument file bytes = .ok document ∧
        Convert.definitionKey reference ∉ document.schemas.keys := by
  cases hread : readDocument file bytes with
  | error cause =>
    have hresult : ∀ policy, convertDocument file bytes { options with policy } = .error cause :=
      fun policy => by rw [convertDocument, hread]; rfl
    have hcause : ∀ reference, cause ≠ .danglingReference reference := fun reference heq =>
      Convert.readDocument_ne_dangling file bytes reference (hread.trans (congrArg _ heq))
    simp only [hresult]
    refine ⟨?_, fun _ h _ => h, ?_⟩
    · intro schema h
      cases h
    · intro reference h
      exact absurd (Except.error.inj h) (hcause reference)
  | ok document =>
    have hresult : ∀ policy, convertDocument file bytes { options with policy } =
        convert file document { options with policy } :=
      fun _ => convertDocument_of_read hread _
    have htolerates : Convert.Tolerates document.schemas
        (convert file document { options with policy := .strict })
        (convert file document { options with policy := .lenient }) :=
      Convert.convert_tolerant file document options
    simp only [hresult]
    generalize convert file document { options with policy := .strict } = strict at htolerates ⊢
    generalize convert file document { options with policy := .lenient } = lenient at htolerates ⊢
    cases htolerates with
    | ok schema =>
      refine ⟨fun _ h => h, ?_, ?_⟩
      · intro cause h
        cases h
      · intro reference h
        cases h
    | error cause hcause =>
      refine ⟨?_, fun _ h _ => h, ?_⟩
      · intro schema h
        cases h
      · intro reference h
        exact absurd (Except.error.inj h) (hcause reference)
    | missing reference hmissing lenient =>
      refine ⟨?_, ?_, ?_⟩
      · intro schema h
        cases h
      · intro cause h hother
        exact absurd (Except.error.inj h).symm (hother reference)
      · intro other h
        obtain rfl := ConversionError.danglingReference.inj (Except.error.inj h)
        exact ⟨document, rfl, Table.get?_eq_none_iff.mp hmissing⟩

/-- A property refers to a schema that is not there. -/
def strayDocument : List UInt8 :=
  ("swagger: \"2.0\"\npaths: {}\ndefinitions:\n  Pet:\n    properties:\n" ++
    "      owner:\n        $ref: Owner\n").toUTF8.data.toList

/-- The reference that a conversion misses. -/
def missed? {α : Type} : Except ConversionError α → Option String
  | .error (.danglingReference reference) => some reference
  | _ => none

theorem missed?_eq_some {α : Type} {x : Except ConversionError α} {reference : String}
    (h : missed? x = some reference) : x = .error (.danglingReference reference) := by
  unfold missed? at h
  split at h
  · rw [Option.some.inj h]
  · cases h

theorem exists_error_of_missed? {α : Type} {x : Except ConversionError α} (h : x.isOk = false)
    (hmissed : missed? x = none) :
    ∃ cause, x = .error cause ∧ ∀ reference, cause ≠ .danglingReference reference := by
  cases x with
  | ok a => simp [Except.isOk, Except.toBool] at h
  | error cause =>
    refine ⟨cause, rfl, ?_⟩
    rintro reference rfl
    cases hmissed

/-- A default has a null in it, which no literal can stand for. -/
def nullDocument : List UInt8 :=
  ("swagger: \"2.0\"\npaths: {}\ndefinitions:\n  Pet:\n    properties:\n" ++
    "      tags:\n        default: [1, null]\n").toUTF8.data.toList

theorem strayDocument_policies_agree :
    (∃ schema, convertDocument "pets.yaml" petDocument { policy := .strict } = .ok schema ∧
      convertDocument "pets.yaml" petDocument { policy := .lenient } = .ok schema) ∧
    (∃ cause, convertDocument "pets.yaml" nullDocument { policy := .strict } = .error cause ∧
      (∀ reference, cause ≠ .danglingReference reference) ∧
      convertDocument "pets.yaml" nullDocument { policy := .lenient } = .error cause) ∧
    convertDocument "pets.yaml" strayDocument { policy := .strict } =
        .error (.danglingReference "Owner") ∧
      ∃ document, readDocument "pets.yaml" strayDocument = .ok document ∧
        Convert.definitionKey "Owner" ∉ document.schemas.keys := by
  refine ⟨?_, ?_, ?_⟩
  · obtain ⟨schema, h⟩ := petDocument_converts
    obtain ⟨hstrict, -, -⟩ := convertDocument_policies_agree "pets.yaml" petDocument {}
    exact ⟨schema, h, hstrict schema h⟩
  · obtain ⟨hfails, hmissed⟩ :
        (convertDocument "pets.yaml" nullDocument { policy := .strict }).isOk = false ∧
          missed? (convertDocument "pets.yaml" nullDocument { policy := .strict }) = none := by
      decide +kernel
    obtain ⟨cause, h, hother⟩ := exists_error_of_missed? hfails hmissed
    obtain ⟨-, hfailure, -⟩ := convertDocument_policies_agree "pets.yaml" nullDocument {}
    exact ⟨cause, h, hother, hfailure cause h hother⟩
  · have hmissed : missed? (convertDocument "pets.yaml" strayDocument { policy := .strict }) =
        some "Owner" := by
      decide +kernel
    obtain ⟨-, -, hmissing⟩ := convertDocument_policies_agree "pets.yaml" strayDocument {}
    have h := missed?_eq_some hmissed
    exact ⟨h, hmissing "Owner" h⟩

end RestThrift
