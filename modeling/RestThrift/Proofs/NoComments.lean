import Mathlib
import RestThrift.Proofs.Dialects
import RestThrift.Proofs.UndescribedReading
import RestThrift.Proofs.WriterRuns

/-!
# Output without comments

Comments are all that the descriptions of a document come to. A document without them is converted
into the schema without comments, whose texts are those that are written without comments.
-/
namespace RestThrift

namespace Convert

open RestThrift.Api.Reading (undescribed undescribing)

theorem interpret_undescribed {file : String} {value : Yaml.Value} {document : Api.Document}
    (h : interpret file value = .ok document) :
    interpret file (undescribed .document value) = .ok (document.edit undescribing) := by
  cases value with
  | mapping entries =>
    simp only [undescribed, interpret, Api.Reading.detect_undescribed] at h ⊢
    cases hdialect : Api.Reading.detect entries with
    | error missing => simp only [hdialect, reduceCtorEq] at h
    | ok found =>
      simp only [hdialect] at h ⊢
      cases hread : Api.Reading.document? found.1 found.2 (.mapping entries) with
      | none => simp only [hread, reduceCtorEq] at h
      | some read =>
        simp only [hread] at h
        obtain rfl := Except.ok.inj h
        have hread' := Api.Reading.Part.yields_document? found.1 found.2 _ read hread
        rw [undescribed] at hread'
        rw [hread']
  | _ => cases h

theorem convert_undescribed {file : String} {document : Api.Document} {options : Options}
    {schema : Schema} (h : convert file document options = .ok schema) :
    convert file (document.edit undescribing) options = .ok schema.withoutComments := by
  have hedited := convert_edited (e := undescribing) file document options (fun _ => rfl)
    (fun _ _ => rfl) fun _ _ => rfl
  rw [h] at hedited
  cases hconvert : convert file (document.edit undescribing) options with
  | ok other =>
    rw [hconvert] at hedited
    exact congrArg _ (Option.some.inj hedited)
  | error cause =>
    rw [hconvert] at hedited
    cases hedited

/-- Without descriptions the texts are those that are written without comments. -/
theorem render_undescribed {file : String} {document : Api.Document} {options : Options}
    {schema : Schema} (h : convert file document options = .ok schema) :
    render file (document.edit undescribing) { options with noComments := false } =
      render file document { options with noComments := true } := by
  have hschema : convert file document { options with noComments := true } = .ok schema := h
  have hundescribed : convert file (document.edit undescribing)
      { options with noComments := false } = .ok schema.withoutComments := convert_undescribed h
  rw [render, render, hschema, hundescribed]
  exact congrArg write (generate_withoutComments schema).symm

end Convert

open RestThrift.Api.Reading (undescribed)

/-- Leaving out comments is the same as having none. A schema is written without comments as the
schema whose lists of comments are empty, or fails with the same cause. A document that is converted
comes without comments to the same files, or the same failure, as with comments the value in which
its schemas, parameters, bodies, responses and operations have no descriptions and summaries; that
value is converted into the schema whose lists of comments are empty. -/
theorem no_comments_is_erasure :
    (∀ schema : Schema, generate schema false = generate schema.withoutComments true) ∧
    ∀ (file : String) (bytes : List UInt8) (options : Options) (value : Yaml.Value)
      (schema : Schema), Yaml.parse? bytes = some value →
      convertDocument file bytes options = .ok schema →
        (convertSpec file bytes { options with noComments := true } =
          Convert.interpret file (undescribed .document value) >>= fun document =>
            Convert.render file document { options with noComments := false }) ∧
        ∀ others, Yaml.parse? others = some (undescribed .document value) →
          convertDocument file others options = .ok schema.withoutComments ∧
          convertSpec file bytes { options with noComments := true } =
            convertSpec file others { options with noComments := false } := by
  refine ⟨generate_withoutComments, fun file bytes options value schema hvalue h => ?_⟩
  obtain ⟨document, hread, hconvert⟩ := Convert.bind_eq_ok.mp h
  have hinterpret : Convert.interpret file value = .ok document := by
    rw [← Convert.readDocument_eq hvalue, hread]
  have hinterpret' := Convert.interpret_undescribed hinterpret
  have hspec : convertSpec file bytes { options with noComments := true } =
      Convert.interpret file (undescribed .document value) >>= fun document =>
        Convert.render file document { options with noComments := false } := by
    rw [Convert.convertSpec_eq, hread, hinterpret']
    exact (Convert.render_undescribed hconvert).symm
  refine ⟨hspec, fun others hothers => ⟨?_, ?_⟩⟩
  · rw [convertDocument, Convert.readDocument_eq hothers, hinterpret']
    exact Convert.convert_undescribed hconvert
  · rw [hspec, Convert.convertSpec_eq, Convert.readDocument_eq hothers]

/-- An operation, its parameters and responses and all schemas but one are described. Two properties
and an entry of a default value have the names of descriptions. -/
def describedDocument : List UInt8 :=
  ("swagger: \"2.0\"\npaths:\n  /pets:\n    post:\n      summary: Add a pet\n" ++
    "      description: Adds a pet.\n      parameters:\n      - name: trace\n" ++
    "        in: header\n        description: For logs.\n      - name: pet\n" ++
    "        in: body\n        description: A pet.\n        schema:\n" ++
    "          $ref: Pet\n      responses:\n        200:\n" ++
    "          description: Added.\n          schema:\n            $ref: Pet\n" ++
    "        404:\n          description: No such kind.\n          schema:\n" ++
    "            type: string\ndefinitions:\n  Pet:\n    description: An animal.\n" ++
    "    properties:\n      description:\n        description: Its looks.\n" ++
    "        default: plain\n      marks:\n        additionalProperties:\n" ++
    "          description: A mark.\n          enum: [spot]\n      summary:\n" ++
    "        default:\n          description: none\n").toUTF8.data.toList

/-- The same without descriptions and summaries. -/
def undescribedDocument : List UInt8 :=
  ("swagger: \"2.0\"\npaths:\n  /pets:\n    post:\n      parameters:\n" ++
    "      - name: trace\n        in: header\n      - name: pet\n        in: body\n" ++
    "        schema:\n          $ref: Pet\n      responses:\n        200:\n" ++
    "          schema:\n            $ref: Pet\n        404:\n          schema:\n" ++
    "            type: string\ndefinitions:\n  Pet:\n    properties:\n" ++
    "      description:\n        default: plain\n      marks:\n" ++
    "        additionalProperties:\n          enum: [spot]\n      summary:\n" ++
    "        default:\n          description: none\n").toUTF8.data.toList

theorem describedDocument_no_comments :
    ∃ schema, convertDocument "pets.yaml" describedDocument {} = .ok schema ∧
      convertDocument "pets.yaml" undescribedDocument {} = .ok schema.withoutComments ∧
      convertSpec "pets.yaml" describedDocument { noComments := true } =
        convertSpec "pets.yaml" undescribedDocument {} := by
  obtain ⟨hparse, hconverts⟩ : Yaml.parse? undescribedDocument =
      (Yaml.parse? describedDocument).map (undescribed .document) ∧
        (convertDocument "pets.yaml" describedDocument {}).isOk = true := by
    decide +kernel
  obtain ⟨schema, hschema⟩ := exists_of_isOk hconverts
  obtain ⟨document, hread, -⟩ := Convert.bind_eq_ok.mp hschema
  obtain ⟨entries, -, -, hvalue, -, -⟩ := readDocument_spec hread
  rw [hvalue, Option.map_some] at hparse
  obtain ⟨-, hothers⟩ := no_comments_is_erasure.2 "pets.yaml" describedDocument {} (.mapping entries)
    schema hvalue hschema
  exact ⟨schema, hschema, hothers undescribedDocument hparse⟩

end RestThrift
