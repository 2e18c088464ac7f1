import Mathlib
import RestThrift.Proofs.Comparison
import RestThrift.Proofs.Redirection

/-!
# The two dialects

A Swagger 2 document and the OpenAPI 3 document with the same paths and the same named schemas in
their own section are converted into the same files, or both are not. They are read into the same
tables once references start with one section, conversions ask of a reference for no more than the
key of a schema, and the version of a document is not written out.
-/
namespace RestThrift

namespace Api.Reading

open RestThrift.Yaml (Value)

/-! ## Translated documents -/

/-- The names at the root of a document that tell the dialects apart. -/
def dialectNames : List String := ["swagger", "openapi", "definitions", "components"]

/-- An entry at the root of a Swagger 2 document and the one in its place in an OpenAPI 3 document,
where the prefix of a reference may be that of either section. -/
inductive Translated : Value × Value → Value × Value → Prop
  | version {v v' : Value} {version version' : String} (h : versionText? v = some version)
      (hswagger : isSwagger2 version = true) (h' : versionText? v' = some version')
      (hopen : isOpenApi3 version' = true) : Translated (.text "swagger", v) (.text "openapi", v')
  | definitions {v v' : Value} (h : redirect .schemas v' = redirect .schemas v) :
      Translated (.text "definitions", v) (.text "components", .mapping [(.text "schemas", v')])
  | other {key v v' : Value}
      (hkey : ∀ name ∈ dialectNames, key.untagged ≠ .text name)
      (h : redirect (Role.object.under key) v' = redirect (Role.object.under key) v) :
      Translated (key, v) (key, v')

/-- A document in the version and the sections of OpenAPI 3, for one of Swagger 2. -/
structure Translates (entries entries' : List (Value × Value)) : Prop where
  translated : List.Forall₂ Translated entries entries'
  versioned : ∃ v, (Value.text "swagger", v) ∈ entries

/-- The entry with all references redirected, under its name in OpenAPI 3. -/
def openApiEntry (version : Value) (entry : Value × Value) : Value × Value :=
  if entry.1 = .text "swagger" then (.text "openapi", version)
  else if entry.1 = .text "definitions" then
    (.text "components", .mapping [(.text "schemas", redirect .schemas entry.2)])
  else (entry.1, redirect (Role.object.under entry.1) entry.2)

/-- The entry states a version of Swagger 2, or its definitions, or has a name of both dialects. -/
def IsSwaggerEntry (entry : Value × Value) : Prop :=
  (entry.1 = .text "swagger" ∧
    ∃ version, versionText? entry.2 = some version ∧ isSwagger2 version = true) ∨
  entry.1 = .text "definitions" ∨ ∀ name ∈ dialectNames, entry.1.untagged ≠ .text name

/-- Every Swagger 2 document has a translation. -/
theorem translates_openApi {entries : List (Value × Value)} {v : Value} {version : String}
    (h : ∀ entry ∈ entries, IsSwaggerEntry entry)
    (hversioned : ∃ v, (Value.text "swagger", v) ∈ entries)
    (hversion : versionText? v = some version) (hopen : isOpenApi3 version = true) :
    Translates entries (entries.map (openApiEntry v)) := by
  refine ⟨List.forall₂_map_right_iff.mpr (List.forall₂_same.mpr fun entry hentry => ?_), hversioned⟩
  obtain ⟨key, value⟩ := entry
  rcases h _ hentry with ⟨hkey, before, hbefore, hswagger⟩ | hkey | hkey
  · obtain rfl : key = .text "swagger" := hkey
    exact .version hbefore hswagger hversion hopen
  · obtain rfl : key = .text "definitions" := hkey
    exact .definitions (redirect_idem .schemas value)
  · have hswagger : key ≠ .text "swagger" := by
      rintro rfl
      exact hkey "swagger" (by decide) rfl
    have hdefinitions : key ≠ .text "definitions" := by
      rintro rfl
      exact hkey "definitions" (by decide) rfl
    rw [openApiEntry, if_neg hswagger, if_neg hdefinitions]
    exact .other hkey (redirect_idem _ value)

section Translation

variable {entries entries' : List (Value × Value)} {fields fields' : Fields}

/-! ## Versions -/

theorem same_text {key : Value} {name : String} :
    key.same (.text name) = true ↔ key = .text name := by
  cases key <;> simp [Value.same]

theorem exists_rootField? {name : String} (h : ∃ v, (Value.text name, v) ∈ entries) :
    ∃ v, rootField? name entries = some v ∧ (.text name, v) ∈ entries := by
  obtain ⟨v, hv⟩ := h
  have hfound : (entries.find? fun entry => entry.1.same (.text name)).isSome :=
    List.find?_isSome.mpr ⟨_, hv, same_text.mpr rfl⟩
  obtain ⟨⟨key, found⟩, hentry⟩ := Option.isSome_iff_exists.mp hfound
  have hsame : key.same (.text name) = true :=
    List.find?_some (p := fun entry : Value × Value => entry.1.same (.text name)) hentry
  obtain rfl := same_text.mp hsame
  exact ⟨found, by rw [rootField?, hentry, Option.map_some], List.mem_of_find?_eq_some hentry⟩

theorem rootField?_eq_none {name : String} (h : ∀ entry ∈ entries, entry.1 ≠ .text name) :
    rootField? name entries = none := by
  rw [rootField?, Option.map_eq_none_iff, List.find?_eq_none]
  exact fun entry hentry hsame => h entry hentry (same_text.mp hsame)

theorem Translated.of_swagger {entry entry' : Value × Value} (h : Translated entry entry')
    (hkey : entry.1 = .text "swagger") : entry'.1 = .text "openapi" ∧
      (∃ version, versionText? entry.2 = some version ∧ isSwagger2 version = true) := by
  cases h with
  | version h hswagger => exact ⟨rfl, _, h, hswagger⟩
  | definitions => exact absurd (Value.text.inj hkey) (by decide)
  | other hother =>
    subst hkey
    exact absurd rfl (hother "swagger" (by decide))

theorem Translated.of_openApi {entry entry' : Value × Value} (h : Translated entry entry')
    (hkey : entry'.1 = .text "openapi") :
      ∃ version, versionText? entry'.2 = some version ∧ isOpenApi3 version = true := by
  cases h with
  | version _ _ h hopen => exact ⟨_, h, hopen⟩
  | definitions => exact absurd (Value.text.inj hkey) (by decide)
  | other hother =>
    subst hkey
    exact absurd rfl (hother "openapi" (by decide))

theorem Translated.ne_swagger {entry entry' : Value × Value} (h : Translated entry entry') :
    entry'.1 ≠ .text "swagger" := by
  intro hkey
  cases h with
  | version => exact absurd (Value.text.inj hkey) (by decide)
  | definitions => exact absurd (Value.text.inj hkey) (by decide)
  | other hother =>
    subst hkey
    exact absurd rfl (hother "swagger" (by decide))

theorem Translates.detect_swagger (h : Translates entries entries') :
    ∃ version, detect entries = .ok (.swagger2, version) := by
  obtain ⟨v, hfound, hmem⟩ := exists_rootField? h.versioned
  obtain ⟨entry', -, htranslated⟩ := Convert.exists_right_of_forall₂ h.translated hmem
  obtain ⟨-, version, hversion, hswagger⟩ := htranslated.of_swagger rfl
  refine ⟨version, ?_⟩
  have hfilter := Option.filter_some_pos (p := isSwagger2) hswagger
  simp only [detect, hfound, Option.bind_some, hversion, hfilter]

theorem Translates.detect_openApi (h : Translates entries entries') :
    ∃ version, detect entries' = .ok (.openApi3, version) := by
  obtain ⟨v, hv⟩ := h.versioned
  obtain ⟨⟨key, v'⟩, hmem, htranslated⟩ := Convert.exists_right_of_forall₂ h.translated hv
  obtain ⟨rfl, -⟩ := htranslated.of_swagger rfl
  obtain ⟨found, hfound, hfound'⟩ := exists_rootField? ⟨v', hmem⟩
  obtain ⟨entry, -, hother⟩ := Convert.exists_left_of_forall₂ h.translated hfound'
  obtain ⟨version, hversion, hopen⟩ := hother.of_openApi rfl
  have hnone : rootField? "swagger" entries' = none := rootField?_eq_none fun entry' hentry' => by
    obtain ⟨entry, -, hentry⟩ := Convert.exists_left_of_forall₂ h.translated hentry'
    exact hentry.ne_swagger
  refine ⟨version, ?_⟩
  have hfilter := Option.filter_some_pos (p := isOpenApi3) hopen
  simp only [detect, hnone, Option.bind_none, Option.filter_none, hfound, Option.bind_some,
    hversion, hfilter]

/-! ## Sections -/

def sectionNames : List String := ["paths", "components", "definitions"]

/-- The sections of a document and those of the translated one. -/
structure Sections (fields fields' : Fields) : Prop where
  paths : (fields'.lookup "paths").map (redirect .objects) =
    (fields.lookup "paths").map (redirect .objects)
  components : fields.lookup "components" = none
  definitions : fields'.lookup "definitions" = none
  schemas : (fields.lookup "definitions" = none ∧ fields'.lookup "components" = none) ∨
    ∃ v v', fields.lookup "definitions" = some v ∧
      fields'.lookup "components" = some (.mapping [(.text "schemas", v')]) ∧
      redirect .schemas v' = redirect .schemas v

theorem lookup_append_of_ne {name key : String} {v : Value} (h : name ≠ key) :
    (fields ++ [(key, v)]).lookup name = fields.lookup name := by
  rw [List.lookup_append, List.lookup_cons, beq_eq_false_iff_ne.mpr h]
  exact Option.or_none

theorem lookup_append_self {name : String} {v : Value} (h : fields.lookup name = none) :
    (fields ++ [(name, v)]).lookup name = some v := by
  rw [List.lookup_append, h, List.lookup_cons_self, Option.none_or]

theorem Sections.addPaths {v v' : Value} (h : Sections fields fields')
    (hnew : fields.lookup "paths" = none) (hv : redirect .objects v' = redirect .objects v) :
    Sections (fields ++ [("paths", v)]) (fields' ++ [("paths", v')]) := by
  have hnew' : fields'.lookup "paths" = none := by
    have hpaths := h.paths
    rwa [hnew, Option.map_none, Option.map_eq_none_iff] at hpaths
  constructor
  · rw [lookup_append_self hnew, lookup_append_self hnew', Option.map_some, Option.map_some, hv]
  · rw [lookup_append_of_ne (by decide), h.components]
  · rw [lookup_append_of_ne (by decide), h.definitions]
  · rw [lookup_append_of_ne (by decide), lookup_append_of_ne (by decide)]
    exact h.schemas

theorem Sections.addSchemas {v v' : Value} (h : Sections fields fields')
    (hnew : fields.lookup "definitions" = none) (hnew' : fields'.lookup "components" = none)
    (hv : redirect .schemas v' = redirect .schemas v) :
    Sections (fields ++ [("definitions", v)])
      (fields' ++ [("components", .mapping [(.text "schemas", v')])]) := by
  constructor
  · rw [lookup_append_of_ne (by decide), lookup_append_of_ne (by decide), h.paths]
  · rw [lookup_append_of_ne (by decide), h.components]
  · rw [lookup_append_of_ne (by decide), h.definitions]
  · exact .inr ⟨v, v', lookup_append_self hnew, lookup_append_self hnew', hv⟩

/-- The only known name that a key may have that is not translated. -/
theorem eq_paths_of_field? {key : Value} {name : String}
    (hkey : ∀ name ∈ dialectNames, key.untagged ≠ .text name)
    (h : Setting.lenient.field? sectionNames key = some (some name)) :
    key.untagged = .text "paths" ∧ name = "paths" := by
  have hstrip : Setting.lenient.strip key = key.untagged := rfl
  unfold Setting.field? at h
  split at h
  · rename_i text htext
    split at h
    · rename_i hknown
      obtain rfl := Option.some.inj (Option.some.inj h)
      rw [hstrip] at htext
      have hmem : text ∈ sectionNames := by simpa using hknown
      have hpaths : text = "paths" := by
        rcases List.mem_cons.mp hmem with rfl | hmem
        · rfl
        · refine absurd htext (hkey text ?_)
          rcases List.mem_pair.mp hmem with rfl | rfl <;> decide
      exact ⟨hpaths ▸ htext, hpaths⟩
    · cases h
  · rename_i heq _
    cases heq
  · cases h

theorem collect?_translated (h : List.Forall₂ Translated entries entries')
    (hs : Sections fields fields') :
    (Setting.lenient.collect? sectionNames entries fields = none ∧
      Setting.lenient.collect? sectionNames entries' fields' = none) ∨
    ∃ found found', Setting.lenient.collect? sectionNames entries fields = some found ∧
      Setting.lenient.collect? sectionNames entries' fields' = some found' ∧
      Sections found found' := by
  induction h generalizing fields fields' with
  | nil => exact .inr ⟨fields, fields', rfl, rfl, hs⟩
  | cons hentry _ ih =>
    cases hentry with
    | version => exact ih hs
    | definitions hv =>
      have hfirst : Setting.lenient.field? sectionNames (.text "definitions") =
          some (some "definitions") := rfl
      have hsecond : Setting.lenient.field? sectionNames (.text "components") =
          some (some "components") := rfl
      simp only [Setting.collect?, hfirst, hsecond]
      rcases hs.schemas with ⟨hnone, hnone'⟩ | ⟨_, _, hfound, hfound', -⟩
      · simp only [hnone, hnone', Option.isSome_none, Bool.false_eq_true, if_false]
        exact ih (hs.addSchemas hnone hnone' hv)
      · exact .inl ⟨by simp [hfound], by simp [hfound']⟩
    | @other key v v' hkey hv =>
      simp only [Setting.collect?]
      cases hfield : Setting.lenient.field? sectionNames key with
      | none => exact .inl ⟨rfl, rfl⟩
      | some known =>
        cases known with
        | none => exact ih hs
        | some name =>
          obtain ⟨huntagged, rfl⟩ := eq_paths_of_field? hkey hfield
          have hrole : Role.object.under key = .objects := by
            rw [Role.under, huntagged]
            rfl
          rw [hrole] at hv
          have hsame : (fields'.lookup "paths").isSome = (fields.lookup "paths").isSome := by
            rw [← Option.isSome_map, hs.paths, Option.isSome_map]
          simp only [hsame]
          cases hfound : fields.lookup "paths" with
          | none => exact ih (hs.addPaths hfound hv)
          | some _ => exact .inl ⟨rfl, rfl⟩

/-! ## Documents -/

theorem map_eq_of_redirect {α : Type} {φ : α → α} {read : Value → Option α} {role : Role}
    {v v' : Value} (hread : redirection.Follows role read φ)
    (hv : redirect role v' = redirect role v) : (read v').map φ = (read v).map φ := by
  rw [← hread v' trivial, ← hread v trivial]
  exact congrArg read hv

theorem cases_of_map_eq {α β γ : Type} {φ : α → γ} {ψ : β → γ} {x : Option α} {y : Option β}
    (h : y.map ψ = x.map φ) :
    (x = none ∧ y = none) ∨ ∃ a b, x = some a ∧ y = some b ∧ ψ b = φ a := by
  cases x with
  | none => exact .inl ⟨rfl, Option.map_eq_none_iff.mp h⟩
  | some a =>
    obtain ⟨b, hb, heq⟩ := Option.map_eq_some_iff.mp h
    exact .inr ⟨a, b, rfl, hb, heq⟩

/-- Both documents have the same paths and the same schemas, once references are redirected. -/
def SameParts (document document' : Document) : Prop :=
  (document'.edit redirection.edit).paths = (document.edit redirection.edit).paths ∧
    (document'.edit redirection.edit).schemas = (document.edit redirection.edit).schemas

theorem paths_translated (hs : Sections fields fields') :
    (fields'.withDefault "paths" [] (Setting.lenient.table? lenientText? pathItem?)).map
        (Table.mapValues (PathItem.edit redirection.edit)) =
      (fields.withDefault "paths" [] (Setting.lenient.table? lenientText? pathItem?)).map
        (Table.mapValues (PathItem.edit redirection.edit)) := by
  rw [Fields.withDefault, Fields.withDefault]
  rcases cases_of_map_eq hs.paths with ⟨hnone, hnone'⟩ | ⟨v, v', hfound, hfound', hv⟩
  · rw [hnone, hnone']
  · rw [hfound, hfound']
    exact map_eq_of_redirect redirection_lawful.paths? hv

theorem schemas_translated (hs : Sections fields fields') :
    (fields'.optional "components" components?).map
        (fun table => Table.mapValues (Schema.edit redirection.edit) (table.getD [])) =
      (fields.withDefault "definitions" [] schemas?).map
        (Table.mapValues (Schema.edit redirection.edit)) := by
  rw [Fields.optional, Fields.withDefault]
  rcases hs.schemas with ⟨hnone, hnone'⟩ | ⟨v, v', hfound, hfound', hv⟩
  · rw [hnone, hnone']
    rfl
  · have hcomponents : components? (.mapping [(.text "schemas", v')]) = schemas? v' := rfl
    simp only [hfound, hfound', hcomponents]
    rw [← map_eq_of_redirect redirection_lawful.schemas? hv, Option.map_map]
    rfl

/-- What is read of a document of the one dialect: the components need to be readable only. -/
theorem document?_swagger2 (version : String) (root : Value) : document? .swagger2 version root =
    (lenientRecord? sectionNames root).bind fun fields =>
      (fields.withDefault "paths" [] (Setting.lenient.table? lenientText? pathItem?)).bind
        fun paths => (fields.optional "components" components?).bind fun _ =>
          (fields.withDefault "definitions" [] schemas?).bind fun definitions =>
            some { dialect := .swagger2, version, paths, schemas := definitions } :=
  rfl

/-- What is read of a document of the other one: the definitions need to be readable only. -/
theorem document?_openApi3 (version : String) (root : Value) : document? .openApi3 version root =
    (lenientRecord? sectionNames root).bind fun fields =>
      (fields.withDefault "paths" [] (Setting.lenient.table? lenientText? pathItem?)).bind
        fun paths => (fields.optional "components" components?).bind fun components =>
          (fields.withDefault "definitions" [] schemas?).bind fun _ =>
            some { dialect := .openApi3, version, paths, schemas := components.getD [] } :=
  rfl

theorem document?_translated (h : List.Forall₂ Translated entries entries')
    (version version' : String) :
    (document? .swagger2 version (.mapping entries) = none ∧
      document? .openApi3 version' (.mapping entries') = none) ∨
    ∃ document document', document? .swagger2 version (.mapping entries) = some document ∧
      document? .openApi3 version' (.mapping entries') = some document' ∧
      SameParts document document' := by
  have hempty : Sections [] [] := ⟨rfl, rfl, rfl, .inl ⟨rfl, rfl⟩⟩
  have hrecord : ∀ entries, lenientRecord? sectionNames (.mapping entries) =
      Setting.lenient.collect? sectionNames entries [] := fun _ => rfl
  rw [document?_swagger2, document?_openApi3, hrecord, hrecord]
  rcases collect?_translated h hempty with ⟨hnone, hnone'⟩ | ⟨fields, fields', hfound, hfound', hs⟩
  · rw [hnone, hnone']
    exact .inl ⟨rfl, rfl⟩
  · have hpaths := paths_translated hs
    have hschemas := schemas_translated hs
    have hcomponents : fields.optional "components" components? = some none := by
      rw [Fields.optional, hs.components]
    have hdefinitions : fields'.withDefault "definitions" [] schemas? = some [] := by
      rw [Fields.withDefault, hs.definitions]
    rw [hfound, hfound', Option.bind_some, Option.bind_some, hcomponents, hdefinitions]
    rcases cases_of_map_eq hpaths with ⟨hnone, hnone'⟩ | ⟨paths, paths', hread, hread', hpaths⟩
    · rw [hnone, hnone']
      exact .inl ⟨rfl, rfl⟩
    · rw [hread, hread']
      rcases cases_of_map_eq hschemas with
        ⟨hnone, hnone'⟩ | ⟨definitions, components, hread, hread', hschemas⟩
      · rw [hnone, hnone']
        exact .inl ⟨rfl, rfl⟩
      · rw [hread, hread']
        exact .inr ⟨_, _, rfl, rfl, hpaths, hschemas⟩

end Translation

end Api.Reading

/-! ## Conversions -/

/-- The text of a file does not show its edition. -/
theorem generate_edition (schema : Schema) (edition : String) (withComments : Bool) :
    generate { schema with files := schema.files.map fun f => { f with edition } } withComments =
      generate schema withComments := by
  have hpaths : (schema.files.map fun f => { f with edition }).map File.path =
      schema.files.map File.path := by
    rw [List.map_map]
    rfl
  have htexts : ∀ (files : List File) (writer : Writer),
      writer.writeAll (files.map fun f => { f with edition }) = writer.writeAll files := by
    intro files
    induction files with
    | nil => exact fun _ => rfl
    | cons f rest ih =>
      intro writer
      have hwrite : writer.write { f with edition } = writer.write f := rfl
      simp only [List.map_cons, Writer.writeAll, hwrite, ih]
  rw [generate, generate, hpaths, htexts]

namespace Convert

/-- What becomes of the texts of files. -/
def write (texts : Except RenderError (Table String)) : Except ConversionError (Table String) :=
  match texts with
  | .ok files => .ok files
  | .error cause => .error (.rendering cause)

/-- The files that a document that has been read is converted into. -/
def render (file : String) (document : Api.Document) (options : Options) :
    Except ConversionError (Table String) :=
  convert file document options >>= fun schema =>
    write (generate schema (!options.noComments))

theorem convertSpec_eq (file : String) (bytes : List UInt8) (options : Options) :
    convertSpec file bytes options =
      readDocument file bytes >>= fun document => render file document options := by
  rw [convertSpec, convertDocument]
  cases readDocument file bytes with
  | error cause => rfl
  | ok document => rfl

theorem assemble_edition (plan : Plan) (options : Options) (edition other : String) (o : Outline)
    (w : Workspace) : assemble plan options other o w =
      { assemble plan options edition o w with
        files := (assemble plan options edition o w).files.map fun f =>
          { f with edition := other } } := by
  simp only [assemble, Schema.sorted, List.map_map]
  rfl

/-- Neither the dialect nor the version of a document matters to its files. -/
theorem render_eq {file : String} {document document' : Api.Document} {options : Options}
    (hpaths : document'.paths = document.paths) (hschemas : document'.schemas = document.schemas) :
    render file document' options = render file document options := by
  obtain ⟨dialect, version, paths, schemas⟩ := document
  obtain ⟨dialect', version', paths', schemas'⟩ := document'
  obtain rfl : paths' = paths := hpaths
  obtain rfl : schemas' = schemas := hschemas
  have hassemble : ∀ plan o w, generate (assemble plan options version' o w) (!options.noComments) =
      generate (assemble plan options version o w) (!options.noComments) := fun plan o w => by
    rw [assemble_edition plan options version version', generate_edition]
  simp only [render, convert]
  cases (defineAll (Plan.of file options schemas').1 schemas').run
      (Plan.of file options schemas').2 with
  | error cause => rfl
  | ok defined =>
    change (((buildService _ _ paths').run {}).run defined.2 >>= fun served => _) >>= _ =
      (((buildService _ _ paths').run {}).run defined.2 >>= fun served => _) >>= _
    cases ((buildService (Plan.of file options schemas').1 options.serviceName paths').run {}).run
        defined.2 with
    | error cause => rfl
    | ok served =>
      change write (generate (assemble _ options version' _ _) (!options.noComments)) =
        write (generate (assemble _ options version _ _) (!options.noComments))
      rw [hassemble]

theorem render_redirect (file : String) (document : Api.Document) (options : Options) :
    (render file (document.edit Api.Reading.redirection.edit) options).toOption =
      (render file document options).toOption := by
  rw [render, render, toOption_bind, toOption_bind,
    convert_edit (e := Api.Reading.redirection.edit) file document options
      rfl definitionKey_openApiReference (fun _ _ => rfl) fun _ _ => rfl]

end Convert

/-- A Swagger 2 document and the OpenAPI 3 document with the same paths, the same named schemas and
references into the section of either are both converted into the same files, or neither is. -/
theorem convertSpec_ignores_dialect {file : String} {bytes others : List UInt8} {options : Options}
    {entries entries' : List (Yaml.Value × Yaml.Value)}
    (h : Yaml.parse? bytes = some (.mapping entries))
    (hothers : Yaml.parse? others = some (.mapping entries'))
    (htranslates : Api.Reading.Translates entries entries') :
    (∃ files, convertSpec file bytes options = .ok files ∧
      convertSpec file others options = .ok files) ∨
    ∃ cause other, convertSpec file bytes options = .error cause ∧
      convertSpec file others options = .error other := by
  refine Convert.cases_of_toOption_eq ?_
  obtain ⟨version, hswagger⟩ := htranslates.detect_swagger
  obtain ⟨version', hopen⟩ := htranslates.detect_openApi
  rw [Convert.convertSpec_eq, Convert.convertSpec_eq, Convert.readDocument_eq h,
    Convert.readDocument_eq hothers, Convert.interpret, Convert.interpret, hswagger, hopen]
  rcases Api.Reading.document?_translated htranslates.translated version version' with
    ⟨hnone, hnone'⟩ | ⟨document, document', hread, hread', hpaths, hschemas⟩
  · simp only [hnone, hnone']
    rfl
  · simp only [hread, hread']
    change (Convert.render file document options).toOption =
      (Convert.render file document' options).toOption
    rw [← Convert.render_redirect, ← Convert.render_redirect file document',
      Convert.render_eq hpaths hschemas]

/-- An operation and a composed schema refer to named schemas in the section of Swagger 2. -/
def swaggerDocument : List UInt8 :=
  ("swagger: \"2.0\"\npaths:\n  /pets:\n    get:\n      responses:\n        200:\n" ++
    "          schema:\n            $ref: \"#/definitions/Dog\"\ndefinitions:\n" ++
    "  Pet:\n    properties:\n      name:\n        type: string\n" ++
    "  Dog:\n    allOf:\n    - $ref: \"#/definitions/Pet\"\n" ++
    "    - properties:\n        mother:\n          $ref: \"#/definitions/Dog\"\n"
    ).toUTF8.data.toList

/-- The same with the section of OpenAPI 3. -/
def openApiDocument : List UInt8 :=
  ("openapi: 3.0.1\npaths:\n  /pets:\n    get:\n      responses:\n        200:\n" ++
    "          schema:\n            $ref: \"#/components/schemas/Dog\"\ncomponents:\n" ++
    "  schemas:\n    Pet:\n      properties:\n        name:\n          type: string\n" ++
    "    Dog:\n      allOf:\n      - $ref: \"#/components/schemas/Pet\"\n" ++
    "      - properties:\n          mother:\n            $ref: \"#/components/schemas/Dog\"\n"
    ).toUTF8.data.toList

/-- A reference to a schema. -/
def referenceTo (reference : String) : Yaml.Value := .mapping [(.text "$ref", .text reference)]

/-- What the document in Swagger 2 reads as. -/
def swaggerEntries : List (Yaml.Value × Yaml.Value) :=
  [(.text "swagger", .text "2.0"),
    (.text "paths", .mapping [(.text "/pets", .mapping [(.text "get", .mapping [
      (.text "responses", .mapping [(.number (.int 200), .mapping [
        (.text "schema", referenceTo "#/definitions/Dog")])])])])]),
    (.text "definitions", .mapping [
      (.text "Pet", .mapping [(.text "properties", .mapping [
        (.text "name", .mapping [(.text "type", .text "string")])])]),
      (.text "Dog", .mapping [(.text "allOf", .sequence [referenceTo "#/definitions/Pet",
        .mapping [(.text "properties", .mapping [
          (.text "mother", referenceTo "#/definitions/Dog")])]])])])]

theorem swaggerDocument_ignores_dialect :
    ∃ files, convertSpec "pets.yaml" swaggerDocument {} = .ok files ∧
      convertSpec "pets.yaml" openApiDocument {} = .ok files := by
  have hparse : Yaml.parse? swaggerDocument = some (.mapping swaggerEntries) := by
    decide +kernel
  have hopen : Yaml.parse? openApiDocument =
      some (.mapping (swaggerEntries.map (Api.Reading.openApiEntry (.text "3.0.1")))) := by
    decide +kernel
  have hentries : ∀ entry ∈ swaggerEntries, Api.Reading.IsSwaggerEntry entry :=
    List.forall_mem_cons.mpr ⟨.inl ⟨rfl, "2.0", rfl, rfl⟩, List.forall_mem_cons.mpr
      ⟨.inr (.inr (by decide)), List.forall_mem_singleton.mpr (.inr (.inl rfl))⟩⟩
  have htranslates := Api.Reading.translates_openApi hentries ⟨.text "2.0", List.mem_cons_self⟩
    (v := .text "3.0.1") rfl rfl
  rcases convertSpec_ignores_dialect hparse hopen htranslates with h | ⟨cause, _, h, _⟩
  · exact h
  · obtain ⟨files, hfiles⟩ : ∃ files, convertSpec "pets.yaml" swaggerDocument {} = .ok files := by
      rw [Convert.convertSpec_eq, Convert.readDocument_eq hparse]
      refine exists_of_isOk ?_
      decide +kernel
    rw [hfiles] at h
    cases h

end RestThrift
