import Mathlib
import RestThrift.Proofs.Assembly

/-!
# Documents that are read

Sections of a document are read into sorted tables, whatever entries they repeat: no key names two
schemas, and paths and responses stand in order.
-/
namespace RestThrift

namespace Api.Reading

open RestThrift.Yaml (Value)

variable {α : Type} {fields : Fields} {name : String} {read : Value → Option α} {P : α → Prop}

theorem Fields.withDefault_keeps {otherwise a : α} (hotherwise : P otherwise)
    (hread : ∀ value a, read value = some a → P a)
    (h : fields.withDefault name otherwise read = some a) : P a := by
  rw [withDefault] at h
  split at h
  · exact hread _ _ h
  · exact Option.some.inj h ▸ hotherwise

theorem Fields.optional_keeps {a : Option α} (hread : ∀ value a, read value = some a → P a)
    (h : fields.optional name read = some a) : ∀ b ∈ a, P b := by
  rw [optional] at h
  split at h
  · exact Option.some.inj h ▸ by simp
  · exact Option.some.inj h ▸ by simp
  · obtain ⟨b, hb, rfl⟩ := Option.map_eq_some_iff.mp h
    intro c hc
    obtain rfl := Option.some.inj hc
    exact hread _ _ hb

theorem Fields.optional_eq {v : Value} (h : fields.lookup name = some v) (hv : v ≠ .null) :
    fields.optional name read = (read v).map some := by
  rw [optional, h]
  split
  · rename_i heq
    cases heq
  · rename_i heq
    exact absurd (Option.some.inj heq) hv
  · rename_i heq
    rw [Option.some.inj heq]

theorem mapM_eq_some_iff {β : Type} {g : α → Option β} {l : List α} {bs : List β} :
    l.mapM g = some bs ↔ List.Forall₂ (fun a b => g a = some b) l bs := by
  induction l generalizing bs with
  | nil => simp [eq_comm]
  | cons a rest ih =>
    simp only [List.mapM_cons, Convert.bind_eq_some, ih]
    constructor
    · rintro ⟨b, hb, others, hothers, h⟩
      obtain rfl := Option.some.inj h
      exact .cons hb hothers
    · rintro (_ | ⟨hb, hothers⟩)
      exact ⟨_, hb, _, hothers, rfl⟩

theorem exists_of_mem_mapM {β : Type} {f : α → Option β} {l : List α} {l' : List β} {b : β}
    (h : l.mapM f = some l') (hb : b ∈ l') : ∃ a ∈ l, f a = some b :=
  Convert.exists_left_of_forall₂ (R := fun a b => f a = some b) (mapM_eq_some_iff.mp h) hb

/-- A key names a field by its text, or else by the field's number. -/
theorem key_of_field? {s : Setting} {names : List String} {key : Value}
    (h : s.field? names key = some (some name)) : key.untagged = .text name ∨
      s = .strict ∧ ∃ n, key = .number (.int n) ∧ names[n.toNat]? = some name := by
  have htext : ∀ text, s.strip key = .text text → key.untagged = .text text := by
    intro text hkey
    cases s with
    | lenient => exact hkey
    | strict =>
      obtain rfl : key = .text text := hkey
      rfl
  unfold Setting.field? at h
  split at h
  · rename_i hkey
    split at h
    · obtain rfl := Option.some.inj (Option.some.inj h)
      exact .inl (htext _ hkey)
    · cases h
  · rename_i n hkey
    split at h
    · exact .inr ⟨rfl, n, hkey, Option.some.inj h⟩
    · cases h
  · cases h

section Tables

variable {s : Setting} {name? : Value → Option String} {value : Value} {table : Table α}

theorem sorted_table? (h : s.table? name? read value = some table) : table.Sorted := by
  obtain ⟨entries, -, h⟩ := Option.bind_eq_some_iff.mp h
  obtain ⟨named, -, rfl⟩ := Option.map_eq_some_iff.mp h
  exact Table.sorted_ofList named

theorem table?_keeps (hread : ∀ value a, read value = some a → P a)
    (h : s.table? name? read value = some table) : ∀ entry ∈ table, P entry.2 := by
  obtain ⟨entries, -, h⟩ := Option.bind_eq_some_iff.mp h
  obtain ⟨named, hnamed, rfl⟩ := Option.map_eq_some_iff.mp h
  intro entry hentry
  obtain ⟨pair, -, hpair⟩ := exists_of_mem_mapM hnamed (Table.mem_of_mem_ofList hentry)
  simp only [Convert.bind_eq_some] at hpair
  obtain ⟨key, -, content, hcontent, h⟩ := hpair
  obtain rfl := Option.some.inj h
  exact hread _ _ hcontent

end Tables

/-! ## Operations -/

theorem sorted_operation? {value : Value} {operation : Operation}
    (h : operation? value = some operation) : operation.responses.Sorted := by
  simp only [operation?, Convert.bind_eq_some] at h
  obtain ⟨fields, -, _, -, _, -, _, -, _, -, responses, hresponses, h⟩ := h
  obtain rfl := Option.some.inj h
  exact Fields.withDefault_keeps Table.sorted_nil (fun _ _ h => sorted_table? h) hresponses

/-- The responses of each operation stand in a sorted table. -/
def Ordered (item : PathItem) : Prop :=
  ∀ method operation, item.operation? method = some operation → operation.responses.Sorted

theorem ordered_pathItem? {value : Value} {item : PathItem} (h : pathItem? value = some item) :
    Ordered item := by
  simp only [pathItem?, Convert.bind_eq_some] at h
  obtain ⟨fields, -, operations, hoperations, parameters, -, h⟩ := h
  obtain rfl := Option.some.inj h
  intro method operation hfound
  obtain ⟨entry, hentry, rfl⟩ := List.mem_filterMap.mp (Table.mem_of_lookup hfound)
  obtain ⟨m, -, hread⟩ := exists_of_mem_mapM hoperations hentry
  obtain ⟨read, hoperation, heq⟩ := Option.bind_eq_some_iff.mp hread
  obtain ⟨found, rfl, hpair⟩ := Option.map_eq_some_iff.mp (Option.some.inj heq)
  obtain ⟨-, rfl⟩ := Prod.mk.inj hpair
  exact Fields.optional_keeps (fun _ _ h => sorted_operation? h) hoperation found rfl

/-! ## Documents -/

section Sections

variable {P : Table Schema → Prop} {Q : Table PathItem → Prop} (hnone : P [])
  (hschemas : ∀ value table, schemas? value = some table → P table)
include hnone hschemas

theorem components?_keeps {value : Value} {table : Table Schema}
    (h : components? value = some table) : P table := by
  obtain ⟨fields, -, h⟩ := Option.bind_eq_some_iff.mp h
  exact Fields.withDefault_keeps hnone hschemas h

/-- What holds of each table that can be read, and of an empty one, holds of the tables of a
document, whichever section they stand in. -/
theorem document?_keeps (hnothing : Q [])
    (hpaths : ∀ value table,
      Setting.lenient.table? lenientText? pathItem? value = some table → Q table)
    {dialect : Dialect} {version : String} {root : Value} {document : Document}
    (h : document? dialect version root = some document) :
    P document.schemas ∧ Q document.paths := by
  simp only [document?, Convert.bind_eq_some] at h
  obtain ⟨fields, -, paths, hread, components, hcomponents, definitions, hdefinitions, h⟩ := h
  obtain rfl := Option.some.inj h
  refine ⟨?_, Fields.withDefault_keeps hnothing hpaths hread⟩
  cases dialect with
  | openApi3 =>
    have hall := Fields.optional_keeps (fun _ _ h => components?_keeps hnone hschemas h) hcomponents
    cases components with
    | none => exact hnone
    | some table => exact hall table rfl
  | swagger2 => exact Fields.withDefault_keeps hnone hschemas hdefinitions

end Sections

end Api.Reading

/-- The tables of a document are sorted. -/
structure Api.Document.Sorted (document : Api.Document) : Prop where
  schemas : document.schemas.Sorted
  paths : document.paths.Sorted
  items : ∀ entry ∈ document.paths, Api.Reading.Ordered entry.2

theorem Api.Reading.document?_sorted {dialect : Dialect} {version : String} {root : Yaml.Value}
    {document : Document} (h : document? dialect version root = some document) :
    document.Sorted := by
  obtain ⟨hschemas, hpaths, hitems⟩ := document?_keeps (P := Table.Sorted)
    (Q := fun table => table.Sorted ∧ ∀ entry ∈ table, Ordered entry.2) Table.sorted_nil
    (fun _ _ h => sorted_table? h) ⟨Table.sorted_nil, fun _ h => absurd h List.not_mem_nil⟩
    (fun _ _ h => ⟨sorted_table? h, table?_keeps (fun _ _ h => ordered_pathItem? h) h⟩) h
  exact ⟨hschemas, hpaths, hitems⟩

/-- A document is read from a mapping, in the dialect that is detected. -/
theorem readDocument_spec {file : String} {bytes : List UInt8} {document : Api.Document}
    (h : readDocument file bytes = .ok document) : ∃ entries dialect version,
      Yaml.parse? bytes = some (.mapping entries) ∧
      Api.Reading.detect entries = .ok (dialect, version) ∧
      Api.Reading.document? dialect version (.mapping entries) = some document := by
  rw [readDocument] at h
  split at h
  · cases h
  · rename_i entries hparse
    split at h
    · cases h
    · rename_i dialect version hdetect
      split at h
      · rename_i hdocument
        obtain rfl := Except.ok.inj h
        exact ⟨entries, dialect, version, hparse, hdetect, hdocument⟩
      · cases h
  · cases h

theorem convertDocument_of_read {file : String} {bytes : List UInt8} {document : Api.Document}
    (h : readDocument file bytes = .ok document) (options : Options) :
    convertDocument file bytes options = convert file document options := by
  rw [convertDocument, h]
  rfl

theorem readDocument_sorted {file : String} {bytes : List UInt8} {document : Api.Document}
    (h : readDocument file bytes = .ok document) : document.Sorted := by
  obtain ⟨entries, dialect, version, -, -, hdocument⟩ := readDocument_spec h
  exact Api.Reading.document?_sorted hdocument

namespace Convert

/-- The document that a value is. -/
def interpret (file : String) (value : Yaml.Value) : Except ConversionError Api.Document :=
  match value with
  | .mapping entries =>
    match Api.Reading.detect entries with
    | .error missing => .error (.unknownDialect file missing)
    | .ok (dialect, version) =>
      match Api.Reading.document? dialect version (.mapping entries) with
      | some document => .ok document
      | none => .error (.unexpectedShape file dialect)
  | _ => .error (.notAnObject file)

theorem readDocument_eq {file : String} {bytes : List UInt8} {value : Yaml.Value}
    (h : Yaml.parse? bytes = some value) : readDocument file bytes = interpret file value := by
  rw [readDocument, h]
  cases value <;> rfl

/-- A document that is converted is read and finished. -/
theorem convertDocument_finished {file : String} {bytes : List UInt8} {options : Options}
    {schema : Schema} (h : convertDocument file bytes options = .ok schema) :
    ∃ document plan answers w, readDocument file bytes = .ok document ∧
      plan.stem = outputStem file ∧
      plan.glossary = { schemas := document.schemas, policy := options.policy } ∧
      answers.map Answer.call = calls document.paths ∧
      Finished plan (Api.StatedIn document.paths) options.serviceName answers w schema := by
  obtain ⟨document, hread, hconvert⟩ := bind_eq_ok.mp h
  obtain ⟨answers, w, hfinished⟩ :=
    convert_finished (readDocument_sorted hread).schemas.nodup hconvert
  exact ⟨document, _, answers, w, hread, rfl, rfl, hfinished⟩

/-- A document that is converted is read, and its conversion takes a course that it finishes. -/
theorem convertDocument_course {file : String} {bytes : List UInt8} {options : Options}
    {schema : Schema} (h : convertDocument file bytes options = .ok schema) :
    ∃ document plan w₀ w, readDocument file bytes = .ok document ∧
      document.schemas.keys.Nodup ∧ plan.glossary = ⟨document.schemas, options.policy⟩ ∧
      Course file options document plan w₀ w schema ∧ ∃ answers w', w ≤ w' ∧
        Finished plan (Api.StatedIn document.paths) options.serviceName answers w' schema := by
  obtain ⟨document, hread, hconvert⟩ := bind_eq_ok.mp h
  have hn := (readDocument_sorted hread).schemas.nodup
  obtain ⟨plan, w₀, w, hcourse, answers, -, w', hle, hfinished⟩ := convert_course hn hconvert
  obtain ⟨hglossary, -⟩ := Plan.of_coherent (fun _ => True) hn hcourse.planned
  exact ⟨document, plan, w₀, w, hread, hn, hglossary, hcourse, answers, w', hle, hfinished⟩

end Convert

/-- Two operations that ask for one name, and an enumeration inside a named schema. -/
def petDocument : List UInt8 :=
  ("swagger: \"2.0\"\npaths:\n" ++
    "  /pets-all:\n    get:\n      parameters:\n      - name: limit\n        in: header\n" ++
    "      responses:\n        200:\n          schema:\n            $ref: Pet\n" ++
    "  /pets/all:\n    get:\n      parameters:\n      - name: limit\n        in: query\n" ++
    "      responses:\n        200:\n          schema:\n            type: string\n" ++
    "definitions:\n  Pet:\n    properties:\n" ++
    "      kind:\n        enum: [cat, dog]\n").toUTF8.data.toList

theorem exists_of_isOk {ε α : Type} {x : Except ε α} (h : x.isOk = true) : ∃ a, x = .ok a := by
  cases x with
  | ok a => exact ⟨a, rfl⟩
  | error cause => simp [Except.isOk, Except.toBool] at h

/-- What is seen of a result is there when it is computed. -/
theorem exists_of_toOption {ε α β : Type} {x : Except ε α} {view : α → β} {b : β}
    (h : x.toOption.map view = some b) : ∃ a, x = .ok a ∧ view a = b := by
  cases x with
  | ok a => exact ⟨a, rfl, Option.some.inj h⟩
  | error cause => cases h

theorem petDocument_converts :
    ∃ schema, convertDocument "pets.yaml" petDocument { policy := .strict } = .ok schema := by
  refine exists_of_isOk ?_
  decide +kernel

end RestThrift
