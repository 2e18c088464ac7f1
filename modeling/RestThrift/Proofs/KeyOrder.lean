import Mathlib
import RestThrift.Proofs.Comparison
import RestThrift.Proofs.DistinctKeys
import RestThrift.Proofs.Reading
import RestThrift.Proofs.ReorderedReading

/-!
# The order of keys

Documents that differ only in the order of the entries of mappings are converted into the same
schema, or into none. Both are compared with the document in normal form: it is read into the same
tables and records, with default values in normal form, and default values have the same literals
in normal form, as literals of a mapping are sorted.
-/
namespace RestThrift

namespace Convert

open RestThrift.Yaml (Value)
open scoped List

/-! ## Literals -/

/-- The literal of an entry under its key. -/
def entryLiteral? (entry : Value × Value) : Option (String × Literal) :=
  match entry.1 with
  | .text key => (literal entry.2).toOption.map fun written => (key, written)
  | _ => none

theorem toOption_literalEntries (entries : List (Value × Value)) :
    (literalEntries entries).toOption = entries.mapM entryLiteral? := by
  induction entries with
  | nil => rfl
  | cons entry rest ih =>
    obtain ⟨key, value⟩ := entry
    rw [List.mapM_cons]
    cases key with
    | text key =>
      rw [literalEntries, toOption_bind, entryLiteral?]
      cases (literal value).toOption with
      | none => rfl
      | some first =>
        simp only [Option.bind_eq_bind, Option.bind_some, Option.map_some]
        rw [toOption_bind, ih]
        rfl
    | _ => rfl

theorem entryLiteral?_key {entry : Value × Value} {written : String × Literal}
    (h : entryLiteral? entry = some written) : Value.keyName entry.1 = written.1 := by
  rw [entryLiteral?] at h
  split at h
  · rename_i key hkey
    obtain ⟨l, -, rfl⟩ := Option.map_eq_some_iff.mp h
    rw [hkey, Value.keyName]
  · cases h

/-- Literals of entries with one key are those of the entries with that key. -/
theorem mapM_filter_key {entries : List (Value × Value)} {written : List (String × Literal)}
    (h : entries.mapM entryLiteral? = some written) (k : String) :
    (entries.filter fun entry => Value.keyName entry.1 = k).mapM entryLiteral? =
      some (written.filter fun entry => entry.1 = k) := by
  rw [Api.Reading.mapM_eq_some_iff] at h ⊢
  induction h with
  | nil => exact .nil
  | @cons entry w _ _ hentry _ ih =>
    rw [List.filter_cons, List.filter_cons, entryLiteral?_key hentry]
    split
    · exact .cons hentry ih
    · exact ih

/-- Entries in the order of their keys make the same table of literals. -/
theorem ofList_literals_byKey (entries : List (Value × Value)) :
    ((Value.byKey entries).mapM entryLiteral?).map Table.ofList =
      (entries.mapM entryLiteral?).map Table.ofList := by
  refine Api.Reading.ofList_mapM_perm (Value.byKey_perm entries) fun written others hwritten
    hothers _ => Table.ofList_eq_of_filter fun k => ?_
  have hfilter := mapM_filter_key hothers k
  rw [Value.byKey, Table.filter_mergeSort fun entry : Value × Value => Value.keyName entry.1,
    mapM_filter_key hwritten k] at hfilter
  exact (Option.some.inj hfilter).symm

mutual
theorem toOption_literal_normal (v : Value) :
    (literal v.normal).toOption = (literal v).toOption := by
  match v with
  | .null => rfl
  | .bool _ => rfl
  | .number _ => rfl
  | .text _ => rfl
  | .tagged _ _ => rfl
  | .sequence items =>
    simp only [Value.normal, literal]
    rw [toOption_map, toOption_map, toOption_literalItems_normal items]
  | .mapping entries =>
    simp only [Value.normal, literal]
    have htable : ∀ entries, ((literalEntries entries).map mapLiteral).toOption =
        ((entries.mapM entryLiteral?).map Table.ofList).map fun table =>
          .map (table.map fun entry => (.quoted entry.1, entry.2)) := by
      intro entries
      rw [toOption_map, toOption_literalEntries, Option.map_map]
      rfl
    rw [htable, htable, ofList_literals_byKey, entryLiterals_normal entries]

theorem toOption_literalItems_normal (items : List Value) :
    (literalItems (Value.normalItems items)).toOption = (literalItems items).toOption := by
  match items with
  | [] => rfl
  | item :: rest =>
    simp only [Value.normalItems, literalItems]
    simp only [toOption_bind, toOption_literal_normal item, toOption_literalItems_normal rest]

theorem entryLiterals_normal (entries : List (Value × Value)) :
    (Value.normalEntries entries).mapM entryLiteral? = entries.mapM entryLiteral? := by
  match entries with
  | [] => rfl
  | (key, value) :: rest =>
    simp only [Value.normalEntries, List.mapM_cons, entryLiterals_normal rest, entryLiteral?,
      toOption_literal_normal value]
end

/-- In normal form a default value has the same literal, or as well none. -/
theorem defaultLiteral_normal (property : String) (value : Value) :
    (defaultLiteral property value.normal).toOption = (defaultLiteral property value).toOption := by
  rcases cases_of_toOption_eq (toOption_literal_normal value) with
    ⟨written, hnormal, hvalue⟩ | ⟨cause, other, hnormal, hvalue⟩
  · simp only [defaultLiteral, Value.normal_untagged, hnormal, hvalue]
    cases value.untagged <;> rfl
  · simp only [defaultLiteral, Value.normal_untagged, hnormal, hvalue]
    cases value.untagged <;> rfl

theorem accepts_normal (choice : Api.Choice) (value : Value) :
    choice.accepts value.normal = choice.accepts value := by
  cases value <;> cases choice <;> rfl

/-! ## Conversions -/

/-- A document with its default values in normal form is converted alike. -/
theorem convert_normal (file : String) (document : Api.Document) (options : Options) :
    (convert file (document.edit Api.Reading.inOrder) options).toOption =
      (convert file document options).toOption :=
  convert_edit file document options rfl (fun _ => rfl) defaultLiteral_normal accepts_normal

theorem interpret_normal (file : String) {value : Value} (h : value.Keyed) :
    interpret file value.normal =
      (interpret file value).map (Api.Document.edit Api.Reading.inOrder) := by
  cases h with
  | @mapping entries htext hnodup hvalues =>
    simp only [Value.normal, interpret]
    rw [Api.Reading.detect_normal ⟨htext, hnodup, hvalues⟩]
    cases Api.Reading.detect entries with
    | error missing => rfl
    | ok found =>
      have hdocument := Api.Reading.sorting_lawful.document? found.1 found.2 (.mapping entries)
        (.mapping htext hnodup hvalues)
      simp only [Api.Reading.sorting, Value.normal] at hdocument
      simp only [hdocument]
      cases Api.Reading.document? found.1 found.2 (.mapping entries) <;> rfl
  | _ => rfl

/-- A value whose keys are different texts is converted as its normal form is. -/
theorem convert_interpret_normal (file : String) (options : Options) {value : Value}
    (h : value.Keyed) :
    (interpret file value.normal >>= fun document => convert file document options).toOption =
      (interpret file value >>= fun document => convert file document options).toOption := by
  rw [interpret_normal file h]
  cases interpret file value with
  | error cause => rfl
  | ok document => exact convert_normal file document options

end Convert

/-- Documents that differ only in the order of the entries of mappings, whose keys are texts, are
both converted into one schema, or neither is converted. -/
theorem convertDocument_ignores_key_order {file : String} {bytes others : List UInt8}
    {options : Options} {value reordered : Yaml.Value} (h : Yaml.parse? bytes = some value)
    (hothers : Yaml.parse? others = some reordered) (htext : value.TextKeys)
    (horder : value.Reordered reordered) :
    (∃ schema, convertDocument file bytes options = .ok schema ∧
      convertDocument file others options = .ok schema) ∨
    ∃ cause other, convertDocument file bytes options = .error cause ∧
      convertDocument file others options = .error other := by
  have hkeyed : value.Keyed := htext.keyed (Yaml.distinct_parse? h)
  obtain ⟨hnormal, hkeyed'⟩ := horder.normal_eq hkeyed
  refine Convert.cases_of_toOption_eq ?_
  rw [convertDocument, convertDocument, Convert.readDocument_eq h, Convert.readDocument_eq hothers,
    ← Convert.convert_interpret_normal file options hkeyed', ← hnormal,
    Convert.convert_interpret_normal file options hkeyed]

/-- Sections, properties and the entries of a default value stand in one order. -/
def tagDocument : List UInt8 :=
  ("swagger: \"2.0\"\npaths: {}\ndefinitions:\n  Tag:\n    properties:\n" ++
    "      size:\n        type: integer\n" ++
    "      marks:\n        default:\n          b: 1\n          a: [2]\n").toUTF8.data.toList

/-- They stand in another order. -/
def turnedDocument : List UInt8 :=
  ("swagger: \"2.0\"\ndefinitions:\n  Tag:\n    properties:\n" ++
    "      marks:\n        default:\n          a: [2]\n          b: 1\n" ++
    "      size:\n        type: integer\npaths: {}\n").toUTF8.data.toList

/-- A mapping with texts as keys. -/
def object (entries : List (String × Yaml.Value)) : Yaml.Value :=
  .mapping (entries.map (Prod.map .text id))

theorem textKeys_object {entries : List (String × Yaml.Value)} :
    (object entries).TextKeys ↔ ∀ entry ∈ entries, entry.2.TextKeys := by
  constructor
  · rintro (_ | _ | _ | _ | _ | ⟨-, h⟩)
    exact fun entry hentry => h _ (List.mem_map_of_mem hentry)
  · intro h
    refine .mapping (List.forall_mem_map.mpr fun entry _ => ⟨entry.1, rfl⟩) ?_
    exact List.forall_mem_map.mpr h

theorem tagDocument_ignores_key_order :
    ∃ schema, convertDocument "tags.yaml" tagDocument {} = .ok schema ∧
      convertDocument "tags.yaml" turnedDocument {} = .ok schema := by
  let dialect : String × Yaml.Value := ("swagger", .text "2.0")
  let paths : String × Yaml.Value := ("paths", object [])
  let size : String × Yaml.Value := ("size", object [("type", .text "integer")])
  let first : String × Yaml.Value := ("a", .sequence [.number (.int 2)])
  let second : String × Yaml.Value := ("b", .number (.int 1))
  let marks (entries : List (String × Yaml.Value)) : String × Yaml.Value :=
    ("marks", object [("default", object entries)])
  let definitions (properties : List (String × Yaml.Value)) : String × Yaml.Value :=
    ("definitions", object [("Tag", object [("properties", object properties)])])
  have hparse : Yaml.parse? tagDocument = some (object
      [dialect, paths, definitions [size, marks [second, first]]]) := by
    decide +kernel
  have hturned : Yaml.parse? turnedDocument = some (object
      [dialect, definitions [marks [first, second], size], paths]) := by
    decide +kernel
  have htext : (object [dialect, paths, definitions [size, marks [second, first]]]).TextKeys := by
    simp [dialect, paths, definitions, size, marks, first, second, textKeys_object,
      Yaml.Value.TextKeys.text, Yaml.Value.TextKeys.number, Yaml.Value.TextKeys.sequence]
  have horder : (object [dialect, paths, definitions [size, marks [second, first]]]).Reordered
      (object [dialect, definitions [marks [first, second], size], paths]) := by
    have hentry : ∀ name {value reordered : Yaml.Value}, value.Reordered reordered →
        (object [(name, value)]).Reordered (object [(name, reordered)]) :=
      fun name _ _ h => h.value [] [] (.text name)
    have hdefault : (object [second, first]).Reordered (object [first, second]) :=
      Yaml.Value.reordered_of_perm (.swap ..)
    have hproperties : (object [size, marks [second, first]]).Reordered
        (object [marks [first, second], size]) :=
      ((hentry "default" hdefault).value [(.text "size", size.2)] [] (.text "marks")).trans
        (Yaml.Value.reordered_of_perm (.swap ..))
    exact ((hentry "Tag" (hentry "properties" hproperties)).value
      [(.text "swagger", dialect.2), (.text "paths", paths.2)] [] (.text "definitions")).trans
        (Yaml.Value.reordered_of_perm (.cons _ (.swap ..)))
  rcases convertDocument_ignores_key_order hparse hturned htext horder with h | ⟨cause, _, h, _⟩
  · exact h
  · obtain ⟨schema, hschema⟩ := exists_of_isOk (x := convertDocument "tags.yaml" tagDocument {})
      (by decide +kernel)
    rw [hschema] at h
    cases h

end RestThrift
