import Mathlib
import RestThrift.Proofs.Reading

/-!
# Nested schemas

The depth of a value bounds the steps that reading a schema from it takes. Whatever stands in a
list, a table or a record is nested less deep, so that steps beyond the depth change nothing.
-/
namespace RestThrift

namespace Yaml.Value

theorem depth_pos (v : Value) : 0 < v.depth := by cases v <;> simp [depth]

theorem depth_le_depthItems {v : Value} {items : List Value} (h : v ∈ items) :
    v.depth ≤ depthItems items := by
  induction items with
  | nil => cases h
  | cons item rest ih =>
    rcases List.mem_cons.mp h with rfl | h
    · exact le_max_left _ _
    · exact le_max_of_le_right (ih h)

theorem depth_le_depthEntries {entry : Value × Value} {entries : List (Value × Value)}
    (h : entry ∈ entries) : entry.2.depth ≤ depthEntries entries := by
  induction entries with
  | nil => cases h
  | cons first rest ih =>
    rcases List.mem_cons.mp h with rfl | h
    · exact le_max_left _ _
    · exact le_max_of_le_right (ih h)

theorem depth_untagged_le (v : Value) : v.untagged.depth ≤ v.depth := by
  match v with
  | .tagged _ value => exact (depth_untagged_le value).trans (Nat.le_succ _)
  | .null | .bool _ | .number _ | .text _ | .sequence _ | .mapping _ => exact le_rfl

end Yaml.Value

namespace Api.Reading

open RestThrift.Yaml (Value)

variable {α : Type} {read read' : Value → Option α} {s : Setting} {v inner : Value}
  {names : List String} {name : String} {fields found : Fields} {entries : List (Value × Value)}

/-! ## What stands inside of a value -/

theorem depth_strip_le (v : Value) : (s.strip v).depth ≤ v.depth := by
  cases s with
  | strict => exact le_rfl
  | lenient => exact v.depth_untagged_le

theorem depth_of_items? {items : List Value} (h : s.items? v = some items) (hv : inner ∈ items) :
    inner.depth < v.depth := by
  refine lt_of_lt_of_le ?_ (depth_strip_le (s := s) v)
  unfold Setting.items? at h
  split at h
  · obtain rfl := Option.some.inj h
    rename_i heq
    rw [heq]
    exact Nat.lt_succ_of_le (Value.depth_le_depthItems hv)
  · obtain rfl := Option.some.inj h
    cases hv
  · cases h

theorem depth_of_entries? {entry : Value × Value} (h : s.entries? v = some entries)
    (hentry : entry ∈ entries) : entry.2.depth < v.depth := by
  refine lt_of_lt_of_le ?_ (depth_strip_le (s := s) v)
  unfold Setting.entries? at h
  split at h
  · obtain rfl := Option.some.inj h
    rename_i heq
    rw [heq]
    exact Nat.lt_succ_of_le (Value.depth_le_depthEntries hentry)
  · obtain rfl := Option.some.inj h
    cases hentry
  · cases h

theorem mem_of_collect? {field : String × Value}
    (h : s.collect? names entries fields = some found) (hfield : field ∈ found) :
    field ∈ fields ∨ ∃ key, (key, field.2) ∈ entries := by
  induction entries generalizing fields with
  | nil =>
    obtain rfl := Option.some.inj h
    exact .inl hfield
  | cons entry rest ih =>
    obtain ⟨key, value⟩ := entry
    simp only [Setting.collect?] at h
    split at h
    · cases h
    · rcases ih h with hfield | ⟨other, hentry⟩
      · exact .inl hfield
      · exact .inr ⟨other, List.mem_cons_of_mem _ hentry⟩
    · split at h
      · cases h
      · rcases ih h with hfield | ⟨other, hentry⟩
        · rcases List.mem_append.mp hfield with hfield | hfield
          · exact .inl hfield
          · obtain rfl := List.mem_singleton.mp hfield
            exact .inr ⟨key, List.mem_cons_self⟩
        · exact .inr ⟨other, List.mem_cons_of_mem _ hentry⟩

/-- Fields are nested less deep than the record. -/
theorem depth_of_record? (h : s.record? names v = some fields)
    (hinner : fields.lookup name = some inner) : inner.depth < v.depth := by
  have hmem := Table.mem_of_lookup hinner
  unfold Setting.record? at h
  split at h
  · split at h
    · obtain rfl := Option.some.inj h
      exact Nat.lt_succ_of_le (Value.depth_le_depthItems (List.of_mem_zip hmem).2)
    · cases h
  · obtain ⟨entries, hentries, h⟩ := Option.bind_eq_some_iff.mp h
    rcases mem_of_collect? h hmem with hnil | ⟨key, hentry⟩
    · cases hnil
    · exact depth_of_entries? hentries hentry

/-! ## Readers that agree on nested values -/

theorem Fields.optional_congr
    (h : ∀ inner, fields.lookup name = some inner → read inner = read' inner) :
    fields.optional name read = fields.optional name read' := by
  rw [optional, optional]
  split
  · rfl
  · rfl
  · rw [h _ ‹_›]

theorem Fields.withDefault_congr {otherwise : α}
    (h : ∀ inner, fields.lookup name = some inner → read inner = read' inner) :
    fields.withDefault name otherwise read = fields.withDefault name otherwise read' := by
  rw [withDefault, withDefault]
  split
  · exact h _ ‹_›
  · rfl

theorem list?_congr (h : ∀ inner : Value, inner.depth < v.depth → read inner = read' inner) :
    s.list? read v = s.list? read' v := by
  rw [Setting.list?, Setting.list?]
  refine Option.bind_congr fun items hitems => ?_
  exact Convert.mapM_congr fun item hitem => h item (depth_of_items? hitems hitem)

theorem table?_congr {name? : Value → Option String}
    (h : ∀ inner : Value, inner.depth < v.depth → read inner = read' inner) :
    s.table? name? read v = s.table? name? read' v := by
  rw [Setting.table?, Setting.table?]
  refine Option.bind_congr fun entries hentries => congrArg _ ?_
  refine Convert.mapM_congr fun entry hentry => ?_
  rw [h entry.2 (depth_of_entries? hentries hentry)]

/-- Steps beyond the depth of a value do not change what is read. -/
theorem schemaWithin?_eq {n m : Nat} (hn : v.depth ≤ n) (hm : v.depth ≤ m) :
    schemaWithin? n s v = schemaWithin? m s v := by
  induction n generalizing m s v with
  | zero => exact absurd hn (Nat.not_le.mpr (v.depth_pos))
  | succ n ih =>
    obtain ⟨m, rfl⟩ : ∃ k, m = k + 1 := ⟨m - 1, by have := v.depth_pos; omega⟩
    simp only [schemaWithin?]
    refine Option.bind_congr fun fields hfields => ?_
    -- The values in a field are read with one step less on both sides.
    have hread : ∀ s name inner, fields.lookup name = some inner → ∀ value : Value,
        value.depth ≤ inner.depth → schemaWithin? n s value = schemaWithin? m s value := by
      intro s name inner hinner value hvalue
      have hless := depth_of_record? hfields hinner
      exact ih (by omega) (by omega)
    have hproperties : fields.withDefault "properties" []
        (s.table? s.text? (schemaWithin? n s)) = fields.withDefault "properties" []
          (s.table? s.text? (schemaWithin? m s)) :=
      Fields.withDefault_congr fun inner h => table?_congr fun value hvalue =>
        hread s _ inner h value hvalue.le
    have hitems : fields.optional "items" (schemaWithin? n s) =
        fields.optional "items" (schemaWithin? m s) :=
      Fields.optional_congr fun inner h => hread s _ inner h inner le_rfl
    have hparts : fields.withDefault "allOf" [] (s.list? (schemaWithin? n s)) =
        fields.withDefault "allOf" [] (s.list? (schemaWithin? m s)) :=
      Fields.withDefault_congr fun inner h => list?_congr fun value hvalue =>
        hread s _ inner h value hvalue.le
    have hadditional : fields.optional "additionalProperties"
        (additional? (schemaWithin? n .strict)) = fields.optional "additionalProperties"
          (additional? (schemaWithin? m .strict)) := by
      refine Fields.optional_congr fun inner h => ?_
      have hinner := hread .strict _ inner h inner le_rfl
      cases inner with
      | bool b => rfl
      | _ => simp only [additional?, hinner]
    rw [hproperties, hitems, hparts, hadditional]

end Api.Reading

end RestThrift
