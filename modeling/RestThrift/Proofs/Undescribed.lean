import Mathlib
import RestThrift.Api.Reading.Document
import RestThrift.Proofs.Nesting

/-!
# Values without descriptions

Schemas, parameters, bodies, responses and operations may have a description, operations a summary
too. In a value they stand where the value is read as such a part: not among the names of a table,
and not inside of a default value.
-/
namespace RestThrift.Api.Reading

open RestThrift.Yaml (Value)

/-! ## Parts of documents -/

/-- What a value is read as. -/
inductive Part
  | document
  | components
  | pathItem
  | operation
  | parameter
  | requestBody
  | response
  | mediaType
  | schema
  | table (inner : Part)
  | list (inner : Part)
  /-- Texts, flags, listed values and default values, and whatever is not read. -/
  | other

namespace Part

/-- The fields in which other parts stand. -/
def fields : Part → List (String × Part)
  | .document =>
    [("paths", .table .pathItem), ("components", .components), ("definitions", .table .schema)]
  | .components => [("schemas", .table .schema)]
  | .pathItem =>
    ("parameters", .list .parameter) :: Method.all.map fun method => (method.name, .operation)
  | .operation =>
    [("parameters", .list .parameter), ("requestBody", .requestBody),
      ("responses", .table .response)]
  | .parameter => [("schema", .schema), ("items", .schema)]
  | .requestBody => [("content", .table .mediaType)]
  | .response => [("content", .table .mediaType), ("schema", .schema)]
  | .mediaType => [("schema", .schema)]
  | .schema =>
    [("properties", .table .schema), ("items", .schema), ("allOf", .list .schema),
      ("additionalProperties", .schema)]
  | .table _ | .list _ | .other => []

/-- The fields that describe the part. -/
def descriptions : Part → List String
  | .operation => ["summary", "description"]
  | .parameter | .requestBody | .response | .schema => ["description"]
  | _ => []

/-- What stands under a name, unless it is a description. -/
def inside? (part : Part) (name : String) : Option Part :=
  match part with
  | .table inner | .list inner => some inner
  | part =>
    if part.descriptions.contains name then none else some ((part.fields.lookup name).getD .other)

/-- The field with a number; only those of a schema have one. -/
def numbered (part : Part) (n : Nat) : String :=
  match part with
  | .schema => schemaFields[n]?.getD ""
  | _ => ""

/-- The field that a key names. -/
def named (part : Part) (key : Value) : String :=
  match key.untagged with
  | .text name => name
  | .number (.int n) => part.numbered n.toNat
  | _ => ""

end Part

mutual
/-- The value without the descriptions in it. A schema that is given as the list of its fields has
null in place of its description. -/
def undescribed (part : Part) : Value → Value
  | .sequence items => .sequence (undescribedItems part 0 items)
  | .mapping entries => .mapping (undescribedEntries part entries)
  | .tagged tag value => .tagged tag (undescribed part value)
  | .null => .null
  | .bool b => .bool b
  | .number n => .number n
  | .text s => .text s

def undescribedItems (part : Part) (position : Nat) : List Value → List Value
  | [] => []
  | item :: rest =>
    let rest := undescribedItems part (position + 1) rest
    match part.inside? (part.numbered position) with
    | some inner => undescribed inner item :: rest
    | none => .null :: rest

def undescribedEntries (part : Part) : List (Value × Value) → List (Value × Value)
  | [] => []
  | (key, value) :: rest =>
    let rest := undescribedEntries part rest
    match part.inside? (part.named key) with
    | some inner => (key, undescribed inner value) :: rest
    | none => rest
end

section Values

variable {part inner : Part} {s : Setting} {v : Value} {items : List Value}
  {entries : List (Value × Value)} {position : Nat}

theorem undescribed_untagged (v : Value) :
    (undescribed part v).untagged = undescribed part v.untagged := by
  match v with
  | .tagged _ value => exact undescribed_untagged value
  | .null | .bool _ | .number _ | .text _ | .sequence _ | .mapping _ => rfl

theorem strip_undescribed : s.strip (undescribed part v) = undescribed part (s.strip v) := by
  cases s with
  | lenient => exact undescribed_untagged v
  | strict => rfl

theorem undescribed_eq_null_iff : undescribed part v = .null ↔ v = .null := by
  cases v <;> simp [undescribed]

mutual
theorem depth_undescribed_le (part : Part) (v : Value) :
    (undescribed part v).depth ≤ v.depth := by
  match v with
  | .null | .bool _ | .number _ | .text _ => exact le_rfl
  | .sequence items => exact Nat.succ_le_succ (depth_undescribedItems_le part 0 items)
  | .mapping entries => exact Nat.succ_le_succ (depth_undescribedEntries_le part entries)
  | .tagged _ value => exact Nat.succ_le_succ (depth_undescribed_le part value)

theorem depth_undescribedItems_le (part : Part) (position : Nat) (items : List Value) :
    Value.depthItems (undescribedItems part position items) ≤ Value.depthItems items := by
  match items with
  | [] => exact le_rfl
  | item :: rest =>
    have hrest := depth_undescribedItems_le part (position + 1) rest
    simp only [undescribedItems]
    split
    · exact max_le_max (depth_undescribed_le _ item) hrest
    · exact max_le_max (item.depth_pos) hrest

theorem depth_undescribedEntries_le (part : Part) (entries : List (Value × Value)) :
    Value.depthEntries (undescribedEntries part entries) ≤ Value.depthEntries entries := by
  match entries with
  | [] => exact le_rfl
  | (key, value) :: rest =>
    have hrest := depth_undescribedEntries_le part rest
    simp only [undescribedEntries]
    split
    · exact max_le_max (depth_undescribed_le _ value) hrest
    · exact le_max_of_le_right hrest
end

mutual
theorem hasTag_undescribed (part : Part) (v : Value) (h : v.hasTag = false) :
    (undescribed part v).hasTag = false := by
  match v with
  | .null | .bool _ | .number _ | .text _ => rfl
  | .sequence items => exact hasTag_undescribedItems part 0 items h
  | .mapping entries => exact hasTag_undescribedEntries part entries h

theorem hasTag_undescribedItems (part : Part) (position : Nat) (items : List Value)
    (h : Value.hasTagItems items = false) :
    Value.hasTagItems (undescribedItems part position items) = false := by
  match items with
  | [] => rfl
  | item :: rest =>
    obtain ⟨hitem, hrest⟩ := Bool.or_eq_false_iff.mp h
    have hrest := hasTag_undescribedItems part (position + 1) rest hrest
    simp only [undescribedItems]
    split
    · exact Bool.or_eq_false_iff.mpr ⟨hasTag_undescribed _ item hitem, hrest⟩
    · exact hrest

theorem hasTag_undescribedEntries (part : Part) (entries : List (Value × Value))
    (h : Value.hasTagEntries entries = false) :
    Value.hasTagEntries (undescribedEntries part entries) = false := by
  match entries with
  | [] => rfl
  | (key, value) :: rest =>
    obtain ⟨hentry, hrest⟩ := Bool.or_eq_false_iff.mp h
    obtain ⟨hkey, hvalue⟩ := Bool.or_eq_false_iff.mp hentry
    have hrest := hasTag_undescribedEntries part rest hrest
    simp only [undescribedEntries]
    split
    · exact Bool.or_eq_false_iff.mpr
        ⟨Bool.or_eq_false_iff.mpr ⟨hkey, hasTag_undescribed _ value hvalue⟩, hrest⟩
    · exact hrest
end

mutual
theorem undescribed_other (v : Value) : undescribed .other v = v := by
  match v with
  | .null | .bool _ | .number _ | .text _ => rfl
  | .sequence items => simp only [undescribed, undescribedItems_other 0 items]
  | .mapping entries => simp only [undescribed, undescribedEntries_other entries]
  | .tagged _ value => simp only [undescribed, undescribed_other value]

theorem undescribedItems_other (position : Nat) (items : List Value) :
    undescribedItems .other position items = items := by
  match items with
  | [] => rfl
  | item :: rest =>
    have hitem : ∀ name, Part.other.inside? name = some .other := fun _ => rfl
    simp only [undescribedItems, hitem, undescribed_other item,
      undescribedItems_other (position + 1) rest]

theorem undescribedEntries_other (entries : List (Value × Value)) :
    undescribedEntries .other entries = entries := by
  match entries with
  | [] => rfl
  | (key, value) :: rest =>
    have hvalue : ∀ name, Part.other.inside? name = some .other := fun _ => rfl
    simp only [undescribedEntries, hvalue, undescribed_other value,
      undescribedEntries_other rest]
end

theorem undescribedItems_eq_map (h : ∀ name, part.inside? name = some inner) :
    undescribedItems part position items = items.map (undescribed inner) := by
  induction items generalizing position with
  | nil => rfl
  | cons item rest ih => simp only [undescribedItems, h, ih, List.map_cons]

theorem undescribedEntries_eq_map (h : ∀ name, part.inside? name = some inner) :
    undescribedEntries part entries =
      entries.map (Prod.map id (undescribed inner)) := by
  induction entries with
  | nil => rfl
  | cons entry rest ih =>
    simp only [undescribedEntries, h, ih, List.map_cons, Prod.map, id]

theorem items?_undescribed (v : Value) :
    s.items? (undescribed part v) = (s.items? v).map (undescribedItems part 0) := by
  unfold Setting.items?
  rw [strip_undescribed]
  cases s.strip v with
  | sequence items => rfl
  | _ => cases s <;> rfl

theorem entries?_undescribed (v : Value) :
    s.entries? (undescribed part v) = (s.entries? v).map (undescribedEntries part) := by
  unfold Setting.entries?
  rw [strip_undescribed]
  cases s.strip v with
  | mapping entries => rfl
  | _ => cases s <;> rfl

end Values

end RestThrift.Api.Reading
