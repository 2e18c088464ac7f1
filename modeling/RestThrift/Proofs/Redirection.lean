import Mathlib
import RestThrift.Proofs.Reordering
import RestThrift.Proofs.Rewriting

/-!
# References into either section

Named schemas stand in a section of their dialect, which their references start with. Redirected
references all start with the OpenAPI section; they name the same schemas, and a redirected document
is read into the same tables and records but for its references.
-/
namespace RestThrift

namespace Convert

theorem dropStart?_append (start text : List Char) :
    dropStart? start (start ++ text) = some text := by
  induction start with
  | nil => rfl
  | cons c rest ih => rw [List.cons_append, dropStart?, if_pos rfl, ih]

theorem eq_append_of_dropStart? {start text rest : List Char}
    (h : dropStart? start text = some rest) : text = start ++ rest := by
  induction start generalizing text with
  | nil => exact Option.some.inj h
  | cons c start ih =>
    cases text with
    | nil => cases h
    | cons d text =>
      rw [dropStart?] at h
      split at h
      · rename_i hc
        rw [hc, ih h, List.cons_append]
      · cases h

/-- The reference with the OpenAPI section in place of the Swagger one. -/
def openApiReference (reference : String) : String :=
  match dropStart? "#/definitions/".toList reference.toList with
  | some key => String.ofList ("#/components/schemas/".toList ++ key)
  | none => reference

theorem definitionKey_openApiReference (reference : String) :
    definitionKey (openApiReference reference) = definitionKey reference := by
  rw [openApiReference]
  split
  · rename_i key hkey
    have hother : dropStart? "#/components/schemas/".toList reference.toList = none := by
      rw [eq_append_of_dropStart? hkey]
      rfl
    simp only [definitionKey, referenceStarts, List.findSome?, String.toList_ofList,
      dropStart?_append, hother, hkey, Option.getD_some]
  · rfl

theorem openApiReference_idem (reference : String) :
    openApiReference (openApiReference reference) = openApiReference reference := by
  cases hkey : dropStart? "#/definitions/".toList reference.toList with
  | none => simp only [openApiReference, hkey]
  | some key =>
    have hother : dropStart? "#/definitions/".toList
        ("#/components/schemas/".toList ++ key) = none := rfl
    simp only [openApiReference, hkey, String.toList_ofList, hother]

end Convert

namespace Api.Reading

open RestThrift.Yaml (Value)
open RestThrift.Convert (openApiReference)

/-! ## Redirected values -/

namespace Role

/-- A text stands for itself, or for a reference. In place of a schema or an object it stands for
nothing at all, unless their table is one that has a reference for a name. -/
def spell : Role → String → String
  | .reference, text | .schema, text | .object, text => openApiReference text
  | _, text => text

/-- The role of what stands at a position of a list. -/
def item (role : Role) (position : Nat) : Role :=
  match role with
  | .default => .default
  | .schema => Role.schema.field (schemaFields[position]?.getD "")
  | .schemas => .schema
  | .objects => .object
  | .plain | .reference | .object => .plain

/-- The role of what stands under a key. -/
def under (role : Role) (key : Value) : Role :=
  match key.untagged with
  | .text name => role.field name
  | .number (.int n) => role.item n.toNat
  | _ => role.item 0

end Role

mutual
/-- The value with its references redirected, those inside of default values excepted. -/
def redirect (role : Role) : Value → Value
  | .text s => .text (role.spell s)
  | .sequence items => .sequence (redirectItems role 0 items)
  | .mapping entries => .mapping (redirectEntries role entries)
  | .tagged tag value => .tagged tag (redirect role value)
  | .null => .null
  | .bool b => .bool b
  | .number n => .number n

def redirectItems (role : Role) (position : Nat) : List Value → List Value
  | [] => []
  | item :: rest => redirect (role.item position) item :: redirectItems role (position + 1) rest

def redirectEntries (role : Role) : List (Value × Value) → List (Value × Value)
  | [] => []
  | (key, value) :: rest => (key, redirect (role.under key) value) :: redirectEntries role rest
end

/-- References are redirected, whatever values they stand in. -/
def redirection : Rewriting where
  apply := redirect
  edit := { reference := openApiReference }
  Fits _ := True

section Redirect

variable {role inner outer : Role} {items : List Value} {entries : List (Value × Value)}
  {position : Nat} {v : Value} {s : Setting}

theorem redirectEntries_eq : redirectEntries role entries =
    entries.map fun entry => (entry.1, redirect (role.under entry.1) entry.2) := by
  induction entries with
  | nil => rfl
  | cons entry rest ih => rw [redirectEntries, ih, List.map_cons]

theorem redirectItems_eq (h : ∀ i, role.item i = inner) :
    redirectItems role position items = items.map (redirect inner) := by
  induction items generalizing position with
  | nil => rfl
  | cons item rest ih => rw [redirectItems, ih, h, List.map_cons]

theorem length_redirectItems : (redirectItems role position items).length = items.length := by
  induction items generalizing position with
  | nil => rfl
  | cons item rest ih => rw [redirectItems, List.length_cons, ih, List.length_cons]

theorem redirect_untagged (v : Value) : (redirect role v).untagged = redirect role v.untagged := by
  fun_induction Value.untagged v with
  | case1 tag value ih => rw [redirect, Value.untagged, ih]
  | case2 v h =>
    cases v with
    | tagged tag value => exact absurd rfl (h tag value)
    | _ => rfl

theorem strip_redirect : s.strip (redirect role v) = redirect role (s.strip v) := by
  cases s with
  | lenient => exact redirect_untagged v
  | strict => rfl

mutual
theorem depth_redirect (role : Role) (v : Value) : (redirect role v).depth = v.depth := by
  match v with
  | .null | .bool _ | .number _ | .text _ => rfl
  | .sequence items => simp only [redirect, Value.depth, depth_redirectItems role 0 items]
  | .mapping entries => simp only [redirect, Value.depth, depth_redirectEntries role entries]
  | .tagged _ value => simp only [redirect, Value.depth, depth_redirect role value]

theorem depth_redirectItems (role : Role) (position : Nat) (items : List Value) :
    Value.depthItems (redirectItems role position items) = Value.depthItems items := by
  match items with
  | [] => rfl
  | item :: rest =>
    simp only [redirectItems, Value.depthItems, depth_redirect _ item,
      depth_redirectItems role (position + 1) rest]

theorem depth_redirectEntries (role : Role) (entries : List (Value × Value)) :
    Value.depthEntries (redirectEntries role entries) = Value.depthEntries entries := by
  match entries with
  | [] => rfl
  | (key, value) :: rest =>
    simp only [redirectEntries, Value.depthEntries, depth_redirect _ value,
      depth_redirectEntries role rest]
end

mutual
theorem hasTag_redirect (role : Role) (v : Value) : (redirect role v).hasTag = v.hasTag := by
  match v with
  | .null | .bool _ | .number _ | .text _ | .tagged _ _ => rfl
  | .sequence items => simp only [redirect, Value.hasTag, hasTag_redirectItems role 0 items]
  | .mapping entries => simp only [redirect, Value.hasTag, hasTag_redirectEntries role entries]

theorem hasTag_redirectItems (role : Role) (position : Nat) (items : List Value) :
    Value.hasTagItems (redirectItems role position items) = Value.hasTagItems items := by
  match items with
  | [] => rfl
  | item :: rest =>
    simp only [redirectItems, Value.hasTagItems, hasTag_redirect _ item,
      hasTag_redirectItems role (position + 1) rest]

theorem hasTag_redirectEntries (role : Role) (entries : List (Value × Value)) :
    Value.hasTagEntries (redirectEntries role entries) = Value.hasTagEntries entries := by
  match entries with
  | [] => rfl
  | (key, value) :: rest =>
    simp only [redirectEntries, Value.hasTagEntries, hasTag_redirect _ value,
      hasTag_redirectEntries role rest]
end

theorem under_default (key : Value) : Role.default.under key = .default := by
  rw [Role.under]
  split <;> rfl

mutual
theorem redirect_default (v : Value) : redirect .default v = v := by
  match v with
  | .null | .bool _ | .number _ | .text _ => rfl
  | .sequence items => simp only [redirect, redirectItems_default 0 items]
  | .mapping entries => simp only [redirect, redirectEntries_default entries]
  | .tagged _ value => simp only [redirect, redirect_default value]

theorem redirectItems_default (position : Nat) (items : List Value) :
    redirectItems .default position items = items := by
  match items with
  | [] => rfl
  | item :: rest =>
    have hitem : redirect (Role.default.item position) item = item := redirect_default item
    simp only [redirectItems, hitem, redirectItems_default (position + 1) rest]

theorem redirectEntries_default (entries : List (Value × Value)) :
    redirectEntries .default entries = entries := by
  match entries with
  | [] => rfl
  | (key, value) :: rest =>
    simp only [redirectEntries, under_default, redirect_default value,
      redirectEntries_default rest]
end

theorem spell_idem (role : Role) (text : String) :
    role.spell (role.spell text) = role.spell text := by
  cases role with
  | reference | schema | object => exact Convert.openApiReference_idem text
  | _ => rfl

mutual
theorem redirect_idem (role : Role) (v : Value) :
    redirect role (redirect role v) = redirect role v := by
  match v with
  | .null | .bool _ | .number _ => rfl
  | .text text => simp only [redirect, spell_idem]
  | .sequence items => simp only [redirect, redirectItems_idem role 0 items]
  | .mapping entries => simp only [redirect, redirectEntries_idem role entries]
  | .tagged _ value => simp only [redirect, redirect_idem role value]

theorem redirectItems_idem (role : Role) (position : Nat) (items : List Value) :
    redirectItems role position (redirectItems role position items) =
      redirectItems role position items := by
  match items with
  | [] => rfl
  | item :: rest =>
    simp only [redirectItems, redirect_idem _ item, redirectItems_idem role (position + 1) rest]

theorem redirectEntries_idem (role : Role) (entries : List (Value × Value)) :
    redirectEntries role (redirectEntries role entries) = redirectEntries role entries := by
  match entries with
  | [] => rfl
  | (key, value) :: rest =>
    simp only [redirectEntries, redirect_idem _ value, redirectEntries_idem role rest]
end

/-! ## Lists, tables and records -/

theorem text?_redirect (v : Value) :
    s.text? (redirect role v) = (s.text? v).map role.spell := by
  rw [Setting.text?, strip_redirect, Setting.text?]
  cases s.strip v <;> rfl

theorem list?_redirect {α : Type} {φ : α → α} {read : Value → Option α} (h : outer.Lists inner)
    (hread : redirection.Follows inner read φ) :
    redirection.Follows outer (s.list? read) (List.map φ) := by
  have hitem : ∀ i, outer.item i = inner := by
    intro i
    cases h with
    | plain => rfl
    | table h => cases h <;> rfl
  have hitems : ∀ v, s.items? (redirect outer v) =
      (s.items? v).map (List.map (redirect inner)) := by
    intro v
    unfold Setting.items?
    rw [strip_redirect]
    cases s.strip v with
    | sequence items => simp only [redirect, redirectItems_eq hitem, Option.map_some]
    | _ => cases s <;> rfl
  intro v _
  change s.list? read (redirect outer v) = _
  rw [Setting.list?, hitems, Setting.list?]
  cases s.items? v with
  | none => rfl
  | some items => exact mapM_follows fun item _ => hread item trivial

theorem entries?_redirect (v : Value) :
    s.entries? (redirect role v) = (s.entries? v).map (redirectEntries role) := by
  unfold Setting.entries?
  rw [strip_redirect]
  cases s.strip v with
  | mapping entries => rfl
  | _ => cases s <;> rfl

theorem table?_redirect {α : Type} {φ : α → α} {read : Value → Option α}
    {name? : Value → Option String} (h : outer.Tables inner)
    (hread : redirection.Follows inner read φ) :
    redirection.Follows outer (s.table? name? read) (Table.mapValues φ) := by
  have hunder : ∀ key : Value, outer.under key = inner := by
    intro key
    rw [Role.under]
    cases h <;> split <;> rfl
  intro v _
  change s.table? name? read (redirect outer v) = _
  rw [Setting.table?, entries?_redirect, Setting.table?]
  cases s.entries? v with
  | none => rfl
  | some entries =>
    let pair (entry : Value × Value) : Option (String × α) := do
      let name ← name? entry.1
      let content ← read entry.2
      return (name, content)
    have hpair : ∀ entry ∈ entries, pair (entry.1, redirect (outer.under entry.1) entry.2) =
        (pair entry).map (Prod.map id φ) := by
      intro entry _
      rw [hunder]
      refine bind_follows (φ := id) (by rw [Option.map_id]; rfl) fun name => ?_
      exact bind_follows (hread entry.2 trivial) fun content => rfl
    have hmapped : (redirectEntries outer entries).mapM pair =
        (entries.mapM pair).map (List.map (Prod.map id φ)) := by
      rw [redirectEntries_eq]
      exact mapM_follows hpair
    change ((redirectEntries outer entries).mapM pair).map Table.ofList =
      ((entries.mapM pair).map Table.ofList).map (Table.mapValues φ)
    rw [hmapped, Option.map_map, Option.map_map]
    exact congrArg (Option.map · _) (funext fun bs => Table.ofList_map bs)

/-- Known fields with their references redirected. -/
def Fields.redirect (role : Role) (fields : Fields) : Fields :=
  fields.map fun field => (field.1, Reading.redirect (role.field field.1) field.2)

theorem Fields.lookup_redirect (fields : Fields) (name : String) :
    (fields.redirect role).lookup name =
      (fields.lookup name).map (Reading.redirect (role.field name)) := by
  induction fields with
  | nil => rfl
  | cons field rest ih =>
    obtain ⟨key, value⟩ := field
    rw [redirect, List.map_cons, List.lookup_cons, List.lookup_cons]
    by_cases hname : name = key
    · simp only [hname, beq_self_eq_true, Option.map_some]
    · simp only [beq_eq_false_iff_ne.mpr hname]
      exact ih

theorem under_of_field? {names : List String} {key : Value} {name : String}
    (h : role.HasFields s names) (hfield : s.field? names key = some (some name)) :
    role.under key = role.field name := by
  rcases key_of_field? hfield with hkey | ⟨rfl, n, rfl, hname⟩
  · rw [Role.under, hkey]
  · cases h with
    | schema s => simp only [Role.under, Value.untagged, Role.item, hname, Option.getD_some]

theorem collect?_redirect {names : List String} (h : role.HasFields s names) (fields : Fields) :
    s.collect? names (redirectEntries role entries) (fields.redirect role) =
      (s.collect? names entries fields).map (Fields.redirect role) := by
  induction entries generalizing fields with
  | nil => rfl
  | cons entry rest ih =>
    obtain ⟨key, value⟩ := entry
    simp only [redirectEntries, Setting.collect?, Fields.lookup_redirect, Option.isSome_map]
    split
    · rfl
    · exact ih fields
    · rename_i name hfield
      split
      · rfl
      · rw [under_of_field? h hfield, ← ih, Fields.redirect, Fields.redirect, List.map_append]
        rfl

theorem zip_redirectItems {names : List String}
    (h : ∀ i name, names[i]? = some name → role.item (position + i) = role.field name) :
    names.zip (redirectItems role position items) =
      Fields.redirect role (names.zip items) := by
  induction names generalizing items position with
  | nil => rfl
  | cons name rest ih =>
    cases items with
    | nil => rfl
    | cons item items =>
      have hfirst := h 0 name rfl
      have hrest : rest.zip (redirectItems role (position + 1) items) =
          Fields.redirect role (rest.zip items) := by
        refine ih fun i other hother => ?_
        rw [Nat.add_assoc, Nat.add_comm 1 i]
        exact h (i + 1) other hother
      rw [Nat.add_zero] at hfirst
      rw [redirectItems, List.zip_cons_cons, hrest, hfirst]
      rfl

theorem record?_redirect {names : List String} (h : role.HasFields s names) (v : Value) :
    s.record? names (redirect role v) = (s.record? names v).map (Fields.redirect role) := by
  have hobject : ((s.entries? (redirect role v)).bind fun entries => s.collect? names entries []) =
      ((s.entries? v).bind fun entries => s.collect? names entries []).map
        (Fields.redirect role) := by
    rw [entries?_redirect]
    cases s.entries? v with
    | none => rfl
    | some entries => exact collect?_redirect h []
  cases h with
  | object => exact hobject
  | schema s =>
    cases s with
    | lenient => exact hobject
    | strict =>
      cases v with
      | sequence items =>
        simp only [redirect, Setting.record?, length_redirectItems]
        split
        · refine congrArg some (zip_redirectItems fun i name hname => ?_)
          rw [Nat.zero_add, Role.item, hname, Option.getD_some]
        · rfl
      | _ => exact hobject

end Redirect

theorem redirection_lawful : redirection.Lawful where
  keeps := rfl
  null _ v := by cases v <;> simp [redirection, redirect]
  bool _ v b := by cases v <;> simp [redirection, redirect]
  depth role v _ := depth_redirect role v
  hasTag role v _ := hasTag_redirect role v
  default v := redirect_default v
  reference _ v _ := text?_redirect v
  text _ v _ := text?_redirect v
  flag s v _ := by
    change s.flag? (redirect .plain v) = _
    rw [Setting.flag?, strip_redirect, Setting.flag?]
    cases s.strip v <;> rfl
  choice v _ := by
    cases v with
    | number n => cases n <;> rfl
    | _ => rfl
  typeNames v _ := by
    cases v with
    | sequence items =>
      have hnames : ∀ item ∈ items, Setting.strict.text? (redirect .plain item) =
          (Setting.strict.text? item).map id := fun item _ => text?_redirect item
      change typeNames? (.sequence (redirectItems .plain 0 items)) = _
      rw [redirectItems_eq fun _ => rfl, typeNames?, mapM_follows hnames, List.map_id_fun,
        Option.map_id, Option.map_id]
      rfl
    | _ => rfl
  list _ h hread := list?_redirect h hread
  table _ _ h _ hread := table?_redirect h hread
  record {role s names} h v _ := by
    have hrecord := record?_redirect h v
    cases hfields : s.record? names v with
    | none =>
      rw [hfields] at hrecord
      exact .inl ⟨rfl, hrecord⟩
    | some fields =>
      rw [hfields] at hrecord
      exact .inr ⟨fields, _, rfl, hrecord, fields.lookup_redirect, fun _ _ _ => trivial⟩

end Api.Reading

end RestThrift
