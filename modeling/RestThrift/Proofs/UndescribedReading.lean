import Mathlib
import RestThrift.Proofs.Edits
import RestThrift.Proofs.Undescribed

/-!
# Reading values without descriptions

Where a reader has a result, it has one too when the descriptions are left out of the value: the
same tables and records, without descriptions. So a document is read without descriptions.
-/
namespace RestThrift.Api.Reading

open RestThrift.Yaml (Value)

/-! ## Steps of a reading -/

section Carries

variable {α β γ δ : Type} {φ : α → β} {ψ : γ → δ} {x : Option α} {x' : Option β}

/-- Where the first reading has a result the second one has it too, changed by `φ`. -/
def Carries (φ : α → β) (x : Option α) (x' : Option β) : Prop := ∀ a, x = some a → x' = some (φ a)

theorem Carries.bind {g : α → Option γ} {g' : β → Option δ} (hx : Carries φ x x')
    (hg : ∀ a, Carries ψ (g a) (g' (φ a))) : Carries ψ (x >>= g) (x' >>= g') := by
  intro c hc
  obtain ⟨a, ha, hc⟩ := Option.bind_eq_some_iff.mp hc
  rw [hx a ha]
  exact hg a c hc

theorem Carries.mapM {g : γ → Option α} {g' : δ → Option β} {ψ : γ → δ} {l : List γ}
    (h : ∀ c ∈ l, Carries φ (g c) (g' (ψ c))) :
    Carries (List.map φ) (l.mapM g) ((l.map ψ).mapM g') := by
  induction l with
  | nil => rintro _ ⟨⟩; rfl
  | cons c rest ih =>
    obtain ⟨hc, hrest⟩ := List.forall_mem_cons.mp h
    simp only [List.map_cons, List.mapM_cons]
    refine hc.bind fun a => (ih hrest).bind fun others => ?_
    rintro _ ⟨⟩
    rfl

theorem carries_some {a : α} {b : β} (h : b = φ a) : Carries φ (some a) (some b) := by
  rintro _ ⟨⟩
  exact congrArg some h

end Carries

/-! ## Records -/

namespace Part

/-- Values of the part are read as records with these fields. -/
inductive HasFields : Part → Setting → List String → Prop
  | schema (s : Setting) : HasFields .schema s schemaFields
  | lenient (part : Part) (names : List String) : HasFields part .lenient names

theorem HasFields.named {part : Part} {s : Setting} {names : List String} {key : Value}
    {name : String} (h : part.HasFields s names)
    (hfield : s.field? names key = some (some name)) : part.named key = name := by
  rcases key_of_field? hfield with hkey | ⟨rfl, n, rfl, hname⟩
  · rw [Part.named, hkey]
  · cases h with
    | schema s => simp only [Part.named, Value.untagged, numbered, hname, Option.getD_some]

/-- The known fields of a value, and those of the value without descriptions. -/
structure Leaves (part : Part) (fields fields' : Fields) : Prop where
  kept : ∀ name inner, part.inside? name = some inner →
    fields'.lookup name = (fields.lookup name).map (undescribed inner)
  dropped : ∀ name v, part.inside? name = none → fields'.lookup name = some v → v = .null

namespace Leaves

variable {part inner : Part} {fields fields' more more' : Fields} {name : String} {v : Value}

theorem nil : part.Leaves [] [] := ⟨fun _ _ _ => rfl, fun _ _ _ h => by cases h⟩

theorem append (h : part.Leaves fields fields') (hmore : part.Leaves more more') :
    part.Leaves (fields ++ more) (fields' ++ more') := by
  refine ⟨fun name inner hinside => ?_, fun name v hinside hv => ?_⟩
  · rw [List.lookup_append, List.lookup_append, h.kept name inner hinside,
      hmore.kept name inner hinside]
    cases fields.lookup name <;> rfl
  · rw [List.lookup_append, Option.or_eq_some_iff] at hv
    rcases hv with hv | ⟨-, hv⟩
    · exact h.dropped name v hinside hv
    · exact hmore.dropped name v hinside hv

theorem ne_of_inside? {other : String} (h : part.inside? other = some inner)
    (h' : part.inside? name = none) : other ≠ name := by
  rintro rfl
  rw [h] at h'
  cases h'

theorem lookup_single_of_ne {other : String} (h : other ≠ name) :
    [(name, v)].lookup other = none := by
  rw [List.lookup_cons, beq_eq_false_iff_ne.mpr h, List.lookup_nil]

theorem kept_single (hinside : part.inside? name = some inner) :
    part.Leaves [(name, v)] [(name, undescribed inner v)] := by
  refine ⟨fun other inner' hother => ?_, fun other w hother hw => ?_⟩
  · by_cases h : other = name
    · obtain rfl := h
      obtain rfl := Option.some.inj (hother.symm.trans hinside)
      rw [List.lookup_cons_self, List.lookup_cons_self, Option.map_some]
    · rw [lookup_single_of_ne h, lookup_single_of_ne h, Option.map_none]
  · rw [lookup_single_of_ne (ne_of_inside? hinside hother).symm] at hw
    cases hw

theorem dropped_single (hinside : part.inside? name = none) {fields' : Fields}
    (h : ∀ field ∈ fields', field = (name, .null)) : part.Leaves [(name, v)] fields' := by
  refine ⟨fun other inner hother => ?_, fun other w hother hw => ?_⟩
  · have hne := ne_of_inside? hother hinside
    rw [lookup_single_of_ne hne, Option.map_none, List.lookup_eq_none_iff]
    intro field hfield
    rw [h field hfield]
    exact bne_iff_ne.mpr hne
  · exact (Prod.mk.inj (h _ (Table.mem_of_lookup hw))).2

end Leaves

variable {part : Part} {s : Setting} {names : List String} {fields fields' found : Fields}
  {entries : List (Value × Value)}

theorem leaves_collect? (h : part.HasFields s names) (hfields : part.Leaves fields fields')
    (hfound : s.collect? names entries fields = some found) :
    ∃ found', s.collect? names (undescribedEntries part entries) fields' = some found' ∧
      part.Leaves found found' := by
  induction entries generalizing fields fields' with
  | nil =>
    obtain rfl := Option.some.inj hfound
    exact ⟨fields', rfl, hfields⟩
  | cons entry rest ih =>
    obtain ⟨key, value⟩ := entry
    cases hfield : s.field? names key with
    | none => simp only [Setting.collect?, hfield, reduceCtorEq] at hfound
    | some known =>
      cases known with
      | none =>
        simp only [Setting.collect?, hfield] at hfound
        simp only [undescribedEntries]
        split
        · simp only [Setting.collect?, hfield]
          exact ih hfields hfound
        · exact ih hfields hfound
      | some name =>
        simp only [Setting.collect?, hfield, Option.ite_none_left_eq_some,
          Option.not_isSome_iff_eq_none] at hfound
        obtain ⟨hnew, hfound⟩ := hfound
        simp only [undescribedEntries, h.named hfield]
        cases hinside : part.inside? name with
        | none =>
          have hdropped : part.Leaves [(name, value)] [] :=
            .dropped_single hinside fun _ h => absurd h List.not_mem_nil
          have hleaves := hfields.append hdropped
          rw [List.append_nil] at hleaves
          exact ih hleaves hfound
        | some inner =>
          have hnew' : fields'.lookup name = none := by
            rw [hfields.kept name inner hinside, hnew, Option.map_none]
          simp only [Setting.collect?, hfield, hnew', Option.isSome_none, Bool.false_eq_true,
            if_false]
          exact ih (hfields.append (Leaves.kept_single hinside)) hfound

theorem leaves_zip {position : Nat} (items : List Value)
    (h : ∀ i name, names[i]? = some name → part.numbered (position + i) = name) :
    part.Leaves (names.zip items) (names.zip (undescribedItems part position items)) := by
  induction names generalizing items position with
  | nil => exact .nil
  | cons name rest ih =>
    cases items with
    | nil => exact .nil
    | cons item items =>
      have hfirst : part.numbered position = name := h 0 name rfl
      have hrest := ih items fun i other hother => by
        rw [Nat.add_assoc, Nat.add_comm 1 i]
        exact h (i + 1) other hother
      simp only [undescribedItems, hfirst]
      cases hinside : part.inside? name with
      | none =>
        exact (Leaves.dropped_single hinside fun _ h => List.mem_singleton.mp h).append hrest
      | some inner => exact (Leaves.kept_single hinside).append hrest

theorem length_undescribedItems {position : Nat} {items : List Value} :
    (undescribedItems part position items).length = items.length := by
  induction items generalizing position with
  | nil => rfl
  | cons item rest ih =>
    simp only [undescribedItems]
    split <;> exact congrArg Nat.succ ih

/-- The record stays one, and its fields are those without the descriptions. -/
theorem leaves_record? {v : Value} (h : part.HasFields s names)
    (hfound : s.record? names v = some found) :
    ∃ found', s.record? names (undescribed part v) = some found' ∧ part.Leaves found found' := by
  have hobject : ((s.entries? v).bind fun entries => s.collect? names entries []) = some found →
      ∃ found', ((s.entries? (undescribed part v)).bind fun entries =>
        s.collect? names entries []) = some found' ∧ part.Leaves found found' := by
    intro hfound
    obtain ⟨entries, hentries, hfound⟩ := Option.bind_eq_some_iff.mp hfound
    rw [entries?_undescribed, hentries]
    exact leaves_collect? h .nil hfound
  cases h with
  | lenient => exact hobject hfound
  | schema s =>
    cases s with
    | lenient => exact hobject hfound
    | strict =>
      cases v with
      | sequence items =>
        obtain ⟨hlength, hzip⟩ := Option.ite_none_right_eq_some.mp hfound
        obtain rfl := Option.some.inj hzip
        have hnumbered : ∀ i name, schemaFields[i]? = some name →
            Part.schema.numbered (0 + i) = name := by
          intro i name hname
          rw [Nat.zero_add, numbered, hname, Option.getD_some]
        refine ⟨_, ?_, leaves_zip items hnumbered⟩
        rw [undescribed, Setting.record?, length_undescribedItems, if_pos hlength]
      | _ => exact hobject hfound

/-! ## Readers -/

/-- From the value without descriptions a reader gets what it gets from the value, changed by
`φ`. -/
def Yields {α : Type} (part : Part) (read : Value → Option α) (φ : α → α) : Prop :=
  ∀ v, Carries φ (read v) (read (undescribed part v))

section Yields

variable {α β : Type} {φ : α → α} {ψ : β → β} {read : Value → Option α} {inner : Part}

theorem yields_other (read : Value → Option α) : Part.other.Yields read id := by
  intro v a ha
  rw [undescribed_other, ha, id]

theorem Leaves.required (h : part.Leaves fields fields') (name : String)
    (hinside : part.inside? name = some inner)
    (hread : inner.Yields read φ) :
    Carries φ (fields.required name read) (fields'.required name read) := by
  rw [Fields.required, Fields.required, h.kept name inner hinside]
  cases fields.lookup name with
  | none => rintro _ ⟨⟩
  | some v => exact hread v

theorem Leaves.withDefault {otherwise : α} (h : part.Leaves fields fields') (name : String)
    (hinside : part.inside? name = some inner) (hread : inner.Yields read φ)
    (hotherwise : φ otherwise = otherwise) : Carries φ (fields.withDefault name otherwise read)
      (fields'.withDefault name otherwise read) := by
  rw [Fields.withDefault, Fields.withDefault, h.kept name inner hinside]
  cases fields.lookup name with
  | none => exact carries_some hotherwise.symm
  | some v => exact hread v

theorem Leaves.optional (h : part.Leaves fields fields') (name : String)
    (hinside : part.inside? name = some inner)
    (hread : inner.Yields read φ) :
    Carries (Option.map φ) (fields.optional name read) (fields'.optional name read) := by
  have hlookup := h.kept name inner hinside
  cases hfound : fields.lookup name with
  | none =>
    rw [hfound] at hlookup
    rw [Fields.optional, Fields.optional, hfound, hlookup]
    exact carries_some rfl
  | some v =>
    rw [hfound, Option.map_some] at hlookup
    by_cases hv : v = .null
    · subst hv
      rw [Fields.optional, Fields.optional, hfound, hlookup]
      exact carries_some rfl
    · have hv' : undescribed inner v ≠ .null := mt undescribed_eq_null_iff.mp hv
      rw [Fields.optional_eq hfound hv, Fields.optional_eq hlookup hv']
      intro a ha
      obtain ⟨b, hb, rfl⟩ := Option.map_eq_some_iff.mp ha
      rw [hread v b hb]
      rfl

/-- A description is gone, whatever it was. -/
theorem Leaves.described (h : part.Leaves fields fields') (name : String)
    (hinside : part.inside? name = none)
    {x : Option (Option String)} {read : Value → Option String} :
    Carries (fun _ => none) x (fields'.optional name read) := by
  intro a _
  rw [Fields.optional]
  cases hfound : fields'.lookup name with
  | none => rfl
  | some v => rw [h.dropped name v hinside hfound]

theorem carries_record {g : Fields → Option β} {v : Value} (h : part.HasFields s names)
    (hg : ∀ fields fields', part.Leaves fields fields' → Carries ψ (g fields) (g fields')) :
    Carries ψ (s.record? names v >>= g) (s.record? names (undescribed part v) >>= g) := by
  intro b hb
  obtain ⟨fields, hfields, hb⟩ := Option.bind_eq_some_iff.mp hb
  obtain ⟨fields', hfields', hleaves⟩ := leaves_record? h hfields
  rw [hfields']
  exact hg fields fields' hleaves b hb

theorem yields_list (s : Setting) (hread : inner.Yields read φ) :
    (Part.list inner).Yields (s.list? read) (List.map φ) := by
  intro v l hl
  obtain ⟨items, hitems, hl⟩ := Option.bind_eq_some_iff.mp hl
  have hinner : ∀ name, (Part.list inner).inside? name = some inner := fun _ => rfl
  rw [Setting.list?, items?_undescribed, hitems, Option.map_some, Option.bind_some,
    undescribedItems_eq_map hinner]
  exact Carries.mapM (fun item _ => hread item) l hl

theorem yields_table (s : Setting) {name? : Value → Option String} (hread : inner.Yields read φ) :
    (Part.table inner).Yields (s.table? name? read) (Table.mapValues φ) := by
  let pair (entry : Value × Value) : Option (String × α) := do
    let name ← name? entry.1
    let content ← read entry.2
    return (name, content)
  have hpair : ∀ entry : Value × Value, Carries (Prod.map id φ) (pair entry)
      (pair (Prod.map id (undescribed inner) entry)) := by
    intro entry
    have hname : Carries id (name? entry.1) (name? entry.1) := fun _ h => h
    exact hname.bind fun name => (hread entry.2).bind fun content => carries_some rfl
  intro v table htable
  obtain ⟨entries, hentries, htable⟩ := Option.bind_eq_some_iff.mp htable
  obtain ⟨named, hnamed, rfl⟩ := Option.map_eq_some_iff.mp htable
  have hinner : ∀ name, (Part.table inner).inside? name = some inner := fun _ => rfl
  rw [Setting.table?, entries?_undescribed, hentries, Option.map_some, Option.bind_some,
    undescribedEntries_eq_map hinner]
  change Option.map Table.ofList ((entries.map _).mapM pair) = _
  rw [Carries.mapM (fun entry _ => hpair entry) named hnamed, Option.map_some, Table.ofList_map]

end Yields

/-! ## Schemas -/

theorem yields_additional? {read : Value → Option Schema} {φ : Schema → Schema}
    (hread : Part.schema.Yields read φ) :
    Part.schema.Yields (additional? read) (Additional.map φ) := by
  have hvalues : ∀ {v : Value}, (∀ b, v ≠ .bool b) → additional? read v =
      if v.hasTag then none else (read v).map .values := by
    intro v hv
    cases v with
    | bool b => exact absurd rfl (hv b)
    | _ => rfl
  intro v
  by_cases hbool : ∃ b, v = .bool b
  · obtain ⟨b, rfl⟩ := hbool
    exact carries_some rfl
  · have hother := not_exists.mp hbool
    have hother' : ∀ b, undescribed .schema v ≠ .bool b := by
      intro b hb
      cases v with
      | bool b => exact hother b rfl
      | _ => simp [undescribed] at hb
    rw [hvalues hother, hvalues hother']
    intro additional h
    obtain ⟨htag, h⟩ := Option.ite_none_left_eq_some.mp h
    obtain ⟨inner, hinner, rfl⟩ := Option.map_eq_some_iff.mp h
    rw [hasTag_undescribed _ v (Bool.eq_false_iff.mpr htag), if_neg Bool.false_ne_true,
      hread v inner hinner]
    rfl

end Part

/-- The edit that takes all descriptions away. -/
def undescribing : Edit := { keeps := false }

namespace Part

theorem yields_schemaWithin? (depth : Nat) (s : Setting) :
    Part.schema.Yields (schemaWithin? depth s) (Schema.edit undescribing) := by
  induction depth generalizing s with
  | zero => rintro _ _ ⟨⟩
  | succ depth ih =>
    intro v
    refine carries_record (.schema s) fun fields fields' h => ?_
    refine (h.optional "$ref" rfl (yields_other _)).bind fun reference => ?_
    refine (h.optional "type" rfl (yields_other _)).bind fun typeNames => ?_
    refine (h.optional "format" rfl (yields_other _)).bind fun format => ?_
    refine (h.described "description" rfl).bind fun description => ?_
    refine (h.withDefault "properties" rfl (yields_table s (ih s)) rfl).bind fun properties => ?_
    refine (h.withDefault "required" rfl (yields_other _) rfl).bind fun required => ?_
    refine (h.optional "items" rfl (ih s)).bind fun items => ?_
    refine (h.withDefault "enum" rfl (yields_other _) rfl).bind fun choices => ?_
    refine (h.withDefault "x-enum-varnames" rfl (yields_other _) rfl).bind fun choiceNames => ?_
    refine (h.withDefault "allOf" rfl (yields_list s (ih s)) rfl).bind fun parts => ?_
    refine (h.optional "additionalProperties" rfl (yields_additional? (ih .strict))).bind
      fun additional => ?_
    refine (h.optional "default" rfl (yields_other _)).bind fun default => ?_
    refine carries_some ?_
    rw [Schema.edit_eq]
    simp only [undescribing, Option.map_id, id_eq]
    rfl

theorem yields_schema? : Part.schema.Yields schema? (Schema.edit undescribing) := by
  intro v schema h
  have hless := yields_schemaWithin? v.depth .lenient v schema h
  rwa [schemaWithin?_eq (depth_undescribed_le _ v) le_rfl] at hless

/-! ## Operations -/

theorem yields_parameter? : Part.parameter.Yields parameter? (Parameter.edit undescribing) := by
  intro v
  refine carries_record (.lenient _ _) fun fields fields' h => ?_
  refine (h.required "name" rfl (yields_other _)).bind fun name => ?_
  refine (h.required "in" rfl (yields_other _)).bind fun place => ?_
  refine (h.described "description" rfl).bind fun description => ?_
  refine (h.withDefault "required" rfl (yields_other _) rfl).bind fun required => ?_
  refine (h.optional "schema" rfl yields_schema?).bind fun schema => ?_
  refine (h.optional "type" rfl (yields_other _)).bind fun typeName => ?_
  refine (h.optional "format" rfl (yields_other _)).bind fun format => ?_
  refine (h.optional "items" rfl yields_schema?).bind fun items => ?_
  refine (h.withDefault "enum" rfl (yields_other _) rfl).bind fun choices => ?_
  refine (h.withDefault "x-enum-varnames" rfl (yields_other _) rfl).bind fun choiceNames => ?_
  refine carries_some ?_
  simp only [Option.map_id, id_eq]
  rfl

theorem yields_parameters? : (Part.list .parameter).Yields (Setting.lenient.list? parameter?)
    (List.map (Parameter.edit undescribing)) :=
  yields_list .lenient yields_parameter?

theorem yields_mediaType? :
    Part.mediaType.Yields mediaType? (Option.map (Schema.edit undescribing)) :=
  fun _ => carries_record (.lenient _ _) fun _ _ h => h.optional "schema" rfl yields_schema?

theorem yields_content? : (Part.table .mediaType).Yields content? (Content.edit undescribing) :=
  yields_table .lenient yields_mediaType?

theorem yields_requestBody? :
    Part.requestBody.Yields requestBody? (RequestBody.edit undescribing) := by
  intro v
  refine carries_record (.lenient _ _) fun fields fields' h => ?_
  refine (h.described "description" rfl).bind fun description => ?_
  refine (h.withDefault "required" rfl (yields_other _) rfl).bind fun required => ?_
  refine (h.withDefault "content" rfl yields_content? rfl).bind fun content => ?_
  exact carries_some rfl

theorem yields_response? : Part.response.Yields response? (Response.edit undescribing) := by
  intro v
  refine carries_record (.lenient _ _) fun fields fields' h => ?_
  refine (h.described "description" rfl).bind fun description => ?_
  refine (h.withDefault "content" rfl yields_content? rfl).bind fun content => ?_
  refine (h.optional "schema" rfl yields_schema?).bind fun schema => ?_
  exact carries_some rfl

theorem yields_operation? : Part.operation.Yields operation? (Operation.edit undescribing) := by
  intro v
  refine carries_record (.lenient _ _) fun fields fields' h => ?_
  refine (h.described "summary" rfl).bind fun summary => ?_
  refine (h.described "description" rfl).bind fun description => ?_
  refine (h.withDefault "parameters" rfl yields_parameters? rfl).bind fun parameters => ?_
  refine (h.optional "requestBody" rfl yields_requestBody?).bind fun requestBody => ?_
  refine (h.withDefault "responses" rfl (yields_table _ yields_response?) rfl).bind
    fun responses => ?_
  exact carries_some rfl

theorem yields_pathItem? : Part.pathItem.Yields pathItem? (PathItem.edit undescribing) := by
  intro v
  refine carries_record (.lenient _ _) fun fields fields' h => ?_
  let reading (fields : Fields) (method : Method) : Option (Option (Method × Operation)) := do
    let operation ← fields.optional method.name operation?
    return operation.map fun operation => (method, operation)
  have hreading : ∀ method ∈ Method.all,
      Carries (Option.map (Prod.map id (Operation.edit undescribing))) (reading fields method)
        (reading fields' method) := by
    intro method _
    have hinside : Part.pathItem.inside? method.name = some .operation := by cases method <;> rfl
    refine (h.optional method.name hinside yields_operation?).bind fun operation => carries_some ?_
    cases operation <;> rfl
  have hoperations : Carries (List.map (Option.map (Prod.map id (Operation.edit undescribing))))
      (Method.all.mapM (reading fields)) (Method.all.mapM (reading fields')) := by
    have hmapped := Carries.mapM (ψ := id) hreading
    rwa [List.map_id] at hmapped
  refine hoperations.bind fun operations => ?_
  refine (h.withDefault "parameters" rfl yields_parameters? rfl).bind fun parameters => ?_
  refine carries_some ?_
  rw [List.filterMap_map, PathItem.edit, List.map_filterMap]
  rfl

/-! ## Documents -/

theorem yields_schemas? :
    (Part.table .schema).Yields schemas? (Table.mapValues (Schema.edit undescribing)) :=
  yields_table .lenient yields_schema?

theorem yields_components? :
    Part.components.Yields components? (Table.mapValues (Schema.edit undescribing)) :=
  fun _ => carries_record (.lenient _ _) fun _ _ h =>
    h.withDefault "schemas" rfl yields_schemas? rfl

/-- Without the descriptions in its value, a document is read without them. -/
theorem yields_document? (dialect : Dialect) (version : String) :
    Part.document.Yields (document? dialect version) (Document.edit undescribing) := by
  intro v
  refine carries_record (.lenient _ _) fun fields fields' h => ?_
  refine (h.withDefault "paths" rfl (yields_table _ yields_pathItem?) rfl).bind fun paths => ?_
  refine (h.optional "components" rfl yields_components?).bind fun components => ?_
  refine (h.withDefault "definitions" rfl yields_schemas? rfl).bind fun definitions => ?_
  refine carries_some ?_
  cases dialect with
  | openApi3 => cases components <;> rfl
  | swagger2 => rfl

end Part

theorem rootField?_undescribed (name : String) (entries : List (Value × Value)) :
    rootField? name (undescribedEntries .document entries) =
      (rootField? name entries).map
        (undescribed ((Part.document.fields.lookup name).getD .other)) := by
  have hinside : ∀ name, Part.document.inside? name =
      some ((Part.document.fields.lookup name).getD .other) := fun _ => rfl
  induction entries with
  | nil => rfl
  | cons entry rest ih =>
    obtain ⟨key, value⟩ := entry
    simp only [undescribedEntries, hinside]
    by_cases hkey : key.same (.text name) = true
    · have hnamed : Part.document.named key = name := by
        cases key with
        | text text => exact eq_of_beq hkey
        | _ => cases hkey
      simp only [rootField?, List.find?_cons, hkey, hnamed, Option.map_some]
    · simp only [rootField?, List.find?_cons, hkey]
      exact ih

/-- The dialect and the version are told without descriptions as well. -/
theorem detect_undescribed (entries : List (Value × Value)) :
    detect (undescribedEntries .document entries) = detect entries := by
  have hversion : ∀ name, (Part.document.fields.lookup name).getD .other = .other →
      rootField? name (undescribedEntries .document entries) = rootField? name entries := by
    intro name hname
    rw [rootField?_undescribed, hname, funext undescribed_other, Option.map_id']
  have hhas : ∀ name, (rootField? name (undescribedEntries .document entries)).isSome =
      (rootField? name entries).isSome := by
    intro name
    rw [rootField?_undescribed, Option.isSome_map]
  simp only [detect, hversion "swagger" rfl, hversion "openapi" rfl, hhas]

end RestThrift.Api.Reading
