import Mathlib
import RestThrift.Proofs.Reordering
import RestThrift.Yaml.Reader

/-!
# Keys of parsed values

No mapping of a parsed value has two equal keys, at any depth. Where keys are texts, they are then
different texts.
-/
namespace RestThrift.Yaml

/-- No two keys of a mapping are equal, at any depth. -/
inductive Value.Distinct : Value → Prop
  | null : Distinct .null
  | bool (b : Bool) : Distinct (.bool b)
  | number (n : Number) : Distinct (.number n)
  | text (s : String) : Distinct (.text s)
  | sequence {items : List Value} (h : ∀ item ∈ items, Distinct item) : Distinct (.sequence items)
  | mapping {entries : List (Value × Value)}
      (hkeys : entries.Pairwise fun a b => a.1.same b.1 = false)
      (h : ∀ entry ∈ entries, Distinct entry.2) : Distinct (.mapping entries)
  | tagged (tag : String) {v : Value} (h : Distinct v) : Distinct (.tagged tag v)

theorem Value.TextKeys.keyed {v : Value} (htext : v.TextKeys) (h : v.Distinct) : v.Keyed := by
  induction htext with
  | null => exact .null
  | bool b => exact .bool b
  | number n => exact .number n
  | text s => exact .text s
  | sequence _ ih =>
    cases h with
    | sequence hitems => exact .sequence fun item hitem => ih item hitem (hitems item hitem)
  | mapping htext _ ih =>
    cases h with
    | mapping hkeys hvalues =>
      refine .mapping htext (List.pairwise_map.mpr ?_)
        fun entry hentry => ih entry hentry (hvalues entry hentry)
      refine hkeys.imp_of_mem fun {a b} ha _ hne heq => ?_
      obtain ⟨s, hs⟩ := htext a ha
      rw [← heq, hs, same, beq_self_eq_true] at hne
      cases hne
  | tagged tag _ ih =>
    cases h with
    | tagged _ hv => exact .tagged tag (ih hv)

/-! ## Scalars -/

theorem Plain.distinct_ofInteger? {n : Int} {v : Value} (h : Plain.ofInteger? n = some v) :
    v.Distinct := by
  rw [ofInteger?] at h
  split at h
  · exact Option.some.inj h ▸ .number _
  · cases h

theorem Plain.distinct_value? {text : List Char} {v : Value} (h : Plain.value? text = some v) :
    v.Distinct := by
  rw [value?] at h
  split at h
  · exact Option.some.inj h ▸ .null
  split at h
  · exact Option.some.inj h ▸ .bool _
  split at h
  · exact distinct_ofInteger? h
  split at h
  · exact Option.some.inj h ▸ .number _
  · exact Option.some.inj h ▸ .text _

theorem distinct_untaggedScalar? {text : List Char} {plain : Bool} {v : Value}
    (h : untaggedScalar? text plain = some v) : v.Distinct := by
  rw [untaggedScalar?] at h
  split at h
  · exact Plain.distinct_value? h
  · exact Option.some.inj h ▸ .text _

theorem distinct_scalar? {tag : Option Tag} {text : List Char} {plain : Bool} {v : Value}
    (h : scalar? tag text plain = some v) : v.Distinct := by
  cases tag with
  | none => exact distinct_untaggedScalar? h
  | some tag =>
    rw [scalar?, taggedScalar?] at h
    split at h
    · obtain ⟨b, -, rfl⟩ := Option.map_eq_some_iff.mp h
      exact .bool b
    split at h
    · obtain ⟨n, -, hn⟩ := Option.bind_eq_some_iff.mp h
      exact Plain.distinct_ofInteger? hn
    split at h
    · obtain ⟨x, -, rfl⟩ := Option.map_eq_some_iff.mp h
      exact .number _
    split at h
    · split at h
      · exact Option.some.inj h ▸ .null
      · cases h
    split at h
    · exact distinct_untaggedScalar? h
    · exact Option.some.inj h ▸ .text _

/-! ## Collections -/

/-- Whenever the program ends with a value, `P` holds of it. -/
def Ensures {α : Type} (P : α → Prop) (x : LoadM α) : Prop :=
  ∀ jumps out, x.run jumps = some out → P out.1

section Ensures

variable {α β : Type} {P : α → Prop} {Q : β → Prop}

theorem ensures_pure {a : α} (h : P a) : Ensures P (pure a : LoadM α) := by
  intro jumps out hout
  obtain rfl := Option.some.inj hout
  exact h

theorem ensures_failure : Ensures P (failure : LoadM α) := by
  intro jumps out hout
  cases hout

theorem Ensures.bind {x : LoadM α} {f : α → LoadM β} (hx : Ensures P x)
    (hf : ∀ a, P a → Ensures Q (f a)) : Ensures Q (x >>= f) := by
  intro jumps out hout
  obtain ⟨mid, hmid, hout⟩ := Option.bind_eq_some_iff.mp hout
  exact hf mid.1 (hx jumps mid hmid) mid.2 out hout

theorem ensures_lift {x : Option α} (h : ∀ a, x = some a → P a) :
    Ensures P (liftM x : LoadM α) := by
  intro jumps out hout
  obtain ⟨a, ha, hout⟩ := Option.bind_eq_some_iff.mp hout
  obtain rfl := Option.some.inj hout
  exact h a ha

theorem ensures_mapM {f : β → LoadM α} (hf : ∀ b, Ensures P (f b)) (l : List β) :
    Ensures (fun as => ∀ a ∈ as, P a) (l.mapM f) := by
  induction l with
  | nil => exact ensures_pure fun _ h => absurd h List.not_mem_nil
  | cons b rest ih =>
    rw [List.mapM_cons]
    refine (hf b).bind fun a ha => ih.bind fun others hothers => ?_
    exact ensures_pure (List.forall_mem_cons.mpr ⟨ha, hothers⟩)

theorem ensures_foldlM {f : α → β → LoadM α} (hf : ∀ a b, P a → Ensures P (f a b)) (l : List β)
    {a : α} (ha : P a) : Ensures P (l.foldlM f a) := by
  induction l generalizing a with
  | nil => exact ensures_pure ha
  | cons b rest ih =>
    rw [List.foldlM_cons]
    exact (hf a b ha).bind fun a ha => ih ha

end Ensures

/-- An entry is added only if its key is a new one. -/
theorem distinct_insertPair? {entries others : List (Value × Value)} {key value : Value}
    (h : insertPair? entries key value = some others) (hentries : (Value.mapping entries).Distinct)
    (hvalue : value.Distinct) : (Value.mapping others).Distinct := by
  cases hentries with
  | mapping hkeys hvalues =>
    rw [insertPair?] at h
    split at h
    · cases h
    · rename_i hnew
      obtain rfl := Option.some.inj h
      simp only [List.any_eq_true, not_exists, not_and, Bool.not_eq_true] at hnew
      refine .mapping (List.pairwise_append.mpr ⟨hkeys, List.pairwise_singleton _ _, ?_⟩) ?_
      · intro a ha b hb
        rw [List.mem_singleton.mp hb]
        exact hnew a ha
      · exact List.forall_mem_append.mpr ⟨hvalues, List.forall_mem_singleton.mpr hvalue⟩

theorem ensures_loadWith {anchors : List (Nat × Node)} {content : Node → LoadM Value}
    (hcontent : ∀ node, Ensures Value.Distinct (content node)) (node : Node) :
    Ensures Value.Distinct (loadWith anchors content node) := by
  have hfollow : Ensures (fun _ => True) (follow anchors node) := fun _ _ _ => trivial
  refine hfollow.bind fun node _ => (hcontent node).bind fun value hvalue => ?_
  cases node.tag?.bind Tag.label? with
  | some label => exact ensures_pure (.tagged label hvalue)
  | none => exact ensures_pure hvalue

theorem ensures_loadContent (anchors : List (Nat × Node)) (depth : Nat) (node : Node) :
    Ensures Value.Distinct (loadContent anchors depth node) := by
  induction depth generalizing node with
  | zero =>
    cases node with
    | scalar anchor tag text plain => exact ensures_lift fun v hv => distinct_scalar? hv
    | _ => exact ensures_failure
  | succ depth ih =>
    cases node with
    | reference n => exact ensures_failure
    | scalar anchor tag text plain => exact ensures_lift fun v hv => distinct_scalar? hv
    | sequence anchor tag items =>
      refine (ensures_mapM (ensures_loadWith ih) items).bind fun items hitems => ?_
      exact ensures_pure (.sequence hitems)
    | mapping anchor tag entries =>
      refine Ensures.bind (P := fun entries => (Value.mapping entries).Distinct) ?_
        fun entries hentries => ensures_pure hentries
      refine ensures_foldlM (fun loaded entry hloaded => ?_) entries
        (.mapping .nil fun _ h => absurd h List.not_mem_nil)
      refine (ensures_loadWith ih entry.1).bind fun key _ => ?_
      refine (ensures_loadWith ih entry.2).bind fun value hvalue => ?_
      exact ensures_lift fun others h => distinct_insertPair? h hloaded hvalue

/-- No mapping of a parsed value has two equal keys. -/
theorem distinct_parse? {bytes : List UInt8} {v : Value} (h : parse? bytes = some v) :
    v.Distinct := by
  simp only [parse?, Option.bind_eq_bind, Option.bind_eq_some_iff] at h
  obtain ⟨text, -, tokens, -, root, -, h⟩ := h
  obtain ⟨out, hout, rfl⟩ := Option.map_eq_some_iff.mp h
  exact ensures_loadWith (ensures_loadContent _ _) root _ _ hout

end RestThrift.Yaml
