import Mathlib
import RestThrift.Proofs.Reordering
import RestThrift.Proofs.Rewriting

/-!
# Reading in normal form

A value whose keys are different texts and its normal form are read alike: what is read from the
normal form are the same tables and records, with default values in normal form. Fields are looked
up by name and tables are sorted, so that no reader depends on the order of entries.
-/
namespace RestThrift

namespace Api.Reading

open RestThrift.Yaml (Value)
open scoped List

/-! ## Lists of readings -/

section Lists

variable {α β κ : Type}

/-- Entries that are read in another order give the same results in another order. -/
theorem mapM_perm {g : α → Option β} {l l' : List α} {bs : List β} (hperm : l ~ l')
    (h : l'.mapM g = some bs) : ∃ others, l.mapM g = some others ∧ others ~ bs := by
  obtain ⟨others, hothers, hbs⟩ := List.perm_comp_forall₂ hperm (mapM_eq_some_iff.mp h)
  exact ⟨others, mapM_eq_some_iff.mpr hothers, hbs⟩

theorem lookup_perm [DecidableEq κ] {l l' : List (κ × α)} (hperm : l ~ l')
    (hnodup : (l.map Prod.fst).Nodup) (k : κ) : l.lookup k = l'.lookup k := by
  induction hperm with
  | nil => rfl
  | cons entry _ ih =>
    rw [List.lookup_cons, List.lookup_cons, ih (List.nodup_cons.mp hnodup).2]
  | swap a b rest =>
    obtain ⟨first, v⟩ := a
    obtain ⟨second, w⟩ := b
    have hne : second ≠ first := fun heq =>
      (List.nodup_cons.mp hnodup).1 (heq ▸ List.mem_cons_self)
    by_cases hk : k = second
    · have hfirst : (k == first) = false := beq_eq_false_iff_ne.mpr (hk ▸ hne)
      simp only [List.lookup_cons, hk, beq_self_eq_true, hk ▸ hfirst]
    · simp only [List.lookup_cons, beq_eq_false_iff_ne.mpr hk]
  | trans hfirst _ ih ih' =>
    exact (ih hnodup).trans (ih' ((hfirst.map Prod.fst).nodup_iff.mp hnodup))

end Lists

/-! ## Readers -/

/-- Default values are put in normal form as well. -/
def inOrder : Edit := { default := Value.normal }

/-- Values whose keys are different texts are put in normal form, whatever they are read as. -/
def sorting : Rewriting where
  apply _ := Value.normal
  edit := inOrder
  Fits := Value.Keyed

section Readers

variable {α : Type} {φ : α → α} {read : Value → Option α} {s : Setting} {v : Value}
  {role outer inner : Role}

theorem strip_normal (v : Value) : s.strip v.normal = (s.strip v).normal := by
  cases s with
  | lenient => exact v.normal_untagged
  | strict => rfl

theorem keyed_strip (hv : v.Keyed) : (s.strip v).Keyed := by
  cases s with
  | lenient => exact hv.untagged
  | strict => exact hv

theorem text?_normal : sorting.Follows role s.text? id := by
  intro v _
  change s.text? v.normal = _
  rw [Setting.text?, strip_normal, Setting.text?]
  cases s.strip v <;> rfl

theorem flag?_normal : sorting.Follows role s.flag? id := by
  intro v _
  change s.flag? v.normal = _
  rw [Setting.flag?, strip_normal, Setting.flag?]
  cases s.strip v <;> rfl

theorem items?_normal (v : Value) :
    s.items? v.normal = (s.items? v).map (List.map Value.normal) := by
  unfold Setting.items?
  rw [strip_normal]
  cases s.strip v with
  | sequence items => simp only [Value.normal, Value.normalItems_eq, Option.map_some]
  | _ => cases s <;> rfl

theorem keyed_items? {items : List Value} (hv : v.Keyed) (h : s.items? v = some items) :
    ∀ item ∈ items, item.Keyed := by
  have hstrip := keyed_strip (s := s) hv
  unfold Setting.items? at h
  split at h
  · rename_i heq
    obtain rfl := Option.some.inj h
    rw [heq] at hstrip
    cases hstrip with
    | sequence hitems => exact hitems
  · obtain rfl := Option.some.inj h
    exact fun _ h => absurd h List.not_mem_nil
  · cases h

theorem list?_normal (hread : sorting.Follows inner read φ) :
    sorting.Follows outer (s.list? read) (List.map φ) := by
  intro v hv
  change s.list? read v.normal = _
  rw [Setting.list?, items?_normal, Setting.list?]
  cases hitems : s.items? v with
  | none => rfl
  | some items =>
    have hkeyed := keyed_items? hv hitems
    exact mapM_follows fun item hitem => hread item (hkeyed item hitem)

/-- The entries of a mapping whose keys are different texts. -/
structure KeyedEntries (entries : List (Value × Value)) : Prop where
  text : ∀ entry ∈ entries, ∃ s, entry.1 = .text s
  nodup : (entries.map Prod.fst).Nodup
  values : ∀ entry ∈ entries, entry.2.Keyed

section Normal

variable {entries : List (Value × Value)} (hkeyed : KeyedEntries entries)

include hkeyed

theorem KeyedEntries.text_normal :
    ∀ entry ∈ Value.byKey (Value.normalEntries entries), ∃ s, entry.1 = .text s := by
  intro entry hentry
  obtain ⟨other, hother, rfl⟩ :=
    List.mem_map.mp ((Value.normalized_perm entries).mem_iff.mp hentry)
  exact hkeyed.text other hother

theorem KeyedEntries.nodup_normal :
    ((Value.named (Value.byKey (Value.normalEntries entries))).map Prod.fst).Nodup := by
  rw [((Value.named_perm entries).map Prod.fst).nodup_iff, List.map_map]
  exact Value.named_nodup hkeyed.text hkeyed.nodup

end Normal

theorem entries?_normal (v : Value) : s.entries? v.normal =
    (s.entries? v).map fun entries => Value.byKey (Value.normalEntries entries) := by
  unfold Setting.entries?
  rw [strip_normal]
  cases s.strip v with
  | mapping entries => simp only [Value.normal, Option.map_some]
  | null =>
    cases s with
    | lenient =>
      simp only [Value.normal, Option.map_some, Value.normalEntries, Value.byKey,
        List.mergeSort_nil]
    | strict => rfl
  | _ => cases s <;> rfl

theorem keyed_entries? {entries : List (Value × Value)} (hv : v.Keyed)
    (h : s.entries? v = some entries) : KeyedEntries entries := by
  have hstrip := keyed_strip (s := s) hv
  unfold Setting.entries? at h
  split at h
  · rename_i heq
    obtain rfl := Option.some.inj h
    rw [heq] at hstrip
    cases hstrip with
    | mapping htext hnodup hvalues => exact ⟨htext, hnodup, hvalues⟩
  · obtain rfl := Option.some.inj h
    exact ⟨fun _ h => absurd h List.not_mem_nil, List.nodup_nil,
      fun _ h => absurd h List.not_mem_nil⟩
  · cases h

/-- Results in another order make the same table, if their order does not matter to it. -/
theorem ofList_mapM_perm {α β : Type} {g : α → Option (String × β)} {l l' : List α}
    (hperm : l ~ l') (h : ∀ bs others, l'.mapM g = some bs → l.mapM g = some others →
      others ~ bs → Table.ofList others = Table.ofList bs) :
    (l.mapM g).map Table.ofList = (l'.mapM g).map Table.ofList := by
  cases hright : l'.mapM g with
  | some bs =>
    obtain ⟨others, hothers, hbs⟩ := mapM_perm hperm hright
    rw [hothers, Option.map_some, Option.map_some, h bs others hright hothers hbs]
  | none =>
    cases hleft : l.mapM g with
    | none => rfl
    | some bs =>
      obtain ⟨others, hothers, -⟩ := mapM_perm hperm.symm hleft
      rw [hright] at hothers
      cases hothers

/-- Entries that are read under names are read under those of the mapping. -/
theorem KeyedEntries.names_read {α : Type} {entries : List (Value × Value)}
    {name? : Value → Option String} {bs : List (String × α)} (hkeyed : KeyedEntries entries)
    (hname : ∀ s, name? (.text s) = some s)
    (h : List.Forall₂ (fun entry b => name? entry.1 = some b.1) entries bs) :
    bs.map Prod.fst = (Value.named entries).map Prod.fst := by
  have hnames : (entries.map fun entry => name? entry.1) = bs.map fun b => some b.1 := by
    rw [← List.forall₂_eq_eq_eq, List.forall₂_map_left_iff, List.forall₂_map_right_iff]
    exact h
  have htexts : (entries.map fun entry => name? entry.1) =
      entries.map fun entry => some (Value.keyName entry.1) := by
    refine List.map_congr_left fun entry hentry => ?_
    obtain ⟨name, hentry⟩ := hkeyed.text entry hentry
    rw [hentry, hname]
    rfl
  refine List.map_injective_iff.mpr (Option.some_injective String) ?_
  rw [Value.named, List.map_map, List.map_map, List.map_map]
  exact hnames.symm.trans htexts

theorem table?_normal {name? : Value → Option String} (hname : ∀ s, name? (.text s) = some s)
    (hread : sorting.Follows inner read φ) :
    sorting.Follows outer (s.table? name? read) (Table.mapValues φ) := by
  intro v hv
  change s.table? name? read v.normal = _
  rw [Setting.table?, entries?_normal, Setting.table?]
  cases hentries : s.entries? v with
  | none => rfl
  | some entries =>
    have hkeyed := keyed_entries? hv hentries
    let pair (entry : Value × Value) : Option (String × α) := do
      let name ← name? entry.1
      let content ← read entry.2
      return (name, content)
    have hpair : ∀ entry ∈ entries, pair (Prod.map id Value.normal entry) =
        (pair entry).map (Prod.map id φ) := by
      intro entry hentry
      refine bind_follows (φ := id) (by rw [Option.map_id]; rfl) fun name => ?_
      exact bind_follows (hread _ (hkeyed.values entry hentry)) fun content => rfl
    have hmapped : (entries.map (Prod.map id Value.normal)).mapM pair =
        (entries.mapM pair).map (List.map (Prod.map id φ)) := mapM_follows hpair
    have hkeys : ∀ bs, entries.mapM pair = some bs →
        bs.map Prod.fst = (Value.named entries).map Prod.fst := by
      intro bs hbs
      refine hkeyed.names_read hname ((mapM_eq_some_iff.mp hbs).imp fun entry b hb => ?_)
      obtain ⟨name, hname, hb⟩ := Option.bind_eq_some_iff.mp hb
      obtain ⟨content, -, hb⟩ := Option.bind_eq_some_iff.mp hb
      obtain rfl := Option.some.inj hb
      exact hname
    change (((Value.byKey (Value.normalEntries entries)).mapM pair).map Table.ofList) =
      ((entries.mapM pair).map Table.ofList).map (Table.mapValues φ)
    rw [ofList_mapM_perm (Value.normalized_perm entries)]
    · change ((entries.map (Prod.map id Value.normal)).mapM pair).map Table.ofList = _
      rw [hmapped, Option.map_map, Option.map_map]
      exact congrArg (Option.map · _) (funext fun bs => Table.ofList_map bs)
    · intro bs others hbs _ hothers
      obtain ⟨read, hread, rfl⟩ := Option.map_eq_some_iff.mp (hmapped.symm.trans hbs)
      refine (Table.ofList_eq_of_perm hothers.symm ?_).symm
      rw [List.map_map]
      exact hkeys read hread ▸ Value.named_nodup hkeyed.text hkeyed.nodup

/-! ## Records -/

section Collection

variable {names : List String} {entries : List (Value × Value)} {fields : Fields}

theorem field?_text (name : String) :
    s.field? names (.text name) = some (if names.contains name then some name else none) := by
  cases s <;> rfl

/-- All known fields are collected, as no key occurs twice. -/
theorem collect?_eq (htext : ∀ entry ∈ entries, ∃ s, entry.1 = .text s)
    (hnodup : (fields.map Prod.fst ++ (Value.named entries).map Prod.fst).Nodup) :
    s.collect? names entries fields = some (fields ++
      (Value.named entries).filter fun entry => names.contains entry.1) := by
  induction entries generalizing fields with
  | nil => simp [Setting.collect?, Value.named]
  | cons entry rest ih =>
    obtain ⟨⟨name, hname⟩, hrest⟩ := List.forall_mem_cons.mp htext
    obtain ⟨key, value⟩ := entry
    subst hname
    have hcons : Value.named ((.text name, value) :: rest) =
      (name, value) :: Value.named rest := rfl
    rw [hcons] at hnodup ⊢
    obtain ⟨hnew, hothers⟩ := List.nodup_cons.mp (List.nodup_middle.mp hnodup)
    simp only [Setting.collect?, field?_text]
    by_cases hknown : names.contains name
    · have hfresh : fields.lookup name = none := by
        refine List.lookup_eq_none_iff.mpr fun field hfield => bne_iff_ne.mpr ?_
        intro heq
        exact hnew (List.mem_append_left _ (List.mem_map.mpr ⟨field, hfield, heq.symm⟩))
      simp only [hknown, if_true, hfresh, Option.isSome_none, Bool.false_eq_true, if_false]
      rw [ih hrest (by simpa using hnodup), List.filter_cons, if_pos hknown, List.append_assoc]
      rfl
    · simp only [hknown, Bool.false_eq_true, if_false]
      rw [ih hrest hothers, List.filter_cons, if_neg hknown]

theorem collected_follows (hkeyed : KeyedEntries entries) : ∃ fields fields',
    s.collect? names entries [] = some fields ∧
    s.collect? names (Value.byKey (Value.normalEntries entries)) [] = some fields' ∧
    sorting.Records role fields fields' := by
  have hperm := Value.named_perm entries
  refine ⟨_, _, collect?_eq hkeyed.text (Value.named_nodup hkeyed.text hkeyed.nodup),
    collect?_eq hkeyed.text_normal hkeyed.nodup_normal, ?_, ?_⟩
  · intro name
    rw [← Table.lookup_map, List.nil_append, List.nil_append]
    refine lookup_perm ?_ (hkeyed.nodup_normal.sublist (List.filter_sublist.map _)) name
    have hfilter := hperm.filter fun entry => names.contains entry.1
    rwa [List.filter_map] at hfilter
  · intro name v hv
    have hmem := List.mem_of_mem_filter (Table.mem_of_lookup hv)
    obtain ⟨entry, hentry, heq⟩ := List.mem_map.mp hmem
    obtain ⟨-, rfl⟩ := Prod.mk.inj heq
    exact hkeyed.values entry hentry

theorem record?_normal (hv : v.Keyed) (names : List String) :
    (s.record? names v = none ∧ s.record? names v.normal = none) ∨
    ∃ fields fields', s.record? names v = some fields ∧
      s.record? names v.normal = some fields' ∧ sorting.Records role fields fields' := by
  have hobject : ((s.entries? v).bind fun entries => s.collect? names entries []) = none ∧
      ((s.entries? v.normal).bind fun entries => s.collect? names entries []) = none ∨
      ∃ fields fields',
        ((s.entries? v).bind fun entries => s.collect? names entries []) = some fields ∧
        ((s.entries? v.normal).bind fun entries => s.collect? names entries []) = some fields' ∧
        sorting.Records role fields fields' := by
    rw [entries?_normal]
    cases hentries : s.entries? v with
    | none => exact .inl ⟨rfl, rfl⟩
    | some entries => exact .inr (collected_follows (keyed_entries? hv hentries))
  cases s with
  | lenient => exact hobject
  | strict =>
    cases v with
    | sequence items =>
      cases hv with
      | sequence hitems =>
        simp only [Value.normal, Value.normalItems_eq, Setting.record?, List.length_map]
        split
        · refine .inr ⟨_, _, rfl, rfl, fun name => ?_, fun name v hfound => ?_⟩
          · rw [List.zip_map_right, Table.lookup_map]
            rfl
          · exact hitems v (List.of_mem_zip (Table.mem_of_lookup hfound)).2
        · exact .inl ⟨rfl, rfl⟩
    | _ => exact hobject

end Collection

end Readers

/-! ## The rewriting -/

theorem typeNames?_normal {role : Role} : sorting.Follows role typeNames? id := by
  intro v hv
  cases hv with
  | sequence hitems =>
    have htext : sorting.Follows .plain Setting.strict.text? id := text?_normal
    have hnames : ∀ item ∈ _, Setting.strict.text? item.normal =
        (Setting.strict.text? item).map id := fun item hitem => htext item (hitems item hitem)
    simp only [sorting, Value.normal, Value.normalItems_eq, typeNames?]
    rw [mapM_follows hnames, List.map_id_fun, Option.map_id, Option.map_id]
    rfl
  | _ => rfl

theorem choice?_normal {role : Role} : sorting.Follows role choice? id := by
  intro v _
  cases v with
  | number n => cases n <;> rfl
  | _ => rfl

theorem sorting_lawful : sorting.Lawful where
  keeps := rfl
  null _ v := by cases v <;> simp [sorting, Value.normal]
  bool _ v b := by cases v <;> simp [sorting, Value.normal]
  depth _ _ h := h.depth_normal
  hasTag _ _ h := h.hasTag_normal
  default _ := rfl
  reference _ := text?_normal
  text _ := text?_normal
  flag _ := flag?_normal
  choice := choice?_normal
  typeNames := typeNames?_normal
  list _ _ hread := list?_normal hread
  table _ _ _ hname hread := table?_normal hname hread
  record _ _ hv := record?_normal hv _

/-! ## Dialects -/

/-- At the root of a document a key is found by its text. -/
theorem rootField?_eq_lookup {entries : List (Value × Value)}
    (htext : ∀ entry ∈ entries, ∃ s, entry.1 = .text s) (name : String) :
    rootField? name entries = (Value.named entries).lookup name := by
  induction entries with
  | nil => rfl
  | cons entry rest ih =>
    obtain ⟨⟨s, hs⟩, hrest⟩ := List.forall_mem_cons.mp htext
    obtain ⟨key, value⟩ := entry
    subst hs
    have hsame : Value.same (.text s) (.text name) = (name == s) := by
      rw [Value.same, Bool.beq_comm]
    have hcons : Value.named ((.text s, value) :: rest) = (s, value) :: Value.named rest := rfl
    rw [hcons, List.lookup_cons, ← ih hrest, rootField?, List.find?_cons, hsame]
    cases name == s <;> rfl

theorem rootField?_normal {entries : List (Value × Value)} (hkeyed : KeyedEntries entries)
    (name : String) : rootField? name (Value.byKey (Value.normalEntries entries)) =
      (rootField? name entries).map Value.normal := by
  have hperm := Value.named_perm entries
  rw [rootField?_eq_lookup hkeyed.text_normal, rootField?_eq_lookup hkeyed.text,
    lookup_perm hperm hkeyed.nodup_normal, Table.lookup_map]

/-- The dialect does not depend on the order of the sections. -/
theorem detect_normal {entries : List (Value × Value)} (hkeyed : KeyedEntries entries) :
    detect (Value.byKey (Value.normalEntries entries)) = detect entries := by
  have hversion : ∀ value : Value, versionText? value.normal = versionText? value := by
    intro value
    cases value <;> rfl
  simp only [detect, rootField?_normal hkeyed, Option.isSome_map, Option.bind_map,
    Function.comp_def, hversion]

end Api.Reading

end RestThrift
