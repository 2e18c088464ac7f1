import Mathlib
import RestThrift.Table

/-!
# Sorted tables as finite maps

An insertion changes the answer at one key and keeps the keys in strictly ascending order, so that
a table that was built by insertions has at most one entry for a key.
-/
namespace RestThrift.Table

variable {α : Type} {table : Table α} {key k : String} {a : α}

/-- The keys stand in strictly ascending order. -/
def Sorted (table : Table α) : Prop := table.keys.Pairwise (· < ·)

@[simp] theorem keys_nil : keys ([] : Table α) = [] := rfl

@[simp] theorem keys_cons (entry : String × α) (table : Table α) :
    keys (entry :: table) = entry.1 :: table.keys := rfl

theorem sorted_nil : Sorted ([] : Table α) := List.Pairwise.nil

theorem sorted_cons {entry : String × α} :
    Sorted (entry :: table) ↔ (∀ k ∈ table.keys, entry.1 < k) ∧ Sorted table :=
  List.pairwise_cons

theorem Sorted.nodup (h : Sorted table) : table.keys.Nodup := h.imp fun hlt => ne_of_lt hlt

/-! ## Look-up -/

theorem mem_of_get? (h : table.get? key = some a) : (key, a) ∈ table := by
  induction table with
  | nil => simp [get?] at h
  | cons entry rest ih =>
    obtain ⟨head, b⟩ := entry
    simp only [get?] at h
    split at h
    · rename_i hk
      obtain rfl := Option.some.inj h
      exact hk ▸ List.mem_cons_self
    · exact List.mem_cons_of_mem _ (ih h)

theorem mem_keys_of_get? (h : table.get? key = some a) : key ∈ table.keys :=
  List.mem_map.mpr ⟨_, mem_of_get? h, rfl⟩

/-- Without repeated keys every entry is found. -/
theorem get?_of_mem (hn : table.keys.Nodup) (h : (key, a) ∈ table) : table.get? key = some a := by
  induction table with
  | nil => simp at h
  | cons entry rest ih =>
    obtain ⟨hnot, hrest⟩ := List.nodup_cons.mp hn
    rcases List.mem_cons.mp h with rfl | h
    · simp [get?]
    · have hkey : key ∈ keys rest := List.mem_map.mpr ⟨_, h, rfl⟩
      have hne : entry.1 ≠ key := fun he => hnot (by rwa [← he] at hkey)
      simp only [get?, hne, if_false]
      exact ih hrest h

theorem get?_eq_none_iff : table.get? key = none ↔ key ∉ table.keys := by
  induction table with
  | nil => simp [get?]
  | cons entry rest ih =>
    by_cases hk : entry.1 = key
    · simp [get?, hk]
    · simp [get?, hk, ih, Ne.symm hk]

theorem exists_get?_of_mem_keys (h : key ∈ table.keys) : ∃ a, table.get? key = some a := by
  cases hget : table.get? key with
  | some a => exact ⟨a, rfl⟩
  | none => exact absurd h (get?_eq_none_iff.mp hget)

/-! ## Insertion -/

/-- An insertion changes the answer at its own key only. -/
theorem get?_insert : (table.insert key a).get? k = if key = k then some a else table.get? k := by
  induction table with
  | nil => simp [insert, get?]
  | cons entry rest ih =>
    simp only [insert]
    split
    · rename_i he
      by_cases hk : key = k <;> simp [get?, ← he, hk]
    · split
      · simp [get?]
      · rename_i hne _
        by_cases hk : entry.1 = k
        · have hne' : key ≠ k := fun he => hne (he.trans hk.symm)
          simp [get?, hk, hne']
        · simp [get?, hk, ih]

theorem mem_keys_insert : k ∈ (table.insert key a).keys ↔ k = key ∨ k ∈ table.keys := by
  induction table with
  | nil => simp [insert]
  | cons entry rest ih =>
    simp only [insert]
    split
    · rename_i he
      simp [he]
    · split
      · simp
      · simp only [keys_cons, List.mem_cons, ih]
        tauto

/-- A new entry is added to the others. -/
theorem insert_perm (h : table.get? key = none) :
    (table.insert key a).Perm ((key, a) :: table) := by
  induction table with
  | nil => exact List.Perm.refl _
  | cons entry rest ih =>
    simp only [get?] at h
    split at h
    · simp at h
    · rename_i hne
      rw [insert, if_neg (Ne.symm hne)]
      split
      · exact List.Perm.refl _
      · exact ((ih h).cons entry).trans (List.Perm.swap _ _ _)

theorem mem_of_mem_insert {entry : String × α} (h : entry ∈ table.insert key a) :
    entry = (key, a) ∨ entry ∈ table := by
  induction table with
  | nil => exact .inl (List.mem_singleton.mp h)
  | cons head rest ih =>
    simp only [insert] at h
    split at h
    · rcases List.mem_cons.mp h with h | h
      · exact .inl h
      · exact .inr (List.mem_cons_of_mem _ h)
    · split at h
      · exact List.mem_cons.mp h
      · rcases List.mem_cons.mp h with rfl | h
        · exact .inr List.mem_cons_self
        · exact (ih h).imp_right (List.mem_cons_of_mem _)

theorem Sorted.insert (h : Sorted table) : Sorted (table.insert key a) := by
  induction table with
  | nil => simp [Sorted, Table.insert]
  | cons entry rest ih =>
    obtain ⟨hlt, hrest⟩ := sorted_cons.mp h
    simp only [Table.insert]
    split
    · rename_i he
      exact sorted_cons.mpr ⟨fun k hk => he ▸ hlt k hk, hrest⟩
    · split
      · rename_i hkey
        refine sorted_cons.mpr ⟨fun k hk => ?_, h⟩
        rcases List.mem_cons.mp hk with rfl | hk
        · exact hkey
        · exact lt_trans hkey (hlt k hk)
      · rename_i hne hnot
        refine sorted_cons.mpr ⟨fun k hk => ?_, ih hrest⟩
        rcases mem_keys_insert.mp hk with rfl | hk
        · exact lt_of_le_of_ne (not_lt.mp hnot) (Ne.symm hne)
        · exact hlt k hk

/-- Insert entries in turn. -/
def insertAll (entries : List (String × α)) (table : Table α) : Table α :=
  entries.foldl (fun table entry => Table.insert entry.1 entry.2 table) table

theorem Sorted.insertAll (entries : List (String × α)) (h : Sorted table) :
    Sorted (insertAll entries table) := by
  induction entries generalizing table with
  | nil => exact h
  | cons entry rest ih => exact ih h.insert

theorem mem_of_mem_insertAll {entries : List (String × α)} {entry : String × α}
    (h : entry ∈ insertAll entries table) : entry ∈ entries ∨ entry ∈ table := by
  induction entries generalizing table with
  | nil => exact .inr h
  | cons head rest ih =>
    rcases ih h with h | h
    · exact .inl (List.mem_cons_of_mem _ h)
    · rcases mem_of_mem_insert h with rfl | h
      · exact .inl List.mem_cons_self
      · exact .inr h

theorem sorted_ofList (entries : List (String × α)) : Sorted (ofList entries) :=
  sorted_nil.insertAll entries

theorem mem_of_mem_ofList {entries : List (String × α)} {entry : String × α}
    (h : entry ∈ ofList entries) : entry ∈ entries :=
  (mem_of_mem_insertAll h).resolve_right List.not_mem_nil

/-! ## Updates -/

variable {empty : α} {change : α → α}

theorem get?_update : (table.update key empty change).get? k =
    if key = k then some (change ((table.get? key).getD empty)) else table.get? k :=
  get?_insert

theorem getD_update : ((table.update key empty change).get? k).getD empty =
    if key = k then change ((table.get? k).getD empty) else (table.get? k).getD empty := by
  rw [get?_update]
  split
  · rename_i h
    simp [h]
  · rfl

theorem mem_keys_update : k ∈ (table.update key empty change).keys ↔ k = key ∨ k ∈ table.keys :=
  mem_keys_insert

theorem Sorted.update (h : Sorted table) : Sorted (table.update key empty change) := h.insert

/-- What a change keeps of values holds of all values after an update. -/
theorem forall_mem_update {P : α → Prop} (hempty : P empty) (hchange : ∀ a, P a → P (change a))
    (h : ∀ entry ∈ table, P entry.2) : ∀ entry ∈ table.update key empty change, P entry.2 := by
  intro entry hentry
  rcases mem_of_mem_insert hentry with rfl | hentry
  · refine hchange _ ?_
    cases hget : table.get? key with
    | none => exact hempty
    | some a => exact h _ (mem_of_get? hget)
  · exact h entry hentry

/-! ## Tables by their answers -/

/-- A sorted table is determined by its answers. -/
theorem Sorted.eq_of_get? {other : Table α} (h : Sorted table) (hother : Sorted other)
    (hget : ∀ k, table.get? k = other.get? k) : table = other := by
  have hmem : ∀ {t : Table α}, Sorted t → ∀ entry, entry ∈ t ↔ t.get? entry.1 = some entry.2 :=
    fun ht _ => ⟨get?_of_mem ht.nodup, mem_of_get?⟩
  have hperm : table.Perm other := by
    refine (List.perm_ext_iff_of_nodup h.nodup.of_map hother.nodup.of_map).mpr fun entry => ?_
    rw [hmem h, hmem hother, hget]
  have hlt : ∀ {t : Table α}, Sorted t → t.Pairwise fun a b => a.1 < b.1 :=
    fun ht => List.pairwise_map.mp ht
  exact hperm.eq_of_pairwise (fun a b _ _ hab hba => absurd hab (lt_asymm hba)) (hlt h) (hlt hother)

/-- Of the entries with a key the last one is kept. -/
theorem get?_insertAll (entries : List (String × α)) : (insertAll entries table).get? k =
    (((entries.filter fun entry => entry.1 = k).getLast?).map Prod.snd).or (table.get? k) := by
  induction entries generalizing table with
  | nil => rfl
  | cons entry rest ih =>
    have hstep : insertAll (entry :: rest) table =
      insertAll rest (Table.insert entry.1 entry.2 table) := rfl
    rw [hstep, ih, get?_insert]
    by_cases hk : entry.1 = k
    · simp only [hk, if_pos, List.filter_cons, decide_true, List.getLast?_cons, Option.map_some,
        Option.some_or]
      cases (rest.filter fun entry => entry.1 = k).getLast? <;> rfl
    · simp only [hk, List.filter_cons, decide_false, Bool.false_eq_true, if_false]

theorem ofList_eq_of_filter {entries others : List (String × α)}
    (h : ∀ k, (entries.filter fun entry => entry.1 = k) = others.filter fun entry => entry.1 = k) :
    ofList entries = ofList others := by
  refine (sorted_ofList entries).eq_of_get? (sorted_ofList others) fun k => ?_
  change (insertAll entries []).get? k = (insertAll others []).get? k
  rw [get?_insertAll, get?_insertAll, h]

/-- Entries with different keys make one table in any order. -/
theorem ofList_eq_of_perm {entries others : List (String × α)} (h : entries.Perm others)
    (hnodup : (entries.map Prod.fst).Nodup) : ofList entries = ofList others := by
  refine ofList_eq_of_filter fun k => ?_
  have hne : ∀ {l : List (String × α)}, (l.map Prod.fst).Nodup →
      (l.filter fun entry => entry.1 = k).Pairwise fun a b => a.1 ≠ b.1 :=
    fun hl => (List.pairwise_map.mp hl).filter _
  have hothers : (others.map Prod.fst).Nodup := (h.map Prod.fst).nodup_iff.mp hnodup
  refine (h.filter _).eq_of_pairwise (fun a b ha hb hab _ => absurd ?_ hab) (hne hnodup)
    (hne hothers)
  rw [of_decide_eq_true (List.mem_filter.mp ha).2, of_decide_eq_true (List.mem_filter.mp hb).2]

/-- What has one key stays in its order when a list is sorted by keys. -/
theorem filter_mergeSort {β : Type} (key : β → String) (l : List β) :
    ((l.mergeSort fun a b => decide (key a ≤ key b)).filter fun a => key a = k) =
      l.filter fun a => key a = k := by
  have htrans : ∀ a b c : β, decide (key a ≤ key b) = true → decide (key b ≤ key c) = true →
      decide (key a ≤ key c) = true := by
    intro a b c hab hbc
    exact decide_eq_true (le_trans (of_decide_eq_true hab) (of_decide_eq_true hbc))
  have htotal : ∀ a b : β, (decide (key a ≤ key b) || decide (key b ≤ key a)) = true := by
    intro a b
    simp only [Bool.or_eq_true, decide_eq_true_eq]
    exact le_total _ _
  have hle : (l.filter fun a => key a = k).Pairwise fun a b => decide (key a ≤ key b) = true := by
    refine List.pairwise_of_forall_mem_list fun a ha b hb => decide_eq_true (le_of_eq ?_)
    rw [of_decide_eq_true (List.mem_filter.mp ha).2, of_decide_eq_true (List.mem_filter.mp hb).2]
  have hsub := (List.sublist_mergeSort htrans htotal hle List.filter_sublist).filter
    fun a => key a = k
  rw [List.filter_filter] at hsub
  simp only [Bool.and_self] at hsub
  exact (hsub.eq_of_length ((List.mergeSort_perm l _).filter _).length_eq.symm).symm

/-! ## Change of contents -/

section Contents

variable {β : Type} {f : α → β}

/-- The table with its contents changed. -/
def mapValues (f : α → β) (table : Table α) : Table β := table.map (Prod.map id f)

@[simp] theorem keys_mapValues : keys (mapValues f table) = table.keys := by
  simp only [keys, mapValues, List.map_map]
  rfl

theorem get?_mapValues : (mapValues f table).get? k = (table.get? k).map f := by
  induction table with
  | nil => rfl
  | cons entry rest ih =>
    change (if entry.1 = k then some (f entry.2) else (mapValues f rest).get? k) =
      (if entry.1 = k then some entry.2 else get? k rest).map f
    rw [ih, apply_ite (Option.map f)]
    rfl

theorem mem_of_lookup {κ : Type} [BEq κ] [LawfulBEq κ] {k : κ} {l : List (κ × α)}
    (h : l.lookup k = some a) : (k, a) ∈ l := by
  obtain ⟨before, after, rfl, -⟩ := List.lookup_eq_some_iff.mp h
  exact List.mem_append_right _ List.mem_cons_self

theorem lookup_map {κ : Type} [BEq κ] {k : κ} (l : List (κ × α)) :
    (l.map (Prod.map id f)).lookup k = (l.lookup k).map f := by
  induction l with
  | nil => rfl
  | cons entry rest ih =>
    obtain ⟨head, a⟩ := entry
    simp only [List.map_cons, Prod.map, id_eq, List.lookup_cons]
    cases k == head
    · exact ih
    · rfl

theorem insert_mapValues :
    (mapValues f table).insert key (f a) = mapValues f (table.insert key a) := by
  induction table with
  | nil => rfl
  | cons entry rest ih =>
    change (if key = entry.1 then (key, f a) :: mapValues f rest
      else if key < entry.1 then (key, f a) :: (entry.1, f entry.2) :: mapValues f rest
      else (entry.1, f entry.2) :: (mapValues f rest).insert key (f a)) =
      mapValues f (if key = entry.1 then _ else if key < entry.1 then _ else _)
    rw [ih]
    split
    · rfl
    · split <;> rfl

theorem insertAll_mapValues (entries : List (String × α)) (table : Table α) :
    insertAll (entries.map (Prod.map id f)) (mapValues f table) =
      mapValues f (insertAll entries table) := by
  induction entries generalizing table with
  | nil => rfl
  | cons entry rest ih =>
    change insertAll (rest.map (Prod.map id f)) ((mapValues f table).insert entry.1 (f entry.2)) = _
    rw [insert_mapValues, ih]
    rfl

theorem ofList_map (entries : List (String × α)) :
    ofList (entries.map (Prod.map id f)) = mapValues f (ofList entries) :=
  insertAll_mapValues entries []

theorem get?_eq_lookup (table : Table α) (name : String) : table.get? name = table.lookup name := by
  induction table with
  | nil => rfl
  | cons entry rest ih =>
    obtain ⟨key, a⟩ := entry
    by_cases hname : key = name
    · simp [get?, hname]
    · have hne : (name == key) = false := by simpa using Ne.symm hname
      simp [get?, List.lookup_cons, hname, hne, ih]

theorem lookup_reverse (h : table.keys.Nodup) (name : String) :
    table.reverse.lookup name = table.get? name := by
  have hkeys : keys table.reverse = table.keys.reverse := List.map_reverse
  have hreverse : (keys table.reverse).Nodup := by rwa [hkeys, List.nodup_reverse]
  rw [← get?_eq_lookup]
  cases hget : table.get? name with
  | none =>
    rw [get?_eq_none_iff] at hget ⊢
    rwa [hkeys, List.mem_reverse]
  | some a => exact get?_of_mem hreverse (List.mem_reverse.mpr (mem_of_get? hget))

end Contents

end RestThrift.Table

namespace RestThrift

/-- The values of one kind, wrapped again, are those that are of the kind. -/
theorem map_filterMap_eq_filter {α β : Type} {l : List α} {kind? : α → Option β}
    {wrap : β → α} {is : α → Bool} (h : ∀ a, (kind? a).map wrap = if is a then some a else none) :
    (l.filterMap kind?).map wrap = l.filter is := by
  rw [List.map_filterMap]
  induction l with
  | nil => rfl
  | cons a rest ih =>
    rw [List.filterMap_cons, h, List.filter_cons]
    cases is a <;> simp [ih]

end RestThrift
