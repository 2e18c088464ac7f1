import Mathlib
import RestThrift.Yaml.Value

/-!
# Entries in another order

Values that differ in the order of the entries of mappings only have one normal form, in which the
entries of each mapping stand in the order of their keys. Depth and tags do not depend on the order.
-/
namespace RestThrift.Yaml.Value

open scoped List

/-! ## Reordered values -/

/-- Two neighbouring entries of one mapping inside change places. -/
inductive Swap : Value → Value → Prop
  | entries (before after : List (Value × Value)) (a b : Value × Value) :
      Swap (.mapping (before ++ a :: b :: after)) (.mapping (before ++ b :: a :: after))
  | item (before after : List Value) {v v' : Value} (h : Swap v v') :
      Swap (.sequence (before ++ v :: after)) (.sequence (before ++ v' :: after))
  | value (before after : List (Value × Value)) (key : Value) {v v' : Value} (h : Swap v v') :
      Swap (.mapping (before ++ (key, v) :: after)) (.mapping (before ++ (key, v') :: after))
  | tagged (tag : String) {v v' : Value} (h : Swap v v') : Swap (.tagged tag v) (.tagged tag v')

/-- The values differ only in the order of the entries of mappings, at any depth. -/
def Reordered : Value → Value → Prop := Relation.ReflTransGen Swap

theorem Reordered.value {v v' : Value} (before after : List (Value × Value)) (key : Value)
    (h : Reordered v v') : Reordered (.mapping (before ++ (key, v) :: after))
      (.mapping (before ++ (key, v') :: after)) :=
  Relation.ReflTransGen.lift (fun v => Value.mapping (before ++ (key, v) :: after))
    (fun _ _ => Swap.value before after key) _ _ h

theorem reordered_append_of_perm {entries others : List (Value × Value)} (h : entries ~ others)
    (before : List (Value × Value)) :
    Reordered (.mapping (before ++ entries)) (.mapping (before ++ others)) := by
  induction h generalizing before with
  | nil => exact .refl
  | cons entry _ ih => simpa using ih (before ++ [entry])
  | swap a b after => exact .single (.entries before after b a)
  | trans _ _ ih ih' => exact (ih before).trans (ih' before)

/-- The entries of a mapping may come in any order. -/
theorem reordered_of_perm {entries others : List (Value × Value)} (h : entries ~ others) :
    Reordered (.mapping entries) (.mapping others) :=
  reordered_append_of_perm h []

/-- Keys of mappings are texts, at any depth. -/
inductive TextKeys : Value → Prop
  | null : TextKeys .null
  | bool (b : Bool) : TextKeys (.bool b)
  | number (n : Number) : TextKeys (.number n)
  | text (s : String) : TextKeys (.text s)
  | sequence {items : List Value} (h : ∀ item ∈ items, TextKeys item) : TextKeys (.sequence items)
  | mapping {entries : List (Value × Value)} (htext : ∀ entry ∈ entries, ∃ s, entry.1 = .text s)
      (h : ∀ entry ∈ entries, TextKeys entry.2) : TextKeys (.mapping entries)
  | tagged (tag : String) {v : Value} (h : TextKeys v) : TextKeys (.tagged tag v)

/-- Keys of mappings are different texts, at any depth. -/
inductive Keyed : Value → Prop
  | null : Keyed .null
  | bool (b : Bool) : Keyed (.bool b)
  | number (n : Number) : Keyed (.number n)
  | text (s : String) : Keyed (.text s)
  | sequence {items : List Value} (h : ∀ item ∈ items, Keyed item) : Keyed (.sequence items)
  | mapping {entries : List (Value × Value)} (htext : ∀ entry ∈ entries, ∃ s, entry.1 = .text s)
      (hnodup : (entries.map Prod.fst).Nodup) (h : ∀ entry ∈ entries, Keyed entry.2) :
      Keyed (.mapping entries)
  | tagged (tag : String) {v : Value} (h : Keyed v) : Keyed (.tagged tag v)

/-! ## Normal forms -/

/-- The text of a key. -/
def keyName : Value → String
  | .text s => s
  | _ => ""

def byKey (entries : List (Value × Value)) : List (Value × Value) :=
  entries.mergeSort fun a b => decide (keyName a.1 ≤ keyName b.1)

mutual
/-- The value with the entries of its mappings in the order of their keys. -/
def normal : Value → Value
  | .sequence items => .sequence (normalItems items)
  | .mapping entries => .mapping (byKey (normalEntries entries))
  | .tagged tag value => .tagged tag (normal value)
  | .null => .null
  | .bool b => .bool b
  | .number n => .number n
  | .text s => .text s

def normalItems : List Value → List Value
  | [] => []
  | item :: rest => normal item :: normalItems rest

def normalEntries : List (Value × Value) → List (Value × Value)
  | [] => []
  | (key, value) :: rest => (key, normal value) :: normalEntries rest
end

variable {v v' : Value} {items : List Value} {entries others : List (Value × Value)}

theorem normalItems_eq (items : List Value) : normalItems items = items.map normal := by
  induction items with
  | nil => rfl
  | cons item rest ih => rw [normalItems, ih, List.map_cons]

theorem normalEntries_eq (entries : List (Value × Value)) :
    normalEntries entries = entries.map fun entry => (entry.1, entry.2.normal) := by
  induction entries with
  | nil => rfl
  | cons entry rest ih => rw [normalEntries, ih, List.map_cons]

theorem byKey_perm (entries : List (Value × Value)) : byKey entries ~ entries :=
  List.mergeSort_perm _ _

/-- The entries of a normal form are those of the mapping, in another order. -/
theorem normalized_perm (entries : List (Value × Value)) :
    byKey (normalEntries entries) ~ entries.map fun entry => (entry.1, entry.2.normal) := by
  rw [normalEntries_eq]
  exact byKey_perm _

/-- The entries by the texts of their keys. -/
def named (entries : List (Value × Value)) : List (String × Value) :=
  entries.map (Prod.map keyName id)

theorem named_perm (entries : List (Value × Value)) :
    named (byKey (normalEntries entries)) ~ (named entries).map (Prod.map id normal) := by
  have hperm := (normalized_perm entries).map (Prod.map keyName id)
  rw [List.map_map] at hperm
  rwa [named, named, List.map_map]

/-- Different text keys have different texts. -/
theorem named_nodup (htext : ∀ entry ∈ entries, ∃ s, entry.1 = .text s)
    (hnodup : (entries.map Prod.fst).Nodup) : ((named entries).map Prod.fst).Nodup := by
  rw [named, List.map_map]
  have hkeys : entries.map Prod.fst = (entries.map (keyName ∘ Prod.fst)).map text := by
    rw [List.map_map]
    refine List.map_congr_left fun entry hentry => ?_
    obtain ⟨s, hs⟩ := htext entry hentry
    simp only [Function.comp_apply, hs, keyName]
  rw [hkeys] at hnodup
  exact hnodup.of_map _

theorem byKey_pairwise (entries : List (Value × Value)) :
    (byKey entries).Pairwise fun a b => keyName a.1 ≤ keyName b.1 := by
  have htrans : ∀ a b c : Value × Value, decide (keyName a.1 ≤ keyName b.1) = true →
      decide (keyName b.1 ≤ keyName c.1) = true → decide (keyName a.1 ≤ keyName c.1) = true := by
    intro a b c hab hbc
    exact decide_eq_true (le_trans (of_decide_eq_true hab) (of_decide_eq_true hbc))
  have htotal : ∀ a b : Value × Value,
      (decide (keyName a.1 ≤ keyName b.1) || decide (keyName b.1 ≤ keyName a.1)) = true := by
    intro a b
    simp only [Bool.or_eq_true, decide_eq_true_eq]
    exact le_total _ _
  exact (List.pairwise_mergeSort htrans htotal entries).imp of_decide_eq_true

/-- Different text keys have one order only. -/
theorem byKey_eq_of_perm (h : entries ~ others)
    (htext : ∀ entry ∈ entries, ∃ s, entry.1 = .text s) (hnodup : (entries.map Prod.fst).Nodup) :
    byKey entries = byKey others := by
  have hperm : byKey entries ~ byKey others :=
    (byKey_perm entries).trans (h.trans (byKey_perm others).symm)
  refine hperm.eq_of_pairwise (fun a b ha hb hab hba => ?_) (byKey_pairwise _) (byKey_pairwise _)
  have ha' := (byKey_perm entries).mem_iff.mp ha
  have hb' := h.mem_iff.mpr ((byKey_perm others).mem_iff.mp hb)
  obtain ⟨s, hs⟩ := htext a ha'
  obtain ⟨t, ht⟩ := htext b hb'
  have hname : keyName a.1 = keyName b.1 := le_antisymm hab hba
  rw [hs, ht] at hname
  have hkey : a.1 = b.1 := by
    rw [hs, ht]
    exact congrArg text hname
  exact List.inj_on_of_nodup_map hnodup ha' hb' hkey

theorem Swap.keyed (h : Swap v v') (hv : Keyed v) : Keyed v' := by
  induction h with
  | entries before after a b =>
    cases hv with
    | mapping htext hnodup hvalues =>
      have hperm : before ++ b :: a :: after ~ before ++ a :: b :: after :=
        (List.Perm.swap a b after).append_left before
      exact .mapping (fun entry he => htext entry (hperm.mem_iff.mp he))
        ((hperm.map Prod.fst).nodup_iff.mpr hnodup)
        fun entry he => hvalues entry (hperm.mem_iff.mp he)
  | item before after _ ih =>
    cases hv with
    | sequence hitems =>
      refine .sequence (List.forall_mem_append.mpr ?_)
      obtain ⟨hbefore, hrest⟩ := List.forall_mem_append.mp hitems
      obtain ⟨hitem, hafter⟩ := List.forall_mem_cons.mp hrest
      exact ⟨hbefore, List.forall_mem_cons.mpr ⟨ih hitem, hafter⟩⟩
  | value before after key _ ih =>
    cases hv with
    | mapping htext hnodup hvalues =>
      obtain ⟨hbefore, hrest⟩ := List.forall_mem_append.mp hvalues
      obtain ⟨hvalue, hafter⟩ := List.forall_mem_cons.mp hrest
      obtain ⟨htbefore, htrest⟩ := List.forall_mem_append.mp htext
      obtain ⟨htkey, htafter⟩ := List.forall_mem_cons.mp htrest
      refine .mapping ?_ (by simpa using hnodup) ?_
      · exact List.forall_mem_append.mpr ⟨htbefore, List.forall_mem_cons.mpr ⟨htkey, htafter⟩⟩
      · exact List.forall_mem_append.mpr ⟨hbefore, List.forall_mem_cons.mpr ⟨ih hvalue, hafter⟩⟩
  | tagged tag _ ih =>
    cases hv with
    | tagged _ h => exact .tagged tag (ih h)

theorem Swap.normal_eq (h : Swap v v') (hv : Keyed v) : v.normal = v'.normal := by
  induction h with
  | entries before after a b =>
    cases hv with
    | mapping htext hnodup _ =>
      have hperm : before ++ a :: b :: after ~ before ++ b :: a :: after :=
        (List.Perm.swap b a after).append_left before
      simp only [normal, normalEntries_eq]
      refine congrArg mapping (byKey_eq_of_perm (hperm.map _) ?_ ?_)
      · exact List.forall_mem_map.mpr htext
      · rwa [List.map_map]
  | item before after _ ih =>
    cases hv with
    | sequence hitems =>
      have hitem := ih (hitems _ (List.mem_append_right _ List.mem_cons_self))
      simp only [normal, normalItems_eq, List.map_append, List.map_cons, hitem]
  | value before after key _ ih =>
    cases hv with
    | mapping _ _ hvalues =>
      have hvalue := ih (hvalues _ (List.mem_append_right _ List.mem_cons_self))
      simp only [normal, normalEntries_eq, List.map_append, List.map_cons, hvalue]
  | tagged tag _ ih =>
    cases hv with
    | tagged _ h => simp only [normal, ih h]

/-- Reordered values have the same normal form. -/
theorem Reordered.normal_eq (h : Reordered v v') (hv : Keyed v) :
    v.normal = v'.normal ∧ Keyed v' := by
  induction h with
  | refl => exact ⟨rfl, hv⟩
  | tail _ hswap ih =>
    obtain ⟨hnormal, hkeyed⟩ := ih
    exact ⟨hnormal.trans (hswap.normal_eq hkeyed), hswap.keyed hkeyed⟩

/-! ## What does not depend on the order -/

theorem depthItems_eq (items : List Value) : depthItems items = (items.map depth).foldr max 0 := by
  induction items with
  | nil => rfl
  | cons item rest ih => rw [depthItems, ih, List.map_cons, List.foldr_cons]

theorem depthEntries_eq (entries : List (Value × Value)) :
    depthEntries entries = (entries.map fun entry => entry.2.depth).foldr max 0 := by
  induction entries with
  | nil => rfl
  | cons entry rest ih => rw [depthEntries, ih, List.map_cons, List.foldr_cons]

theorem hasTagItems_eq (items : List Value) : hasTagItems items = items.any hasTag := by
  induction items with
  | nil => rfl
  | cons item rest ih => rw [hasTagItems, ih, List.any_cons]

theorem hasTagEntries_eq (entries : List (Value × Value)) :
    hasTagEntries entries = entries.any fun entry => entry.1.hasTag || entry.2.hasTag := by
  induction entries with
  | nil => rfl
  | cons entry rest ih => rw [hasTagEntries, ih, List.any_cons]

theorem Keyed.depth_normal (h : Keyed v) : v.normal.depth = v.depth := by
  induction h with
  | @sequence items _ ih =>
    simp only [normal, depth, normalItems_eq, depthItems_eq, List.map_map]
    rw [List.map_congr_left (f := depth ∘ normal) (g := depth) ih]
  | @mapping entries _ _ _ ih =>
    have hperm := (normalized_perm entries).map fun entry => entry.2.depth
    rw [List.map_map] at hperm
    simp only [normal, depth, depthEntries_eq, hperm.foldr_eq]
    rw [List.map_congr_left (g := fun entry => entry.2.depth) ih]
  | tagged tag _ ih => simp only [normal, depth, ih]
  | _ => rfl

theorem Keyed.hasTag_normal (h : Keyed v) : v.normal.hasTag = v.hasTag := by
  induction h with
  | @sequence items _ ih =>
    simp only [normal, hasTag, normalItems_eq, hasTagItems_eq, List.any_map]
    refine Bool.eq_iff_iff.mpr ?_
    simp only [List.any_eq_true, Function.comp_apply]
    exact exists_congr fun item => and_congr_right fun hitem => by rw [ih item hitem]
  | @mapping entries _ _ _ ih =>
    simp only [normal, hasTag, hasTagEntries_eq, (normalized_perm entries).any_eq, List.any_map]
    refine Bool.eq_iff_iff.mpr ?_
    simp only [List.any_eq_true, Function.comp_apply]
    exact exists_congr fun entry => and_congr_right fun hentry => by rw [ih entry hentry]
  | tagged tag _ ih => rfl
  | _ => rfl

theorem normal_untagged (v : Value) : v.normal.untagged = v.untagged.normal := by
  fun_induction untagged v with
  | case1 tag value ih => rw [normal, untagged, ih]
  | case2 v h =>
    cases v with
    | tagged tag value => exact absurd rfl (h tag value)
    | _ => rfl

theorem Keyed.untagged (h : Keyed v) : Keyed v.untagged := by
  induction h with
  | sequence h _ => exact .sequence h
  | mapping htext hnodup h _ => exact .mapping htext hnodup h
  | tagged _ _ ih => exact ih
  | null => exact .null
  | bool b => exact .bool b
  | number n => exact .number n
  | text s => exact .text s

/-! ## Equality of values -/

mutual
/-- Equality of values, where entries have an order. -/
def equals : Value → Value → Bool
  | .null, .null => true
  | .bool a, .bool b => a == b
  | .number (.int a), .number (.int b) => a == b
  | .number (.float a), .number (.float b) => decide (a = b)
  | .text a, .text b => a == b
  | .sequence as, .sequence bs => equalItems as bs
  | .mapping as, .mapping bs => equalEntries as bs
  | .tagged t a, .tagged u b => t == u && equals a b
  | _, _ => false

def equalItems : List Value → List Value → Bool
  | [], [] => true
  | a :: as, b :: bs => equals a b && equalItems as bs
  | _, _ => false

def equalEntries : List (Value × Value) → List (Value × Value) → Bool
  | [], [] => true
  | (k, v) :: as, (l, w) :: bs => equals k l && equals v w && equalEntries as bs
  | _, _ => false
end

mutual
theorem equals_iff (a b : Value) : a.equals b = true ↔ a = b := by
  match a with
  | .null | .bool _ | .text _ => cases b <;> simp [equals]
  | .number n =>
    cases b with
    | number m => cases n <;> cases m <;> simp [equals]
    | _ => cases n <;> simp [equals]
  | .sequence as =>
    cases b with
    | sequence bs => simp [equals, equalItems_iff as bs]
    | _ => simp [equals]
  | .mapping as =>
    cases b with
    | mapping bs => simp [equals, equalEntries_iff as bs]
    | _ => simp [equals]
  | .tagged t a =>
    cases b with
    | tagged u b => simp [equals, equals_iff a b]
    | _ => simp [equals]

theorem equalItems_iff (as bs : List Value) : equalItems as bs = true ↔ as = bs := by
  match as, bs with
  | [], [] => simp [equalItems]
  | [], _ :: _ => simp [equalItems]
  | _ :: _, [] => simp [equalItems]
  | a :: as, b :: bs => simp [equalItems, equals_iff a b, equalItems_iff as bs]

theorem equalEntries_iff (as bs : List (Value × Value)) :
    equalEntries as bs = true ↔ as = bs := by
  match as, bs with
  | [], [] => simp [equalEntries]
  | [], _ :: _ => simp [equalEntries]
  | _ :: _, [] => simp [equalEntries]
  | (k, v) :: as, (l, w) :: bs =>
    simp [equalEntries, equals_iff k l, equals_iff v w, equalEntries_iff as bs, and_assoc]
end

instance : DecidableEq Value := fun a b => decidable_of_iff _ (equals_iff a b)

end RestThrift.Yaml.Value
