import Mathlib
import RestThrift.Proofs.Table
import RestThrift.Thrift.Catalog

/-!
# The index finds what a scan finds

A scan goes through the files in order and keeps the first definition of each name. The index keeps
the slots of these definitions, and in the files that it was made of every slot leads back to its
definition, so that the index answers what a scan of these files finds.
-/
namespace RestThrift

open scoped List

/-! ## First bearers of names -/

section Firsts

variable {α β : Type} {name : α → String} {rest : List α} {a : α} {seen : List String}

/-- The first element of each name that is not empty. -/
def firstsBy (name : α → String) : List α → List α
  | [] => []
  | a :: rest =>
    if name a = "" then firstsBy name rest
    else a :: (firstsBy name rest).filter fun b => name b ≠ name a

theorem map_firstsBy (name : α → String) (other : β → String) (f : α → β)
    (h : ∀ a, other (f a) = name a) (l : List α) :
    (firstsBy name l).map f = firstsBy other (l.map f) := by
  induction l with
  | nil => rfl
  | cons a rest ih =>
    simp only [firstsBy, List.map_cons, h]
    split
    · exact ih
    · simp only [List.map_cons, ← ih, List.filter_map, Function.comp_def, h]

theorem nodup_firstsBy (name : α → String) (l : List α) : ((firstsBy name l).map name).Nodup := by
  induction l with
  | nil => simp [firstsBy]
  | cons a rest ih =>
    simp only [firstsBy]
    split
    · exact ih
    · have hnot : name a ∉ ((firstsBy name rest).filter fun b => name b ≠ name a).map name := by
        simp
      exact List.nodup_cons.mpr ⟨hnot, ih.sublist (List.filter_sublist.map name)⟩

/-- Among the first bearers of names not seen before, one of a name that is seen does not count. -/
theorem filter_firstsBy_of_mem (h : name a ∈ seen) :
    (firstsBy name (a :: rest)).filter (fun b => name b ∉ seen) =
      (firstsBy name rest).filter fun b => name b ∉ seen := by
  simp only [firstsBy]
  split
  · rfl
  · rw [List.filter_cons_of_neg (by simp [h]), List.filter_filter]
    apply List.filter_congr
    intro b _
    by_cases hsame : name b = name a
    · simp [hsame, h]
    · simp [hsame]

/-- One of a new name counts, and its name is seen from then on. -/
theorem filter_firstsBy_of_not_mem (hname : name a ≠ "") (h : name a ∉ seen) :
    (firstsBy name (a :: rest)).filter (fun b => name b ∉ seen) =
      a :: (firstsBy name rest).filter fun b => ¬(name b = name a ∨ name b ∈ seen) := by
  rw [firstsBy, if_neg hname, List.filter_cons_of_pos (by simp [h]), List.filter_filter]
  congr 1
  apply List.filter_congr
  intro b _
  by_cases hsame : name b = name a <;> simp [hsame]

end Firsts

/-! ## The scan -/

/-- The first definition of each name, in the order of the files. -/
def keptDefinitions (files : List File) : List Definition :=
  firstsBy Definition.fqn (files.flatMap fun f => f.definitions.named)

/-- What a look-up answers by scanning: the definition of exactly this name, else all whose names
end in `#` and the query, in ascending order of their names. -/
def scan (files : List File) (query : String) : List Definition :=
  match (keptDefinitions files).find? fun d => d.fqn = query with
  | some definition => [definition]
  | none =>
    ((keptDefinitions files).filter fun d =>
      ('#' :: query.toList).isSuffixOf d.fqn.toList).mergeSort
      fun a b => a.fqn ≤ b.fqn

/-! ## Slots -/

section Slots

variable {files : List File} {d : Definitions}

theorem map_zipIdx_eq {α β : Type} {l : List α} {f : α × Nat → β} {g : α → β}
    (h : ∀ i a, l[i]? = some a → f (a, i) = g a) : l.zipIdx.map f = l.map g := by
  have hpairs : ∀ entry ∈ l.zipIdx, f entry = g entry.1 := by
    intro entry hentry
    exact h entry.2 entry.1 (List.mem_zipIdx_iff_getElem?.mp hentry)
  rw [List.map_congr_left hpairs, ← Function.comp_def g, ← List.map_map, List.zipIdx_map_fst]

theorem flatMap_zipIdx_eq {α β : Type} {l : List α} {f : α × Nat → List β} {g : α → List β}
    (h : ∀ i a, l[i]? = some a → f (a, i) = g a) : l.zipIdx.flatMap f = l.flatMap g := by
  rw [List.flatMap_def, map_zipIdx_eq h, ← List.flatMap_def]

/-- A name with what its slot in a file leads to. -/
def Definitions.entryAt (d : Definitions) (entry : String × Slot) : String × Option Definition :=
  (entry.1, entry.2.within? d)

/-- A definition under its name, as it is found through a slot. -/
def namedEntry (definition : Definition) : String × Option Definition :=
  (definition.fqn, some definition)

/-- The slots of the definitions of one kind lead to them. -/
theorem slots_of_kind {α : Type} {l : List α} {fqn : α → String} {slot : Nat → Slot}
    {wrap : α → Definition} (hfqn : ∀ a, (wrap a).fqn = fqn a)
    (hslot : ∀ i, (slot i).within? d = l[i]?.map wrap) :
    (l.zipIdx.map fun (a, i) => (fqn a, slot i)).map d.entryAt = (l.map wrap).map namedEntry := by
  rw [List.map_map, List.map_map]
  apply map_zipIdx_eq
  intro i a ha
  simp [Definitions.entryAt, namedEntry, hslot, hfqn, ha]

/-- A service's slot leads to the service, and those of its functions to them. -/
theorem slots_of_services (file : Nat) (d : Definitions) :
    (d.services.zipIdx.flatMap fun (s, i) => (s.fqn, Slot.service file i) ::
      s.functions.zipIdx.map fun (f, j) => (f.fqn, Slot.function file i j)).map d.entryAt =
    (d.services.flatMap fun s => .service s :: s.functions.map .function).map namedEntry := by
  rw [List.map_flatMap, List.map_flatMap]
  apply flatMap_zipIdx_eq
  intro i s hs
  have hservice : d.entryAt (s.fqn, .service file i) = namedEntry (.service s) := by
    simp [Definitions.entryAt, Slot.within?, namedEntry, Definition.fqn, hs]
  have hfunctions : (s.functions.zipIdx.map fun (f, j) => (f.fqn, Slot.function file i j)).map
      d.entryAt = (s.functions.map .function).map namedEntry := by
    apply slots_of_kind
    · exact fun _ => rfl
    · intro j
      simp [Slot.within?, hs]
  simp only [List.map_cons, hservice, hfunctions]

/-- Every slot of a file's definitions leads to the definition that it was made for. -/
theorem slots_within (file : Nat) (d : Definitions) :
    (d.slots file).map d.entryAt = d.named.map namedEntry := by
  simp only [Definitions.slots, Definitions.named, List.map_append]
  congr 1
  · congr 1
    · congr 1
      · congr 1
        · rw [slots_of_services, List.map_flatMap]
        · exact slots_of_kind (fun _ => rfl) (fun _ => rfl)
      · exact slots_of_kind (fun _ => rfl) (fun _ => rfl)
    · exact slots_of_kind (fun _ => rfl) (fun _ => rfl)
  · exact slots_of_kind (fun _ => rfl) (fun _ => rfl)

theorem file_of_mem_slots {file : Nat} {entry : String × Slot} (h : entry ∈ d.slots file) :
    entry.2.file = file := by
  simp only [Definitions.slots, List.mem_append, List.mem_flatMap, List.mem_map,
    List.mem_cons] at h
  rcases h with (((⟨_, _, rfl | ⟨_, _, rfl⟩⟩ | ⟨_, _, rfl⟩) | ⟨_, _, rfl⟩) | ⟨_, _, rfl⟩) |
    ⟨_, _, rfl⟩ <;> rfl

/-- All slots that an index is made of lead to the scanned definitions, in their order. -/
theorem slots_resolve (files : List File) :
    (files.zipIdx.flatMap fun (f, n) => f.definitions.slots n).map
        (fun entry => (entry.1, entry.2.resolve? files)) =
      (files.flatMap fun f => f.definitions.named).map namedEntry := by
  rw [List.map_flatMap, List.map_flatMap]
  apply flatMap_zipIdx_eq
  intro n f hf
  rw [← slots_within n]
  apply List.map_congr_left
  intro entry hentry
  have hfile : entry.2.file = n := file_of_mem_slots hentry
  simp [Definitions.entryAt, Slot.resolve?, hfile, hf]

end Slots

/-! ## The index -/

section Index

variable {files : List File} {query name : String} {slot : Slot} {index : Index}

theorem Index.add_of_mem (h : name ∈ index.keys) : index.add (name, slot) = index := by
  obtain ⟨old, hold⟩ := Table.exists_get?_of_mem_keys h
  simp [add, Table.contains, hold]

theorem Index.add_of_not_mem (hname : name ≠ "") (h : name ∉ index.keys) :
    index.add (name, slot) = index.insert name slot := by
  have hnone : index.get? name = none := Table.get?_eq_none_iff.mpr h
  simp [add, Table.contains, hnone, hname]

/-- Adding entries keeps the first of each name, besides those that are there. -/
theorem adds_perm (h : index.Sorted) (entries : List (String × Slot)) :
    (entries.foldl Index.add index).Sorted ∧ entries.foldl Index.add index ~
      index ++ (firstsBy Prod.fst entries).filter fun entry => entry.1 ∉ index.keys := by
  induction entries generalizing index with
  | nil => simpa [firstsBy] using h
  | cons entry rest ih =>
    obtain ⟨name, slot⟩ := entry
    rw [List.foldl_cons]
    by_cases hname : name = ""
    · have hadd : index.add (name, slot) = index := by simp [Index.add, hname]
      have hfirsts : firstsBy Prod.fst ((name, slot) :: rest) = firstsBy Prod.fst rest := by
        simp [firstsBy, hname]
      rw [hadd, hfirsts]
      exact ih h
    by_cases hthere : name ∈ index.keys
    · rw [Index.add_of_mem hthere, filter_firstsBy_of_mem hthere]
      exact ih h
    · have hinsert : (index.insert name slot).Sorted := h.insert
      obtain ⟨hsorted, hperm⟩ := ih hinsert
      have hnone : index.get? name = none := Table.get?_eq_none_iff.mpr hthere
      rw [Index.add_of_not_mem hname hthere, filter_firstsBy_of_not_mem hname hthere]
      simp only [Table.mem_keys_insert] at hperm
      refine ⟨hsorted, ?_⟩
      calc _
        _ ~ index.insert name slot ++ (firstsBy Prod.fst rest).filter
              (fun entry => ¬(entry.1 = name ∨ entry.1 ∈ index.keys)) := hperm
        _ ~ (name, slot) :: index ++ (firstsBy Prod.fst rest).filter
              (fun entry => ¬(entry.1 = name ∨ entry.1 ∈ index.keys)) :=
          (Table.insert_perm hnone).append_right _
        _ ~ _ := List.perm_middle.symm

theorem sorted_ofFiles (files : List File) : (Index.ofFiles files).Sorted :=
  (adds_perm Table.sorted_nil _).1

/-- The names of an index with what their slots lead to. -/
def Index.resolved (index : Index) (files : List File) : List (String × Option Definition) :=
  index.map fun entry => (entry.1, entry.2.resolve? files)

/-- The index of files leads to the definitions that a scan keeps. -/
theorem resolved_perm (files : List File) :
    (Index.ofFiles files).resolved files ~ (keptDefinitions files).map namedEntry := by
  have hperm := (adds_perm Table.sorted_nil
    (files.zipIdx.flatMap fun (f, n) => f.definitions.slots n)).2
  simp only [Table.keys_nil, List.not_mem_nil, not_false_eq_true, decide_true, List.filter_true,
    List.nil_append] at hperm
  have hslots := map_firstsBy Prod.fst Prod.fst
    (fun entry : String × Slot => (entry.1, entry.2.resolve? files)) (fun _ => rfl)
    (files.zipIdx.flatMap fun (f, n) => f.definitions.slots n)
  have hkept := map_firstsBy Definition.fqn Prod.fst namedEntry (fun _ => rfl)
    (files.flatMap fun f => f.definitions.named)
  rw [slots_resolve, ← hkept] at hslots
  have hmap := hperm.map fun entry => (entry.1, entry.2.resolve? files)
  rwa [hslots] at hmap

/-- A name of the index leads to a definition of that name. -/
theorem mem_resolved {entry : String × Option Definition} :
    entry ∈ (Index.ofFiles files).resolved files ↔
      ∃ d ∈ keptDefinitions files, namedEntry d = entry := by
  rw [(resolved_perm files).mem_iff, List.mem_map]

theorem eq_of_fqn_eq {d d' : Definition} (hd : d ∈ keptDefinitions files)
    (hd' : d' ∈ keptDefinitions files) (h : d.fqn = d'.fqn) : d = d' :=
  List.inj_on_of_nodup_map (nodup_firstsBy Definition.fqn _) hd hd' h

/-- An exact match of the index is the definition that a scan finds under the name. -/
theorem find?_of_get?_eq_some (h : (Index.ofFiles files).get? query = some slot) :
    ∃ d, slot.resolve? files = some d ∧
      (keptDefinitions files).find? (fun d => d.fqn = query) = some d := by
  have hentry : (query, slot.resolve? files) ∈ (Index.ofFiles files).resolved files :=
    List.mem_map.mpr ⟨(query, slot), Table.mem_of_get? h, rfl⟩
  obtain ⟨d, hd, heq⟩ := mem_resolved.mp hentry
  obtain ⟨hname, hslot⟩ := Prod.mk.inj heq
  refine ⟨d, hslot.symm, ?_⟩
  cases hfind : (keptDefinitions files).find? (fun d => d.fqn = query) with
  | none => simpa [hname] using List.find?_eq_none.mp hfind d hd
  | some d' =>
    have hname' : d'.fqn = query := by simpa using List.find?_some hfind
    rw [eq_of_fqn_eq (List.mem_of_find?_eq_some hfind) hd (hname'.trans hname.symm)]

/-- What the index does not hold, a scan does not find. -/
theorem find?_of_get?_eq_none (h : (Index.ofFiles files).get? query = none) :
    (keptDefinitions files).find? (fun d => d.fqn = query) = none := by
  apply List.find?_eq_none.mpr
  intro d hd heq
  have hname : d.fqn = query := of_decide_eq_true heq
  obtain ⟨entry, hentry, hresolved⟩ := List.mem_map.mp (mem_resolved.mpr ⟨d, hd, rfl⟩)
  have hkey : entry.1 = query := (congrArg Prod.fst hresolved).trans hname
  have hmem : query ∈ (Index.ofFiles files).keys := hkey ▸ List.mem_map_of_mem hentry
  exact Table.get?_eq_none_iff.mp h hmem

/-- A slot of the index leads to a definition of the name that it stands under. -/
theorem fqn_of_resolve? {entry : String × Slot} (he : entry ∈ Index.ofFiles files) {d : Definition}
    (h : entry.2.resolve? files = some d) : d.fqn = entry.1 := by
  have hentry : (entry.1, some d) ∈ (Index.ofFiles files).resolved files :=
    List.mem_map.mpr ⟨entry, he, by rw [h]⟩
  obtain ⟨kept, -, heq⟩ := mem_resolved.mp hentry
  obtain ⟨hname, hkept⟩ := Prod.mk.inj heq
  rw [← Option.some.inj hkept, hname]

/-- The definitions that the slots of an index lead to are those that a scan keeps. -/
theorem definitions_perm (files : List File) :
    (Index.ofFiles files).filterMap (fun entry => entry.2.resolve? files) ~
      keptDefinitions files := by
  have hperm := (resolved_perm files).filterMap Prod.snd
  simpa [Index.resolved, List.filterMap_map, Function.comp_def, namedEntry] using hperm

theorem definitions_ascending (files : List File) :
    ((Index.ofFiles files).filterMap fun entry => entry.2.resolve? files).Pairwise
      fun a b => a.fqn < b.fqn := by
  have hkeys : (Index.ofFiles files).keys.Pairwise (· < ·) := sorted_ofFiles files
  have hentries : (Index.ofFiles files).Pairwise fun a b => a.1 < b.1 := List.pairwise_map.mp hkeys
  apply List.pairwise_filterMap.mpr
  apply hentries.imp_of_mem
  intro a b ha hb hlt d hd d' hd'
  rw [fqn_of_resolve? ha hd, fqn_of_resolve? hb hd']
  exact hlt

/-- The entries whose names satisfy a condition lead to the definitions of such names. -/
theorem filterMap_resolve_filter (files : List File) (p : String → Bool) :
    ((Index.ofFiles files).filter fun entry => p entry.1).filterMap
        (fun entry => entry.2.resolve? files) =
      ((Index.ofFiles files).filterMap fun entry => entry.2.resolve? files).filter
        fun d => p d.fqn := by
  rw [List.filterMap_filter, List.filter_filterMap]
  apply List.filterMap_congr
  intro entry he
  cases h : entry.2.resolve? files with
  | none => simp
  | some d => simp [fqn_of_resolve? he h, Option.filter]

/-- Definitions in ascending order of their names are what sorting makes of them. -/
theorem eq_mergeSort_of_ascending {l other : List Definition} (hperm : l ~ other)
    (hl : l.Pairwise fun a b => a.fqn < b.fqn) :
    l = other.mergeSort fun a b => a.fqn ≤ b.fqn := by
  have hsorted : (other.mergeSort fun a b => a.fqn ≤ b.fqn).Pairwise fun a b => a.fqn ≤ b.fqn := by
    apply List.Pairwise.imp of_decide_eq_true
    apply List.pairwise_mergeSort
    · intro a b c hab hbc
      exact decide_eq_true ((of_decide_eq_true hab).trans (of_decide_eq_true hbc))
    · intro a b
      simpa using le_total a.fqn b.fqn
  have hperm' : l ~ other.mergeSort fun a b => a.fqn ≤ b.fqn :=
    hperm.trans (List.mergeSort_perm _ _).symm
  have hnames : (l.map Definition.fqn).Nodup := List.pairwise_map.mpr (hl.imp ne_of_lt)
  refine List.Perm.eq_of_pairwise ?_ (hl.imp le_of_lt) hsorted hperm'
  intro a b ha hb hab hba
  have hb' : b ∈ l := hperm'.mem_iff.mpr hb
  exact List.inj_on_of_nodup_map hnames ha hb' (le_antisymm hab hba)

/-- The index of files answers a look-up as a scan does. -/
theorem find_ofFiles (files : List File) (query : String) :
    (Index.ofFiles files).find files query = scan files query := by
  cases hget : (Index.ofFiles files).get? query with
  | some slot =>
    obtain ⟨d, hslot, hfind⟩ := find?_of_get?_eq_some hget
    simp [Index.find, scan, hget, hslot, hfind]
  | none =>
    simp only [Index.find, scan, hget, find?_of_get?_eq_none hget]
    rw [filterMap_resolve_filter files fun name => ('#' :: query.toList).isSuffixOf name.toList]
    apply eq_mergeSort_of_ascending
    · exact (definitions_perm files).filter _
    · exact (definitions_ascending files).filter _

end Index

end RestThrift
