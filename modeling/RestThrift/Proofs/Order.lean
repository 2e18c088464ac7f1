import Mathlib
import RestThrift.Thrift.Order

/-!
# The dependency order

A step of the sort keeps an invariant: what is taken depends on what was taken before only, each
other position counts the dependencies that are not taken, and exactly those that count none are
ready. When nothing is ready any more, each position that is left depends on another one that is
left, so that a cycle can be reached from it.
-/
namespace RestThrift.Order

open Relation

open scoped List

/-- The dependencies of a position. -/
def deps (graph : List (List Nat)) (i : Nat) : List Nat := graph.getD i []

/-- Dependencies are other positions, each listed once. -/
structure WellFormed (graph : List (List Nat)) : Prop where
  nodup : ∀ i, (deps graph i).Nodup
  bounded : ∀ i, ∀ j ∈ deps graph i, j < graph.length
  other : ∀ i, i ∉ deps graph i

variable {graph : List (List Nat)} {i j : Nat}

theorem lt_of_mem_deps (h : j ∈ deps graph i) : i < graph.length := by
  by_contra hi
  rw [deps, List.getD_eq_default _ _ (not_lt.mp hi)] at h
  exact List.not_mem_nil h

theorem mem_dependents : i ∈ dependents graph j ↔ j ∈ deps graph i := by
  simp only [dependents, List.mem_filter, List.mem_range, List.contains_iff_mem]
  exact ⟨fun h => h.2, fun h => ⟨lt_of_mem_deps h, h⟩⟩

theorem nodup_dependents (graph : List (List Nat)) (j : Nat) : (dependents graph j).Nodup :=
  List.nodup_range.filter _

/-! ## Ascending lists of positions -/

theorem mem_insertPosition {l : List Nat} : j ∈ insertPosition i l ↔ j = i ∨ j ∈ l := by
  induction l with
  | nil => simp [insertPosition]
  | cons head rest ih =>
    simp only [insertPosition]
    split
    · rename_i he
      simp [he]
    · split
      · exact List.mem_cons
      · simp only [List.mem_cons, ih]
        tauto

theorem sorted_insertPosition {l : List Nat} (h : l.Pairwise (· < ·)) :
    (insertPosition i l).Pairwise (· < ·) := by
  induction l with
  | nil => simp [insertPosition]
  | cons head rest ih =>
    obtain ⟨hhead, hrest⟩ := List.pairwise_cons.mp h
    simp only [insertPosition]
    split
    · exact h
    · split
      · rename_i hlt
        refine List.pairwise_cons.mpr ⟨fun j hj => ?_, h⟩
        rcases List.mem_cons.mp hj with rfl | hj
        · exact hlt
        · exact hlt.trans (hhead j hj)
      · rename_i hne hnot
        refine List.pairwise_cons.mpr ⟨fun j hj => ?_, ih hrest⟩
        rcases mem_insertPosition.mp hj with rfl | hj
        · omega
        · exact hhead j hj

/-! ## Releases -/

namespace Progress

variable {p : Progress} {d : Nat} {ds : List Nat}

@[simp] theorem taken_release : (p.release d).taken = p.taken := rfl

theorem pending_release : (p.release d).pending.getD i 0 =
    if d = i then p.pending.getD i 0 - 1 else p.pending.getD i 0 := by
  simp only [release, List.getD_eq_getElem?_getD, List.getElem?_set]
  split
  · rename_i h
    subst h
    split
    · simp
    · rename_i hlen
      simp [List.getElem?_eq_none (not_lt.mp hlen)]
  · rfl

theorem mem_ready_release :
    i ∈ (p.release d).ready ↔ i ∈ p.ready ∨ (i = d ∧ p.pending.getD i 0 - 1 = 0) := by
  simp only [release]
  split
  · rename_i h
    rw [mem_insertPosition]
    constructor
    · rintro (rfl | hi)
      · exact .inr ⟨rfl, h⟩
      · exact .inl hi
    · rintro (hi | ⟨rfl, -⟩)
      · exact .inr hi
      · exact .inl rfl
  · rename_i h
    refine (or_iff_left ?_).symm
    rintro ⟨rfl, hi⟩
    exact h hi

theorem sorted_release (h : p.ready.Pairwise (· < ·)) :
    (p.release d).ready.Pairwise (· < ·) := by
  simp only [release]
  split
  · exact sorted_insertPosition h
  · exact h

theorem taken_releases : (ds.foldl release p).taken = p.taken := by
  induction ds generalizing p with
  | nil => rfl
  | cons d rest ih => rw [List.foldl_cons, ih, taken_release]

theorem sorted_releases (h : p.ready.Pairwise (· < ·)) :
    (ds.foldl release p).ready.Pairwise (· < ·) := by
  induction ds generalizing p with
  | nil => exact h
  | cons d rest ih => exact ih (sorted_release h)

/-- Each position that is released counts one less. -/
theorem pending_releases (hn : ds.Nodup) : (ds.foldl release p).pending.getD i 0 =
    if i ∈ ds then p.pending.getD i 0 - 1 else p.pending.getD i 0 := by
  induction ds generalizing p with
  | nil => simp
  | cons d rest ih =>
    obtain ⟨hd, hrest⟩ := List.nodup_cons.mp hn
    rw [List.foldl_cons, ih hrest, pending_release]
    by_cases hi : d = i
    · subst hi
      simp [hd]
    · simp [hi, Ne.symm hi]

/-- A position is ready when nothing is left to count. -/
theorem mem_ready_releases (hn : ds.Nodup) : i ∈ (ds.foldl release p).ready ↔
    i ∈ p.ready ∨ (i ∈ ds ∧ p.pending.getD i 0 - 1 = 0) := by
  induction ds generalizing p with
  | nil => simp
  | cons d rest ih =>
    obtain ⟨hd, hrest⟩ := List.nodup_cons.mp hn
    rw [List.foldl_cons, ih hrest, mem_ready_release, pending_release, List.mem_cons]
    by_cases hi : d = i
    · subst hi
      simp [hd]
    · simp [hi, Ne.symm hi]

/-! ## The invariant -/

/-- The dependencies of a position that are not taken yet. -/
def missing (graph : List (List Nat)) (taken : List Nat) (i : Nat) : List Nat :=
  (deps graph i).filter (· ∉ taken)

structure Invariant (graph : List (List Nat)) (p : Progress) : Prop where
  nodup : p.taken.Nodup
  bounded : ∀ i ∈ p.taken, i < graph.length
  closed : ∀ i ∈ p.taken, ∀ j ∈ deps graph i, j ∈ p.taken
  before : p.taken.Pairwise fun i j => j ∉ deps graph i
  pending : ∀ i, p.pending.getD i 0 = (missing graph p.taken i).length
  sorted : p.ready.Pairwise (· < ·)
  ready : ∀ i, i ∈ p.ready ↔ i < graph.length ∧ i ∉ p.taken ∧ missing graph p.taken i = []

theorem missing_eq_nil {taken : List Nat} :
    missing graph taken i = [] ↔ ∀ j ∈ deps graph i, j ∈ taken := by
  simp [missing, List.filter_eq_nil_iff]

theorem nodup_missing (hgraph : WellFormed graph) (taken : List Nat) (i : Nat) :
    (missing graph taken i).Nodup := (hgraph.nodup i).filter _

/-- Taking one position more takes it out of what is missing. -/
theorem missing_append (hgraph : WellFormed graph) (taken : List Nat) (next i : Nat) :
    missing graph (taken ++ [next]) i = (missing graph taken i).erase next := by
  rw [(nodup_missing hgraph taken i).erase_eq_filter, missing, missing, List.filter_filter]
  refine List.filter_congr fun j _ => ?_
  rw [Bool.eq_iff_iff]
  simp
  tauto

/-- One dependency less is missing for those that depend on the position taken. -/
theorem length_missing_append (hgraph : WellFormed graph) {taken : List Nat} {next : Nat}
    (hnew : next ∉ taken) (i : Nat) : (missing graph (taken ++ [next]) i).length =
      if i ∈ dependents graph next then (missing graph taken i).length - 1
      else (missing graph taken i).length := by
  have hmem : next ∈ missing graph taken i ↔ i ∈ dependents graph next := by
    simp [missing, hnew, mem_dependents]
  simp only [missing_append hgraph, List.length_erase, hmem]

theorem pending_initial (graph : List (List Nat)) (i : Nat) :
    (initial graph).pending.getD i 0 = (missing graph [] i).length := by
  simp only [initial, missing, deps, List.getD_eq_getElem?_getD, List.getElem?_map,
    List.not_mem_nil, not_false_eq_true, decide_true, List.filter_true]
  cases graph[i]? <;> rfl

theorem invariant_initial (graph : List (List Nat)) : Invariant graph (initial graph) where
  nodup := List.nodup_nil
  bounded _ h := absurd h List.not_mem_nil
  closed _ h := absurd h List.not_mem_nil
  before := List.Pairwise.nil
  pending := pending_initial graph
  sorted := List.pairwise_lt_range.filter _
  ready i := by
    have hready : i ∈ (initial graph).ready ↔
        i < graph.length ∧ (initial graph).pending.getD i 0 = 0 := by
      simp [initial]
    rw [hready, pending_initial, List.length_eq_zero_iff]
    simp [initial]

section Step

variable {next : Nat} {ready : List Nat} (h : Invariant graph p) (hready : p.ready = next :: ready)
include h hready

theorem Invariant.next_spec :
    next < graph.length ∧ next ∉ p.taken ∧ missing graph p.taken next = [] :=
  (h.ready next).mp (hready ▸ List.mem_cons_self)

/-- Nothing that is taken depends on what is taken next. -/
theorem Invariant.next_not_mem_deps : ∀ i ∈ p.taken, next ∉ deps graph i :=
  fun i hi hdep => (h.next_spec hready).2.1 (h.closed i hi next hdep)

theorem Invariant.mem_rest : i ∈ ready ↔ i ∈ p.ready ∧ i ≠ next := by
  have hsorted := h.sorted
  rw [hready] at hsorted ⊢
  have hleast := (List.pairwise_cons.mp hsorted).1
  constructor
  · exact fun hi => ⟨List.mem_cons_of_mem _ hi, (hleast i hi).ne'⟩
  · exact fun ⟨hi, hne⟩ => (List.mem_cons.mp hi).resolve_left hne

/-- After a step those are ready that are not taken and miss nothing. -/
theorem Invariant.mem_ready_step (hgraph : WellFormed graph) :
    i ∈ ready ∨ (i ∈ dependents graph next ∧ p.pending.getD i 0 - 1 = 0) ↔
      i < graph.length ∧ i ∉ p.taken ++ [next] ∧ missing graph (p.taken ++ [next]) i = [] := by
  have hnew := (h.next_spec hready).2.1
  rw [h.mem_rest hready, h.ready, h.pending, ← List.length_eq_zero_iff, ← List.length_eq_zero_iff,
    length_missing_append hgraph hnew, List.mem_append, List.mem_singleton]
  by_cases hdep : i ∈ dependents graph next
  · have hi : next ∈ deps graph i := mem_dependents.mp hdep
    have hbound : i < graph.length := lt_of_mem_deps hi
    have hnot : i ∉ p.taken := fun hmem => h.next_not_mem_deps hready i hmem hi
    have hne : i ≠ next := fun he => hgraph.other next (he ▸ hi)
    simp only [hdep, hbound, hnot, hne, if_true, true_and, not_false_eq_true, ne_eq, and_true,
      or_self]
    omega
  · simp only [hdep, if_false, false_and, or_false, not_or]
    tauto

end Step

theorem Invariant.advance (hgraph : WellFormed graph) (h : Invariant graph p) :
    Invariant graph (p.advance graph) := by
  rw [Progress.advance]
  split
  · exact h
  rename_i next ready hready
  obtain ⟨hbound, hnew, hmissing⟩ := h.next_spec hready
  have hsorted := h.sorted
  rw [hready] at hsorted
  have hn := nodup_dependents graph next
  exact {
    nodup := by
      rw [taken_releases]
      exact h.nodup.append (List.nodup_singleton _) (List.disjoint_singleton.mpr hnew)
    bounded := by
      rw [taken_releases]
      exact List.forall_mem_append.mpr ⟨h.bounded, List.forall_mem_singleton.mpr hbound⟩
    closed := by
      rw [taken_releases]
      refine List.forall_mem_append.mpr ⟨fun i hi j hj => ?_, List.forall_mem_singleton.mpr ?_⟩
      · exact List.mem_append_left _ (h.closed i hi j hj)
      · exact fun j hj => List.mem_append_left _ (missing_eq_nil.mp hmissing j hj)
    before := by
      rw [taken_releases]
      refine List.pairwise_append.mpr ⟨h.before, List.pairwise_singleton _ _, fun i hi j hj => ?_⟩
      rw [List.mem_singleton.mp hj]
      exact h.next_not_mem_deps hready i hi
    pending := fun i => by
      rw [taken_releases, pending_releases hn, length_missing_append hgraph hnew, ← h.pending]
    sorted := sorted_releases (List.pairwise_cons.mp hsorted).2
    ready := fun i => by
      rw [taken_releases, mem_ready_releases hn]
      exact h.mem_ready_step hready hgraph }

/-! ## Runs -/

theorem length_advance (hready : p.ready ≠ []) :
    (p.advance graph).taken.length = p.taken.length + 1 := by
  rw [Progress.advance]
  split
  · contradiction
  · rw [taken_releases, List.length_append, List.length_singleton]

theorem advance_eq_self (hready : p.ready = []) : p.advance graph = p := by
  rw [Progress.advance, hready]

theorem Invariant.run (hgraph : WellFormed graph) (h : Invariant graph p) (steps : Nat) :
    Invariant graph (run graph steps p) := by
  induction steps generalizing p with
  | zero => exact h
  | succ steps ih => exact ih (h.advance hgraph)

/-- Each step takes a position as long as one is ready. -/
theorem length_run (steps : Nat) : (run graph steps p).ready = [] ∨
    (run graph steps p).taken.length = p.taken.length + steps := by
  induction steps generalizing p with
  | zero => exact .inr rfl
  | succ steps ih =>
    by_cases hready : p.ready = []
    · have hrun : ∀ steps, run graph steps p = p := by
        intro steps
        induction steps with
        | zero => rfl
        | succ steps ih => rwa [run, advance_eq_self hready]
      exact .inl (by rw [hrun, hready])
    · rcases ih (p := p.advance graph) with h | h
      · exact .inl h
      · rw [length_advance hready] at h
        exact .inr (h.trans (by omega))

/-- With as many steps as positions nothing stays ready. -/
theorem ready_run (hgraph : WellFormed graph) :
    (run graph graph.length (initial graph)).ready = [] := by
  have hinv := (invariant_initial graph).run hgraph graph.length
  rcases length_run graph.length with h | h
  · exact h
  · have htaken : (run graph graph.length (initial graph)).taken ~ List.range graph.length := by
      refine (List.subperm_of_subset hinv.nodup fun i hi => ?_).perm_of_length_le ?_
      · exact List.mem_range.mpr (hinv.bounded i hi)
      · rw [h, List.length_range]
        exact Nat.le_add_left _ _
    refine List.eq_nil_iff_forall_not_mem.mpr fun i hi => ?_
    obtain ⟨hlt, hnot, -⟩ := (hinv.ready i).mp hi
    exact hnot (htaken.mem_iff.mpr (List.mem_range.mpr hlt))

end Progress

/-! ## Cycles -/

/-- A cycle can be reached along a relation. -/
def ReachesCycle {α : Type} (r : α → α → Prop) (a : α) : Prop :=
  ∃ c, ReflTransGen r a c ∧ TransGen r c c

section Cycles

variable {α : Type} {r : α → α → Prop} {a b : α}

theorem ReachesCycle.head (hab : r a b) (h : ReachesCycle r b) : ReachesCycle r a := by
  obtain ⟨c, hbc, hc⟩ := h
  exact ⟨c, .head hab hbc, hc⟩

/-- Where every member of a list leads to another member, all of them reach a cycle. -/
theorem reachesCycle_of_forall_exists {l : List α} (hl : ∀ a ∈ l, ∃ b ∈ l, r a b) (ha : a ∈ l) :
    ReachesCycle r a := by
  by_contra hnot
  -- Among the members that reach no cycle, reachability is a well-founded order.
  let Free := { x // x ∈ l ∧ ¬ ReachesCycle r x }
  have hmembers : Finite { x // x ∈ l } := (List.finite_toSet l).to_subtype
  have hfinite : Finite Free :=
    Finite.of_injective (fun x : Free => (⟨x.1, x.2.1⟩ : { x // x ∈ l })) fun x y h =>
      Subtype.ext (Subtype.mk.inj h)
  let below : Free → Free → Prop := fun x y => TransGen r y.1 x.1
  have htrans : IsTrans Free below := ⟨fun _ _ _ hxy hyz => hyz.trans hxy⟩
  have hirrefl : Std.Irrefl below := ⟨fun x hx => x.2.2 ⟨x.1, .refl, hx⟩⟩
  have hwf : WellFounded below := Finite.wellFounded_of_trans_of_irrefl below
  obtain ⟨least, -, hleast⟩ := hwf.has_min Set.univ ⟨⟨a, ha, hnot⟩, trivial⟩
  obtain ⟨b, hb, hstep⟩ := hl least.1 least.2.1
  have hfree : ¬ ReachesCycle r b := fun h => least.2.2 (h.head hstep)
  exact hleast ⟨b, hb, hfree⟩ trivial (.single hstep)

end Cycles

/-! ## The arranged positions -/

/-- What is taken stands before what is left; each part is ordered in its own way. -/
structure Arranged (graph : List (List Nat)) (taken left : List Nat) : Prop where
  perm : taken ++ left ~ List.range graph.length
  closed : ∀ i ∈ taken, ∀ j ∈ deps graph i, j ∈ taken
  before : taken.Pairwise fun i j => j ∉ deps graph i
  stuck : ∀ i ∈ left, ∃ j ∈ left, j ∈ deps graph i
  ascending : left.Pairwise (· < ·)

theorem positions_arranged (hgraph : WellFormed graph) :
    ∃ taken left, positions graph = taken ++ left ∧ Arranged graph taken left := by
  have hinv := (Progress.invariant_initial graph).run hgraph graph.length
  have hready := Progress.ready_run hgraph
  refine ⟨_, _, rfl, ?_⟩
  generalize Progress.run graph graph.length (Progress.initial graph) = p at hinv hready
  have hleft : ∀ i, i ∈ (List.range graph.length).filter (fun i => !p.taken.contains i) ↔
      i < graph.length ∧ i ∉ p.taken := by simp
  have hn : ((List.range graph.length).filter fun i => !p.taken.contains i).Nodup :=
    List.nodup_range.filter _
  exact {
    perm := by
      refine (List.perm_ext_iff_of_nodup (hinv.nodup.append hn fun i hi hi' => ?_)
        List.nodup_range).mpr fun i => ?_
      · exact ((hleft i).mp hi').2 hi
      · rw [List.mem_append, hleft, List.mem_range]
        have := hinv.bounded i
        tauto
    closed := hinv.closed
    before := hinv.before
    stuck := fun i hi => by
      obtain ⟨hlt, hnot⟩ := (hleft i).mp hi
      have hmissing : Progress.missing graph p.taken i ≠ [] := fun hnil => by
        have hmem := (hinv.ready i).mpr ⟨hlt, hnot, hnil⟩
        rw [hready] at hmem
        exact List.not_mem_nil hmem
      obtain ⟨j, hj⟩ := List.exists_mem_of_ne_nil _ hmissing
      obtain ⟨hdep, hnew⟩ := List.mem_filter.mp hj
      exact ⟨j, (hleft j).mpr ⟨hgraph.bounded i j hdep, of_decide_eq_true hnew⟩, hdep⟩
    ascending := List.pairwise_lt_range.filter _ }

/-- Of two members that may not stand the other way round, the first one stands before. -/
theorem idxOf_lt_of_pairwise {r : Nat → Nat → Prop} {l : List Nat} (hl : l.Pairwise r)
    (hi : i ∈ l) (hj : j ∈ l) (hne : i ≠ j) (hnot : ¬ r j i) : l.idxOf i < l.idxOf j := by
  have hilt := List.idxOf_lt_length_of_mem hi
  have hjlt := List.idxOf_lt_length_of_mem hj
  rcases Nat.lt_trichotomy (l.idxOf i) (l.idxOf j) with hlt | heq | hgt
  · exact hlt
  · exact absurd ((List.idxOf_inj hi).mp heq) hne
  · have hji := List.pairwise_iff_getElem.mp hl _ _ hjlt hilt hgt
    rw [List.getElem_idxOf, List.getElem_idxOf] at hji
    exact absurd hji hnot

namespace Arranged

variable {taken left : List Nat}

theorem nodup (h : Arranged graph taken left) : (taken ++ left).Nodup :=
  h.perm.nodup_iff.mpr List.nodup_range

theorem idxOf_lt_of_mem_deps (hgraph : WellFormed graph) (h : Arranged graph taken left)
    (hi : i ∈ taken) (hj : j ∈ deps graph i) : taken.idxOf j < taken.idxOf i := by
  refine idxOf_lt_of_pairwise h.before (h.closed i hi j hj) hi ?_ (not_not.mpr hj)
  rintro rfl
  exact hgraph.other j hj

/-- What can be reached from a position that is taken, was taken before it. -/
theorem idxOf_lt_of_reaches (hgraph : WellFormed graph) (h : Arranged graph taken left)
    (hi : i ∈ taken) (hj : TransGen (fun i j => j ∈ deps graph i) i j) :
    j ∈ taken ∧ taken.idxOf j < taken.idxOf i := by
  induction hj with
  | single hstep => exact ⟨h.closed _ hi _ hstep, h.idxOf_lt_of_mem_deps hgraph hi hstep⟩
  | tail _ hstep ih =>
    exact ⟨h.closed _ ih.1 _ hstep, (h.idxOf_lt_of_mem_deps hgraph ih.1 hstep).trans ih.2⟩

theorem not_reachesCycle (hgraph : WellFormed graph) (h : Arranged graph taken left)
    (hi : i ∈ taken) : ¬ ReachesCycle (fun i j => j ∈ deps graph i) i := by
  rintro ⟨c, hic, hc⟩
  have hmem : c ∈ taken := by
    rcases reflTransGen_iff_eq_or_transGen.mp hic with rfl | hic
    · exact hi
    · exact (h.idxOf_lt_of_reaches hgraph hi hic).1
  exact absurd (h.idxOf_lt_of_reaches hgraph hmem hc).2 (lt_irrefl _)

theorem reachesCycle (h : Arranged graph taken left) (hi : i ∈ left) :
    ReachesCycle (fun i j => j ∈ deps graph i) i :=
  reachesCycle_of_forall_exists h.stuck hi

theorem mem_taken_iff (hgraph : WellFormed graph) (h : Arranged graph taken left) :
    i ∈ taken ↔ i < graph.length ∧ ¬ ReachesCycle (fun i j => j ∈ deps graph i) i := by
  have hmem : i ∈ taken ++ left ↔ i < graph.length := by rw [h.perm.mem_iff, List.mem_range]
  constructor
  · exact fun hi => ⟨hmem.mp (List.mem_append_left _ hi), h.not_reachesCycle hgraph hi⟩
  · rintro ⟨hlt, hnot⟩
    rcases List.mem_append.mp (hmem.mpr hlt) with hi | hi
    · exact hi
    · exact absurd (h.reachesCycle hi) hnot

theorem mem_left_iff (hgraph : WellFormed graph) (h : Arranged graph taken left) :
    i ∈ left ↔ i < graph.length ∧ ReachesCycle (fun i j => j ∈ deps graph i) i := by
  have hmem : i ∈ taken ++ left ↔ i < graph.length := by rw [h.perm.mem_iff, List.mem_range]
  constructor
  · exact fun hi => ⟨hmem.mp (List.mem_append_right _ hi), h.reachesCycle hi⟩
  · rintro ⟨hlt, hcycle⟩
    rcases List.mem_append.mp (hmem.mpr hlt) with hi | hi
    · exact absurd hcycle (h.not_reachesCycle hgraph hi)
    · exact hi

theorem idxOf_of_mem_taken (hi : i ∈ taken) : (taken ++ left).idxOf i = taken.idxOf i :=
  List.idxOf_append_of_mem hi

theorem idxOf_of_mem_left (h : Arranged graph taken left) (hi : i ∈ left) :
    (taken ++ left).idxOf i = taken.length + left.idxOf i :=
  List.idxOf_append_of_notMem fun hi' => (List.nodup_append'.mp h.nodup).2.2 hi' hi

end Arranged

/-- Positions that reach no cycle come first, each behind all that it reaches, and the others keep
their order. -/
structure Respects (r : Nat → Nat → Prop) (n : Nat) (order : List Nat) : Prop where
  behind : ∀ i j, ¬ ReachesCycle r i → TransGen r i j → order.idxOf j < order.idxOf i
  freeFirst : ∀ i j, i < n → j < n → ¬ ReachesCycle r i → ReachesCycle r j →
    order.idxOf i < order.idxOf j
  kept : ∀ i j, i < j → j < n → ReachesCycle r i → ReachesCycle r j →
    order.idxOf i < order.idxOf j

theorem positions_respects (hgraph : WellFormed graph) :
    Respects (fun i j => j ∈ deps graph i) graph.length (positions graph) := by
  obtain ⟨taken, left, heq, h⟩ := positions_arranged hgraph
  rw [heq]
  refine ⟨fun i j hi hreach => ?_, fun i j hi hj hfree hcycle => ?_, fun i j hlt hj hi' hj' => ?_⟩
  · obtain ⟨k, hstep, -⟩ := TransGen.head'_iff.mp hreach
    have himem := (h.mem_taken_iff hgraph).mpr ⟨lt_of_mem_deps hstep, hi⟩
    obtain ⟨hjmem, hlt⟩ := h.idxOf_lt_of_reaches hgraph himem hreach
    rwa [Arranged.idxOf_of_mem_taken himem, Arranged.idxOf_of_mem_taken hjmem]
  · have himem := (h.mem_taken_iff hgraph).mpr ⟨hi, hfree⟩
    have hjmem := (h.mem_left_iff hgraph).mpr ⟨hj, hcycle⟩
    rw [Arranged.idxOf_of_mem_taken himem, h.idxOf_of_mem_left hjmem]
    have := List.idxOf_lt_length_of_mem himem
    omega
  · have himem := (h.mem_left_iff hgraph).mpr ⟨hlt.trans hj, hi'⟩
    have hjmem := (h.mem_left_iff hgraph).mpr ⟨hj, hj'⟩
    rw [h.idxOf_of_mem_left himem, h.idxOf_of_mem_left hjmem]
    have := idxOf_lt_of_pairwise h.ascending himem hjmem hlt.ne (not_lt.mpr hlt.le)
    omega

end RestThrift.Order
