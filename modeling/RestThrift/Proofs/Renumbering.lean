import Mathlib
import RestThrift.Proofs.Sorting
import RestThrift.Proofs.Table

/-!
# Sorting again

Sorting numbers the definitions anew: those of one kind in their sorted order, and the kinds one
after the other as before. The new numbers keep the dependencies, and they turn two definitions
round only where the first run had taken them the other way round already. So the second run takes
the same definition as the first one in each step, and leaves the same ones in the same order.
-/
namespace RestThrift

open scoped List

namespace Order

/-- The positions of the second graph stand for those of the first one, with the same dependencies.
Of two positions that the first graph sorts by their numbers, the second one has the same numbers
in order. -/
structure Renumbers (graph graph' : List (List Nat)) (τ : Nat → Nat) : Prop where
  length : graph'.length = graph.length
  perm : (List.range graph.length).map τ ~ List.range graph.length
  deps : ∀ p < graph.length, ∀ q < graph.length, q ∈ deps graph' p ↔ τ q ∈ deps graph (τ p)
  keeps : ∀ p < graph.length, ∀ q < graph.length, τ p < τ q →
    (positions graph).idxOf (τ p) < (positions graph).idxOf (τ q) → p < q

variable {graph graph' : List (List Nat)} {τ : Nat → Nat} {p q i : Nat}

namespace Renumbers

theorem lt (h : Renumbers graph graph' τ) (hp : p < graph.length) : τ p < graph.length := by
  have hmem := h.perm.mem_iff.mp (List.mem_map_of_mem (List.mem_range.mpr hp))
  exact List.mem_range.mp hmem

theorem inj (h : Renumbers graph graph' τ) (hp : p < graph.length) (hq : q < graph.length)
    (heq : τ p = τ q) : p = q := by
  have hnodup : ((List.range graph.length).map τ).Nodup := h.perm.nodup_iff.mpr List.nodup_range
  exact List.inj_on_of_nodup_map hnodup (List.mem_range.mpr hp) (List.mem_range.mpr hq) heq

theorem exists_eq (h : Renumbers graph graph' τ) (hi : i < graph.length) :
    ∃ p < graph.length, τ p = i := by
  have hmem := h.perm.mem_iff.mpr (List.mem_range.mpr hi)
  obtain ⟨p, hp, heq⟩ := List.mem_map.mp hmem
  exact ⟨p, List.mem_range.mp hp, heq⟩

end Renumbers

/-- What is in the first part of a list stands before what is not. -/
theorem idxOf_lt_of_prefix {part l : List Nat} (hpart : part <+: l) (hp : p ∈ part)
    (hq : q ∉ part) : l.idxOf p < l.idxOf q := by
  obtain ⟨rest, rfl⟩ := hpart
  have hlt := List.idxOf_lt_length_of_mem hp
  rw [List.idxOf_append_of_mem hp, List.idxOf_append_of_notMem hq]
  omega

namespace Progress

variable {first second : Progress}

theorem taken_advance (graph : List (List Nat)) (p : Progress) :
    (p.advance graph).taken = p.taken ++ p.ready.head?.toList := by
  rw [advance]
  split
  · rename_i hready
    rw [hready]
    simp
  · rename_i next ready hready
    rw [hready, taken_releases]
    rfl

theorem taken_prefix_run (graph : List (List Nat)) (steps : Nat) (p : Progress) :
    p.taken <+: (run graph steps p).taken := by
  induction steps generalizing p with
  | zero => exact List.prefix_refl _
  | succ steps ih =>
    have hstep : p.taken <+: (p.advance graph).taken := by
      rw [taken_advance]
      exact List.prefix_append _ _
    exact hstep.trans (ih _)

/-- What stands first among the positions that are ready is the least of them. -/
theorem Invariant.head_le {rest : List Nat} (h : Invariant graph first)
    (hready : first.ready = p :: rest) (hi : i ∈ first.ready) : p ≤ i := by
  have hsorted := h.sorted
  rw [hready] at hsorted hi
  rcases List.mem_cons.mp hi with rfl | hi
  · exact le_refl _
  · exact (List.rel_of_pairwise_cons hsorted hi).le

/-- Both runs have taken the same positions. -/
structure Matches (graph graph' : List (List Nat)) (τ : Nat → Nat) (first second : Progress) :
    Prop where
  invariant : Invariant graph first
  invariant' : Invariant graph' second
  taken : second.taken.map τ = first.taken

namespace Matches

variable (hgraph : WellFormed graph) (hgraph' : WellFormed graph') (hτ : Renumbers graph graph' τ)

include hτ in
theorem mem_taken (h : Matches graph graph' τ first second) (hp : p < graph.length) :
    p ∈ second.taken ↔ τ p ∈ first.taken := by
  rw [← h.taken]
  constructor
  · exact List.mem_map_of_mem
  · intro hmem
    obtain ⟨q, hq, heq⟩ := List.mem_map.mp hmem
    have hlt : q < graph.length := hτ.length ▸ h.invariant'.bounded q hq
    exact hτ.inj hlt hp heq ▸ hq

include hgraph hgraph' hτ

theorem missing_iff (h : Matches graph graph' τ first second) (hp : p < graph.length) :
    missing graph' second.taken p = [] ↔ missing graph first.taken (τ p) = [] := by
  rw [missing_eq_nil, missing_eq_nil]
  constructor
  · intro hall j hj
    obtain ⟨q, hq, rfl⟩ := hτ.exists_eq (hgraph.bounded _ j hj)
    exact (h.mem_taken hτ hq).mp (hall q ((hτ.deps p hp q hq).mpr hj))
  · intro hall q hq
    have hlt : q < graph.length := hτ.length ▸ hgraph'.bounded p q hq
    exact (h.mem_taken hτ hlt).mpr (hall (τ q) ((hτ.deps p hp q hlt).mp hq))

theorem mem_ready (h : Matches graph graph' τ first second) (hp : p < graph.length) :
    p ∈ second.ready ↔ τ p ∈ first.ready := by
  have hlt : p < graph'.length ↔ τ p < graph.length := by simp [hτ.length, hp, hτ.lt hp]
  rw [h.invariant.ready, h.invariant'.ready, hlt, h.mem_taken hτ hp,
    h.missing_iff hgraph hgraph' hτ hp]

/-- The least position that is ready is the same one in both runs: if the second run had another
one in front of it, the first run would take the two in the order of their numbers, and that order
is kept. -/
theorem map_head {next least : Nat} {rest others : List Nat}
    (h : Matches graph graph' τ first second) (hready : first.ready = next :: rest)
    (hready' : second.ready = least :: others)
    (htaken : (first.advance graph).taken <+: positions graph) : τ least = next := by
  have hnext : next ∈ first.ready := hready ▸ List.mem_cons_self
  have hleast : least ∈ second.ready := hready' ▸ List.mem_cons_self
  have hlt : least < graph.length := hτ.length ▸ ((h.invariant'.ready least).mp hleast).1
  have hmem : τ least ∈ first.ready := (h.mem_ready hgraph hgraph' hτ hlt).mp hleast
  obtain ⟨p, hp, rfl⟩ := hτ.exists_eq ((h.invariant.ready next).mp hnext).1
  have hle : least ≤ p :=
    h.invariant'.head_le hready' ((h.mem_ready hgraph hgraph' hτ hp).mpr hnext)
  have hle' : τ p ≤ τ least := h.invariant.head_le hready hmem
  by_contra hne
  have hbefore : (positions graph).idxOf (τ p) < (positions graph).idxOf (τ least) := by
    have hnot : τ least ∉ first.taken := ((h.invariant.ready _).mp hmem).2.1
    rw [taken_advance, hready] at htaken
    refine idxOf_lt_of_prefix htaken ?_ ?_
    · simp
    · simp [hnot, hne]
  have hlater := hτ.keeps p hp least hlt (by omega) hbefore
  omega

theorem head?_ready (h : Matches graph graph' τ first second)
    (htaken : (first.advance graph).taken <+: positions graph) :
    second.ready.head?.map τ = first.ready.head? := by
  cases hready : first.ready with
  | nil =>
    have hnil : second.ready = [] := by
      refine List.eq_nil_iff_forall_not_mem.mpr fun q hq => ?_
      have hlt : q < graph.length := hτ.length ▸ ((h.invariant'.ready q).mp hq).1
      have hmem := (h.mem_ready hgraph hgraph' hτ hlt).mp hq
      simp [hready] at hmem
    rw [hnil]
    rfl
  | cons next rest =>
    obtain ⟨p, hp, heq⟩ := hτ.exists_eq
      ((h.invariant.ready next).mp (hready ▸ List.mem_cons_self)).1
    have hpready : p ∈ second.ready := by simp [h.mem_ready hgraph hgraph' hτ hp, hready, heq]
    cases hready' : second.ready with
    | nil => simp [hready'] at hpready
    | cons least others =>
      have hleast := h.map_head hgraph hgraph' hτ hready hready' htaken
      simp [hleast]

theorem advance (h : Matches graph graph' τ first second)
    (htaken : (first.advance graph).taken <+: positions graph) :
    Matches graph graph' τ (first.advance graph) (second.advance graph') where
  invariant := h.invariant.advance hgraph
  invariant' := h.invariant'.advance hgraph'
  taken := by
    have hhead := h.head?_ready hgraph hgraph' hτ htaken
    rw [taken_advance, taken_advance, List.map_append, h.taken, ← hhead]
    cases second.ready.head? <;> rfl

theorem run (steps : Nat) (h : Matches graph graph' τ first second)
    (htaken : (Progress.run graph steps first).taken <+: positions graph) :
    Matches graph graph' τ (Progress.run graph steps first)
      (Progress.run graph' steps second) := by
  induction steps generalizing first second with
  | zero => exact h
  | succ steps ih =>
    have hstep := h.advance hgraph hgraph' hτ ((taken_prefix_run graph steps _).trans htaken)
    exact ih hstep htaken

end Matches

end Progress

/-- The positions that are not among those taken, ascending. -/
def remaining (n : Nat) (taken : List Nat) : List Nat :=
  (List.range n).filter fun i => !taken.contains i

theorem mem_remaining {n : Nat} {taken : List Nat} : i ∈ remaining n taken ↔ i < n ∧ i ∉ taken := by
  simp [remaining]

theorem ascending_remaining (n : Nat) (taken : List Nat) :
    (remaining n taken).Pairwise (· < ·) := List.pairwise_lt_range.filter _

theorem positions_eq (graph : List (List Nat)) : positions graph =
    (Progress.run graph graph.length (.initial graph)).taken ++
      remaining graph.length (Progress.run graph graph.length (.initial graph)).taken := rfl

theorem mem_remaining_iff (hτ : Renumbers graph graph' τ) {taken taken' : List Nat}
    (hmem : ∀ p < graph.length, p ∈ taken' ↔ τ p ∈ taken) :
    i ∈ remaining graph'.length taken' ↔
      i < graph.length ∧ τ i ∈ remaining graph.length taken := by
  rw [mem_remaining, mem_remaining, hτ.length]
  constructor
  · exact fun ⟨hi, hnot⟩ => ⟨hi, hτ.lt hi, fun h => hnot ((hmem i hi).mpr h)⟩
  · exact fun ⟨hi, _, hnot⟩ => ⟨hi, fun h => hnot ((hmem i hi).mp h)⟩

/-- What is left of one list keeps its order in the other one. -/
theorem ascending_map_remaining (hτ : Renumbers graph graph' τ) {taken taken' : List Nat}
    (hmem : ∀ p < graph.length, p ∈ taken' ↔ τ p ∈ taken)
    (hpositions : positions graph = taken ++ remaining graph.length taken) :
    ((remaining graph'.length taken').map τ).Pairwise (· < ·) := by
  rw [List.pairwise_map]
  refine (ascending_remaining _ _).imp_of_mem fun {p q} hp hq hlt => ?_
  obtain ⟨hp, hpleft⟩ := (mem_remaining_iff hτ hmem).mp hp
  obtain ⟨hq, hqleft⟩ := (mem_remaining_iff hτ hmem).mp hq
  rcases Nat.lt_trichotomy (τ p) (τ q) with h | heq | hgt
  · exact h
  · have := hτ.inj hp hq heq
    omega
  · have hbefore : (positions graph).idxOf (τ q) < (positions graph).idxOf (τ p) := by
      rw [hpositions, List.idxOf_append_of_notMem (mem_remaining.mp hqleft).2,
        List.idxOf_append_of_notMem (mem_remaining.mp hpleft).2]
      have := idxOf_lt_of_pairwise (ascending_remaining _ _) hqleft hpleft hgt.ne (by omega)
      omega
    have := hτ.keeps q hq p hp hgt hbefore
    omega

/-- What is left of two lists that correspond, corresponds in order. -/
theorem map_remaining (hτ : Renumbers graph graph' τ) {taken taken' : List Nat}
    (hmem : ∀ p < graph.length, p ∈ taken' ↔ τ p ∈ taken)
    (hpositions : positions graph = taken ++ remaining graph.length taken) :
    (remaining graph'.length taken').map τ = remaining graph.length taken := by
  have hascending := ascending_map_remaining hτ hmem hpositions
  have hperm : (remaining graph'.length taken').map τ ~ remaining graph.length taken := by
    refine (List.perm_ext_iff_of_nodup (hascending.imp fun h => Nat.ne_of_lt h)
      ((ascending_remaining _ _).imp fun h => Nat.ne_of_lt h)).mpr fun i => ?_
    constructor
    · intro hi
      obtain ⟨p, hp, rfl⟩ := List.mem_map.mp hi
      exact ((mem_remaining_iff hτ hmem).mp hp).2
    · intro hi
      obtain ⟨p, hp, rfl⟩ := hτ.exists_eq (mem_remaining.mp hi).1
      exact List.mem_map_of_mem ((mem_remaining_iff hτ hmem).mpr ⟨hp, hi⟩)
  exact hperm.eq_of_pairwise (fun a b _ _ hab hba => absurd hab (lt_asymm hba)) hascending
    (ascending_remaining _ _)

/-- Both graphs have their positions in the same order. -/
theorem map_positions (hgraph : WellFormed graph) (hgraph' : WellFormed graph')
    (hτ : Renumbers graph graph' τ) : (positions graph').map τ = positions graph := by
  have hstart : Progress.Matches graph graph' τ (.initial graph) (.initial graph') :=
    ⟨Progress.invariant_initial graph, Progress.invariant_initial graph', rfl⟩
  have hrun := hstart.run hgraph hgraph' hτ graph.length (List.prefix_append _ _)
  have hleft := map_remaining hτ (fun p hp => hrun.mem_taken hτ hp) (positions_eq graph)
  rw [hτ.length] at hleft
  rw [positions_eq graph', positions_eq graph, hτ.length, List.map_append, hrun.taken, hleft]

end Order

/-! ## Numbers of sorted definitions -/

/-- The place of a kind among the kinds of definitions; functions are no entries. -/
def Definition.rank : Definition → Nat
  | .message _ => 0
  | .enumeration _ => 1
  | .typedef _ => 2
  | .constant _ => 3
  | .service _ => 4
  | .function _ => 5

section Lists

variable {α β γ : Type}

theorem filter_filterMap_eq {l : List α} {f : α → Option β} {keep : β → Bool} :
    (l.filterMap f).filter keep = (l.filter fun a => (f a).any keep).filterMap f := by
  induction l with
  | nil => rfl
  | cons a rest ih =>
    cases hf : f a with
    | none => simp [hf, ih]
    | some b => cases hkeep : keep b <;> simp [hf, hkeep, ih]

/-- Where nothing is left out, results stand at the positions of what they come from. -/
theorem getElem?_filterMap {l : List α} {f : α → Option β} (h : ∀ a ∈ l, (f a).isSome) (p : Nat) :
    (l.filterMap f)[p]? = l[p]?.bind f := by
  induction l generalizing p with
  | nil => rfl
  | cons a rest ih =>
    obtain ⟨ha, hrest⟩ := List.forall_mem_cons.mp h
    obtain ⟨b, hb⟩ := Option.isSome_iff_exists.mp ha
    rw [List.filterMap_cons, hb]
    cases p with
    | zero => simp [hb]
    | succ p => simpa using ih hrest p

/-- One kind after the other, each in list order. -/
def grouped (rank : α → Nat) (l : List α) : List α :=
  (List.range 5).flatMap fun k => l.filter fun a => rank a == k

theorem mem_grouped {rank : α → Nat} {l : List α} {a : α} :
    a ∈ grouped rank l ↔ a ∈ l ∧ rank a < 5 := by
  simp only [grouped, List.mem_flatMap, List.mem_range, List.mem_filter, beq_iff_eq]
  constructor
  · rintro ⟨k, hk, ha, rfl⟩
    exact ⟨ha, hk⟩
  · exact fun ⟨ha, hk⟩ => ⟨rank a, hk, ha, rfl⟩

theorem pairwise_grouped {rank : α → Nat} {l : List α} {r : α → α → Prop} (h : l.Pairwise r) :
    (grouped rank l).Pairwise fun a b => rank a < rank b ∨ rank a = rank b ∧ r a b := by
  rw [grouped, List.pairwise_flatMap]
  constructor
  · intro k _
    refine (h.filter _).imp_of_mem fun {a b} ha hb hr => .inr ⟨?_, hr⟩
    have hak : rank a = k := by simpa using List.of_mem_filter ha
    have hbk : rank b = k := by simpa using List.of_mem_filter hb
    omega
  · refine List.pairwise_lt_range.imp fun {j k} hlt a ha b hb => .inl ?_
    have haj : rank a = j := by simpa using List.of_mem_filter ha
    have hbk : rank b = k := by simpa using List.of_mem_filter hb
    omega

theorem map_range_getD (l : List Nat) : (List.range l.length).map (fun p => l.getD p 0) = l := by
  refine List.ext_getElem (by simp) fun p hp hp' => ?_
  simp [hp']

end Lists

namespace Definitions

open RestThrift.Order

variable {d : Definitions} {p q i j t : Nat} {name : String}

theorem entries_ofEntries (l : List Definition) :
    (ofEntries l).entries = grouped Definition.rank l := by
  have hmessages : (l.filterMap Definition.message?).map .message =
      l.filter fun definition => definition.rank == 0 :=
    map_filterMap_eq_filter fun a => by cases a <;> rfl
  have henums : (l.filterMap Definition.enumeration?).map .enumeration =
      l.filter fun definition => definition.rank == 1 :=
    map_filterMap_eq_filter fun a => by cases a <;> rfl
  have htypedefs : (l.filterMap Definition.typedef?).map .typedef =
      l.filter fun definition => definition.rank == 2 :=
    map_filterMap_eq_filter fun a => by cases a <;> rfl
  have hconstants : (l.filterMap Definition.constant?).map .constant =
      l.filter fun definition => definition.rank == 3 :=
    map_filterMap_eq_filter fun a => by cases a <;> rfl
  have hservices : (l.filterMap Definition.service?).map .service =
      l.filter fun definition => definition.rank == 4 :=
    map_filterMap_eq_filter fun a => by cases a <;> rfl
  simp only [entries, ofEntries, hmessages, henums, htypedefs, hconstants, hservices]
  simp [grouped, List.range_succ]

theorem rank_lt {definition : Definition} (h : definition ∈ d.entries) : definition.rank < 5 := by
  simp only [entries, List.mem_append, List.mem_map] at h
  rcases h with (((⟨_, -, rfl⟩ | ⟨_, -, rfl⟩) | ⟨_, -, rfl⟩) | ⟨_, -, rfl⟩) | ⟨_, -, rfl⟩ <;>
    simp [Definition.rank]

/-- The entries list one kind after the other. -/
theorem pairwise_rank (d : Definitions) : d.entries.Pairwise fun a b => a.rank ≤ b.rank := by
  have hgrouped := entries_ofEntries d.entries
  rw [ofEntries_entries] at hgrouped
  rw [hgrouped]
  have htrivial : d.entries.Pairwise fun _ _ => True := List.pairwise_of_forall fun _ _ => trivial
  exact (pairwise_grouped htrivial).imp fun h => by omega

/-- The kind of the definition with a number. -/
def rankAt (d : Definitions) (i : Nat) : Nat := d.entries[i]?.elim 5 Definition.rank

theorem rankAt_lt (hi : i < d.entries.length) : d.rankAt i < 5 := by
  rw [rankAt, List.getElem?_eq_getElem hi]
  exact rank_lt (List.getElem_mem hi)

theorem rankAt_mono (hij : i < j) (hj : j < d.entries.length) : d.rankAt i ≤ d.rankAt j := by
  have hi : i < d.entries.length := hij.trans hj
  have hrank := List.pairwise_iff_getElem.mp d.pairwise_rank i j hi hj hij
  simpa [rankAt, hi, hj] using hrank

/-- The numbers of the definitions in the order in which the sorted ones are numbered. -/
def renumbered (d : Definitions) : List Nat := grouped d.rankAt (order d)

theorem nodup_order (d : Definitions) : (order d).Nodup :=
  (order_perm d).nodup_iff.mpr List.nodup_range

/-- Numbers of one kind stand in their sorted order. -/
theorem pairwise_renumbered (d : Definitions) : d.renumbered.Pairwise fun i j =>
    d.rankAt i < d.rankAt j ∨
      d.rankAt i = d.rankAt j ∧ (order d).idxOf i < (order d).idxOf j := by
  refine pairwise_grouped (List.pairwise_iff_getElem.mpr fun p q hp hq hlt => ?_)
  rwa [d.nodup_order.idxOf_getElem, d.nodup_order.idxOf_getElem]

theorem renumbered_perm (d : Definitions) : d.renumbered ~ List.range d.entries.length := by
  have hnodup : d.renumbered.Nodup := by
    refine d.pairwise_renumbered.imp fun h heq => ?_
    rw [heq] at h
    omega
  refine (List.perm_ext_iff_of_nodup hnodup List.nodup_range).mpr fun i => ?_
  rw [renumbered, mem_grouped, (order_perm d).mem_iff]
  exact and_iff_left_of_imp fun hi => rankAt_lt (List.mem_range.mp hi)

theorem lt_of_mem_renumbered (h : i ∈ d.renumbered) : i < d.entries.length :=
  List.mem_range.mp (d.renumbered_perm.mem_iff.mp h)

theorem entries_sorted (d : Definitions) :
    d.sorted.entries = d.renumbered.filterMap (d.entries[·]?) := by
  have hkind : ∀ k < 5, ∀ i, (d.entries[i]?).any (fun definition => definition.rank == k) =
      (d.rankAt i == k) := by
    intro k hk i
    rw [rankAt]
    cases d.entries[i]? with
    | none => simpa using hk.ne'
    | some definition => rfl
  rw [sorted, entries_ofEntries, renumbered, grouped, grouped, List.filterMap_flatMap]
  refine List.flatMap_congr fun k hk => ?_
  rw [filter_filterMap_eq, List.filter_congr fun i _ => hkind k (List.mem_range.mp hk) i, order]

theorem length_renumbered (d : Definitions) : d.renumbered.length = d.entries.length := by
  simpa using d.renumbered_perm.length_eq

/-- The old number of the definition that has a new one. -/
def formerly (d : Definitions) (p : Nat) : Nat := d.renumbered.getD p 0

theorem formerly_eq_getElem (hp : p < d.renumbered.length) : d.formerly p = d.renumbered[p] := by
  simp [formerly, hp]

theorem map_formerly (d : Definitions) :
    (List.range d.entries.length).map d.formerly = d.renumbered := by
  rw [← length_renumbered]
  exact map_range_getD d.renumbered

/-- Where the old numbers are in the order of the sort, so are the new ones. -/
theorem lt_of_formerly_lt (hp : p < d.entries.length) (hq : q < d.entries.length)
    (hlt : d.formerly p < d.formerly q)
    (hbefore : (order d).idxOf (d.formerly p) < (order d).idxOf (d.formerly q)) : p < q := by
  rw [← length_renumbered] at hp hq
  have hrank : d.rankAt (d.formerly p) ≤ d.rankAt (d.formerly q) := by
    refine rankAt_mono hlt ?_
    rw [formerly_eq_getElem hq]
    exact lt_of_mem_renumbered (List.getElem_mem hq)
  rcases Nat.lt_trichotomy p q with h | rfl | hgt
  · exact h
  · omega
  · have hpair := List.pairwise_iff_getElem.mp d.pairwise_renumbered q p hq hp hgt
    rw [← formerly_eq_getElem hp, ← formerly_eq_getElem hq] at hpair
    omega

theorem getElem?_entries_sorted (hp : p < d.entries.length) :
    d.sorted.entries[p]? = d.entries[d.formerly p]? := by
  have hall : ∀ i ∈ d.renumbered, (d.entries[i]?).isSome := by
    intro i hi
    simpa using lt_of_mem_renumbered hi
  rw [← length_renumbered] at hp
  rw [entries_sorted, getElem?_filterMap hall, formerly_eq_getElem hp, List.getElem?_eq_getElem hp,
    Option.bind_some]

theorem Rearranges.entries_perm {d' : Definitions} (h : d'.Rearranges d) :
    d'.entries ~ d.entries :=
  ((((h.messages.map _).append (h.enums.map _)).append (h.typedefs.map _)).append
    (h.constants.map _)).append (h.services.map _)

theorem length_entries_sorted (d : Definitions) : d.sorted.entries.length = d.entries.length :=
  d.sorted_rearranges.entries_perm.length_eq

/-! ## Distinct names -/

/-- All definitions have different names. -/
def DistinctNames (d : Definitions) : Prop := (d.entries.map Definition.name).Nodup

theorem DistinctNames.sorted (h : d.DistinctNames) : d.sorted.DistinctNames :=
  (d.sorted_rearranges.entries_perm.map Definition.name).nodup_iff.mpr h

theorem DistinctNames.firstBearer_iff (h : d.DistinctNames) : FirstBearer d name t ↔
    ∃ definition, d.entries[t]? = some definition ∧ definition.name = name := by
  constructor
  · rintro ⟨definition, hdef, hname, -⟩
    exact ⟨definition, hdef, hname⟩
  · rintro ⟨definition, hdef, hname⟩
    refine ⟨definition, hdef, hname, fun k hk other hother heq => ?_⟩
    have hpair : ∀ {i : Nat} {a : Definition}, d.entries[i]? = some a →
        (d.entries.map Definition.name)[i]? = some a.name := fun hi => by simp [hi]
    have hk' := hpair hother
    have ht' := hpair hdef
    rw [heq, ← hname, ← ht'] at hk'
    have hlt := (List.getElem?_eq_some_iff.mp (hpair hother)).1
    have hkt := (List.getElem?_inj hlt h).mp hk'
    omega

theorem DistinctNames.dependsOn_sorted_iff (h : d.DistinctNames) (hp : p < d.entries.length)
    (hq : q < d.entries.length) (hne : q ≠ p ↔ d.formerly q ≠ d.formerly p) :
    DependsOn d.sorted p q ↔ DependsOn d (d.formerly p) (d.formerly q) := by
  simp only [DependsOn, h.firstBearer_iff, h.sorted.firstBearer_iff, getElem?_entries_sorted hp,
    getElem?_entries_sorted hq, hne]

theorem DistinctNames.renumbers (h : d.DistinctNames) :
    Renumbers (dependencies d.entries) (dependencies d.sorted.entries) d.formerly := by
  have hperm : (List.range d.entries.length).map d.formerly ~ List.range d.entries.length := by
    rw [map_formerly]
    exact d.renumbered_perm
  have hinj : ∀ p < d.entries.length, ∀ q < d.entries.length,
      q ≠ p ↔ d.formerly q ≠ d.formerly p := by
    intro p hp q hq
    refine not_congr ⟨fun heq => by rw [heq], fun heq => ?_⟩
    have hnodup := hperm.nodup_iff.mpr List.nodup_range
    exact List.inj_on_of_nodup_map hnodup (List.mem_range.mpr hq) (List.mem_range.mpr hp) heq
  refine ⟨?_, ?_, ?_, ?_⟩ <;> simp only [length_dependencies]
  · exact length_entries_sorted d
  · exact hperm
  · intro p hp q hq
    rw [mem_deps_dependencies, mem_deps_dependencies]
    exact h.dependsOn_sorted_iff hp hq (hinj p hp q hq)
  · exact fun p hp q hq hlt hbefore => lt_of_formerly_lt hp hq hlt hbefore

/-- Sorting definitions with different names once more leaves all lists as they are, whatever
refers to what. -/
theorem sorted_sorted (h : d.DistinctNames) : d.sorted.sorted = d.sorted := by
  have hpositions : (order d.sorted).map d.formerly = order d :=
    map_positions (wellFormed_dependencies d) (wellFormed_dependencies d.sorted) h.renumbers
  have hentries : (order d.sorted).filterMap (d.sorted.entries[·]?) =
      (order d).filterMap (d.entries[·]?) := by
    rw [← hpositions, List.filterMap_map]
    refine List.filterMap_congr fun p hp => ?_
    have hlt := List.mem_range.mp ((order_perm d.sorted).mem_iff.mp hp)
    exact getElem?_entries_sorted (length_entries_sorted d ▸ hlt)
  calc d.sorted.sorted
    _ = ofEntries ((order d.sorted).filterMap (d.sorted.entries[·]?)) := rfl
    _ = ofEntries ((order d).filterMap (d.entries[·]?)) := by rw [hentries]
    _ = d.sorted := rfl

/-- Two messages in a circle, a message that refers to itself and to other kinds, and kinds that
stand before what they refer to. -/
def tangled : Definitions :=
  let field (name : String) : Field := { name := "f", type := .named name none }
  { messages := [{ name := "A", fqn := "A", fields := [field "B"] },
      { name := "B", fqn := "B", fields := [field "A", field "Pet"] },
      { name := "Pet", fqn := "Pet", fields := [field "Pet", field "Kind", field "Name"] }]
    enums := [{ name := "Kind", fqn := "Kind" }]
    typedefs := [{ name := "Name", fqn := "Name", target := .named "Label" none },
      { name := "Label", fqn := "Label", target := .string }]
    constants := [{ name := "LIMIT", fqn := "LIMIT", type := .named "Name" none, value := .int 1 }]
    services := [{ name := "Store", fqn := "Store", parent := some "Base" },
      { name := "Base", fqn := "Base" }] }

theorem tangled_sorted_sorted : tangled.sorted.sorted = tangled.sorted ∧
    tangled.sorted.messages.map Message.name = ["Pet", "A", "B"] := by
  have hnames : (tangled.entries.map Definition.name).Nodup := by decide +kernel
  exact ⟨sorted_sorted hnames, by decide +kernel⟩

/-- Where a name is borne twice, sorting may hand it over to the other bearer. -/
example :
    let message (name mentioned : String) : Message :=
      { name, fqn := name, fields := [{ name := "f", type := .named mentioned none }] }
    let d : Definitions := { messages := [message "B" "C", message "C" "B", message "A" "B",
      message "B" "base.E"] }
    d.sorted.messages.map Message.name = ["B", "B", "C", "A"] ∧
      d.sorted.sorted.messages.map Message.name = ["B", "C", "B", "A"] := by
  decide +kernel

end Definitions

end RestThrift
