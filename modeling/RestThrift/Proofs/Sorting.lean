import Mathlib
import RestThrift.Proofs.Order

/-!
# Sorted definitions

The definitions of a bag are numbered in first-seen order. One of them depends on another when it
mentions a name that the other one is the first to bear. Sorting arranges the numbers: definitions
that reach no cycle come first, each behind all that it depends on, and the others keep their order
at the end.
-/
namespace RestThrift

open Relation

open scoped List

/-! ## What a definition mentions -/

/-- The types that stand in a definition. -/
def Definition.typeRefs : Definition → List TypeRef
  | .service s => s.functions.flatMap ServiceFunction.types
  | .function f => f.types
  | .message m => m.fields.map Field.type
  | .enumeration _ => []
  | .constant c => [c.type]
  | .typedef t => [t.target]

/-- A name with its full name stands in some type of a file, at any depth. -/
def File.Uses (file : File) (name : String) (fqn : Option String) : Prop :=
  ∃ d ∈ file.definitions.entries, ∃ t ∈ d.typeRefs, .named name fqn ∈ t.walk

/-- A definition mentions the unqualified names in its types, and a service the one it extends. -/
inductive Definition.Mentions : Definition → String → Prop
  | type {definition : Definition} {t : TypeRef} {name : String} {fqn : Option String}
      (ht : t ∈ definition.typeRefs) (hnamed : .named name fqn ∈ t.walk)
      (hlocal : '.' ∉ name.toList) : Mentions definition name
  | parent {s : Service} {name : String} (hparent : s.parent = some name) :
      Mentions (.service s) name

theorem TypeRef.mem_localNames {t : TypeRef} {name : String} :
    name ∈ t.localNames ↔ ∃ fqn, .named name fqn ∈ t.walk ∧ '.' ∉ name.toList := by
  simp only [localNames, List.mem_filterMap]
  constructor
  · rintro ⟨inner, hinner, h⟩
    cases inner with
    | named written fqn =>
      simp only at h
      split at h
      · simp at h
      · rename_i hlocal
        obtain rfl := Option.some.inj h
        exact ⟨fqn, hinner, fun hdot => hlocal (List.contains_iff_mem.mpr hdot)⟩
    | _ => simp at h
  · rintro ⟨fqn, hinner, hlocal⟩
    exact ⟨_, hinner, by simp [hlocal]⟩

theorem Definition.mem_mentions {definition : Definition} {name : String} :
    name ∈ definition.mentions ↔ definition.Mentions name := by
  have htypes : definition.Mentions name ↔
      name ∈ definition.typeRefs.flatMap TypeRef.localNames ∨
        ∃ s, definition = .service s ∧ s.parent = some name := by
    simp only [List.mem_flatMap, TypeRef.mem_localNames]
    constructor
    · rintro (⟨ht, hnamed, hlocal⟩ | hparent)
      · exact .inl ⟨_, ht, _, hnamed, hlocal⟩
      · exact .inr ⟨_, rfl, hparent⟩
    · rintro (⟨t, ht, fqn, hnamed, hlocal⟩ | ⟨s, rfl, hparent⟩)
      · exact .type ht hnamed hlocal
      · exact .parent hparent
  rw [htypes]
  cases definition <;> simp [mentions, typeRefs, List.flatMap_map, or_comm, Option.mem_toList]

/-! ## Dependencies -/

/-- The number of the first definition that bears a name. -/
def FirstBearer (d : Definitions) (name : String) (t : Nat) : Prop :=
  ∃ definition, d.entries[t]? = some definition ∧ definition.name = name ∧
    ∀ k < t, ∀ other, d.entries[k]? = some other → other.name ≠ name

/-- A definition depends on another one that is the first to bear a name it mentions. -/
def DependsOn (d : Definitions) (i t : Nat) : Prop :=
  t ≠ i ∧ ∃ definition name, d.entries[i]? = some definition ∧ definition.Mentions name ∧
    FirstBearer d name t

namespace Order

variable {d : Definitions} {name : String} {i t : Nat}

theorem bearer?_eq_some : bearer? (d.entries.map Definition.name) name = some t ↔
    FirstBearer d name t := by
  simp only [bearer?, FirstBearer, List.findIdx?_eq_some_iff_getElem, List.length_map,
    List.getElem_map, beq_iff_eq]
  constructor
  · rintro ⟨ht, hname, hfirst⟩
    refine ⟨d.entries[t], List.getElem?_eq_getElem ht, hname, fun k hk other hother => ?_⟩
    obtain ⟨hlt, rfl⟩ := List.getElem?_eq_some_iff.mp hother
    exact hfirst k hk
  · rintro ⟨definition, hdef, hname, hfirst⟩
    obtain ⟨ht, rfl⟩ := List.getElem?_eq_some_iff.mp hdef
    refine ⟨ht, hname, fun k hk => ?_⟩
    exact hfirst k hk _ (List.getElem?_eq_getElem (hk.trans ht))

theorem mem_deps_dependencies : t ∈ deps (dependencies d.entries) i ↔ DependsOn d i t := by
  have hdeps : deps (dependencies d.entries) i = match d.entries[i]? with
      | some definition => ((definition.mentions.filterMap
          (bearer? (d.entries.map Definition.name))).filter (· ≠ i)).eraseDups
      | none => [] := by
    simp only [deps, dependencies, List.getD_eq_getElem?_getD, List.getElem?_map,
      List.getElem?_zipIdx]
    cases d.entries[i]? <;> simp
  rw [hdeps, DependsOn]
  cases hentry : d.entries[i]? with
  | none => simp
  | some definition =>
    simp only [List.mem_eraseDups, List.mem_filter, List.mem_filterMap, Definition.mem_mentions,
      bearer?_eq_some, decide_eq_true_eq, Option.some.injEq]
    constructor
    · rintro ⟨⟨name, hname, hbearer⟩, hne⟩
      exact ⟨hne, definition, name, rfl, hname, hbearer⟩
    · rintro ⟨hne, _, name, rfl, hname, hbearer⟩
      exact ⟨⟨name, hname, hbearer⟩, hne⟩

theorem length_dependencies (d : Definitions) :
    (dependencies d.entries).length = d.entries.length := by
  simp [dependencies]

theorem nodup_eraseDups (l : List Nat) : l.eraseDups.Nodup := by
  induction l using List.reverseRecOn with
  | nil => simp
  | append_singleton rest a ih =>
    rw [List.eraseDups_append]
    by_cases ha : a ∈ rest
    · simpa [List.removeAll, ha] using ih
    · have hlast : [a].removeAll rest = [a] := by simp [List.removeAll, ha]
      rw [hlast]
      exact ih.append (List.nodup_singleton a) (List.disjoint_singleton.mpr (by simpa using ha))

theorem wellFormed_dependencies (d : Definitions) : WellFormed (dependencies d.entries) where
  nodup i := by
    simp only [deps, dependencies, List.getD_eq_getElem?_getD, List.getElem?_map,
      List.getElem?_zipIdx]
    cases d.entries[i]? with
    | none => simp
    | some definition => exact nodup_eraseDups _
  bounded i j h := by
    obtain ⟨-, -, -, -, -, definition, hdef, -⟩ := mem_deps_dependencies.mp h
    rw [length_dependencies]
    exact (List.getElem?_eq_some_iff.mp hdef).1
  other i h := (mem_deps_dependencies.mp h).1 rfl

theorem dependsOn_eq (d : Definitions) :
    DependsOn d = fun i j => j ∈ deps (dependencies d.entries) i := by
  ext i j
  exact mem_deps_dependencies.symm

/-- The positions of the sorted definitions. -/
def order (d : Definitions) : List Nat := positions (dependencies d.entries)

theorem order_perm (d : Definitions) : order d ~ List.range d.entries.length := by
  obtain ⟨taken, left, heq, harranged⟩ := positions_arranged (wellFormed_dependencies d)
  rw [order, heq, ← length_dependencies]
  exact harranged.perm

theorem order_respects (d : Definitions) :
    Respects (DependsOn d) d.entries.length (order d) := by
  have hrespects := positions_respects (wellFormed_dependencies d)
  rwa [length_dependencies, ← dependsOn_eq] at hrespects

end Order

/-! ## The five lists -/

theorem filterMap_range_getElem? {α β : Type} (l : List α) (f : α → Option β) :
    ((List.range l.length).filterMap fun i => l[i]?.bind f) = l.filterMap f := by
  induction l with
  | nil => rfl
  | cons a rest ih =>
    rw [List.length_cons, List.range_succ_eq_map, List.filterMap_cons, List.filterMap_map]
    simp only [List.getElem?_cons_zero, Option.bind_some, List.filterMap_cons]
    rw [← ih]
    rfl

namespace Definitions

/-- The definitions of one kind, in the order of their numbers in a list. -/
def along {α : Type} (d : Definitions) (kind? : Definition → Option α) (order : List Nat) :
    List α :=
  order.filterMap fun i => d.entries[i]?.bind kind?

/-- Each kind of definitions in the order of their numbers in a list. -/
def arranged (d : Definitions) (order : List Nat) : Definitions :=
  { services := d.along Definition.service? order
    messages := d.along Definition.message? order
    enums := d.along Definition.enumeration? order
    constants := d.along Definition.constant? order
    typedefs := d.along Definition.typedef? order }

/-- The same definitions of each kind, possibly in another order. -/
structure Rearranges (d' d : Definitions) : Prop where
  services : d'.services ~ d.services
  messages : d'.messages ~ d.messages
  enums : d'.enums ~ d.enums
  constants : d'.constants ~ d.constants
  typedefs : d'.typedefs ~ d.typedefs

theorem ofEntries_entries (d : Definitions) : ofEntries d.entries = d := by
  simp [ofEntries, entries, List.filterMap_append, List.filterMap_map, Function.comp_def,
    Definition.service?, Definition.message?, Definition.enumeration?, Definition.constant?,
    Definition.typedef?]

theorem arranged_range (d : Definitions) : d.arranged (List.range d.entries.length) = d := by
  have hrange : ∀ {α : Type} (kind? : Definition → Option α),
      d.along kind? (List.range d.entries.length) = d.entries.filterMap kind? :=
    fun kind? => filterMap_range_getElem? d.entries kind?
  simp only [arranged, hrange]
  exact d.ofEntries_entries

theorem arranged_rearranges {order : List Nat} (d : Definitions)
    (h : order ~ List.range d.entries.length) : (d.arranged order).Rearranges d := by
  have hperm : (d.arranged order).Rearranges (d.arranged (List.range d.entries.length)) :=
    ⟨h.filterMap _, h.filterMap _, h.filterMap _, h.filterMap _, h.filterMap _⟩
  rwa [arranged_range] at hperm

theorem sorted_eq_arranged (d : Definitions) : d.sorted = d.arranged (Order.order d) := by
  simp only [sorted, ofEntries, arranged, along, Order.order, List.filterMap_filterMap]

theorem sorted_rearranges (d : Definitions) : d.sorted.Rearranges d := by
  rw [sorted_eq_arranged]
  exact d.arranged_rearranges (Order.order_perm d)

/-- The sorted lists hold the same definitions. In them a definition from which no cycle can be
reached stands behind all that it reaches, all such definitions stand before the others, and the
others are in first-seen order. -/
theorem sorted_by_dependency (d : Definitions) :
    d.sorted.Rearranges d ∧ ∃ order : List Nat, order ~ List.range d.entries.length ∧
      d.sorted = d.arranged order ∧ Order.Respects (DependsOn d) d.entries.length order :=
  ⟨d.sorted_rearranges, Order.order d, Order.order_perm d, d.sorted_eq_arranged,
    Order.order_respects d⟩

/-- A cycle goes to the end, also when it is seen first. -/
example :
    let message (name mentioned : String) : Message :=
      { name, fqn := name, fields := [{ name := "f", type := .named mentioned none }] }
    (Definitions.sorted { messages := [message "A" "B", message "B" "A", message "C" "D",
      message "D" "base.E"] }).messages.map Message.name = ["D", "C", "A", "B"] := by
  decide +kernel

end Definitions

end RestThrift
