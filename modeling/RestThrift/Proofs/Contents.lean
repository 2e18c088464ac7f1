import Mathlib
import RestThrift.Proofs.Origins

/-!
# Contents of compositions

A schema is composed of all that is reached from it by references and by parts of compositions. The
expansion comes upon each of these, although it goes no way twice, and upon nothing else. So a
composed object lacks properties only if all that it is composed of does.
-/
namespace RestThrift.Convert

variable {g : Glossary} {path : List String} {s t part target object merged : Api.Schema}
  {key reference : String} {schemas leaves : List Api.Schema} {stops : List Stop}

/-! ## What a schema is composed of -/

/-- A step of an expansion within that of the keys in a path: from a reference to its target, unless
its key is in the path, and from any other schema to its parts. -/
inductive Glossary.Enters (g : Glossary) (path : List String) : Api.Schema → Api.Schema → Prop
  | target {s target : Api.Schema} {reference : String} (hreference : s.reference = some reference)
      (hpath : definitionKey reference ∉ path) (htarget : g.resolve? reference = some target) :
      Enters g path s target
  | part {s part : Api.Schema} (hreference : s.reference = none) (hpart : part ∈ s.parts) :
      Enters g path s part

/-- What the schema is composed of: all that is reached from it and is no reference. -/
def Glossary.ComposedOf (g : Glossary) (s part : Api.Schema) : Prop :=
  part.reference = none ∧ Relation.ReflTransGen (g.Enters []) s part

theorem Glossary.composedOf_self (g : Glossary) (h : s.reference = none) : g.ComposedOf s s :=
  ⟨h, .refl⟩

theorem Glossary.Enters.of_reference (h : g.Enters path s t) (hs : s.reference = some reference) :
    definitionKey reference ∉ path ∧ g.resolve? reference = some t := by
  cases h with
  | target hreference hpath htarget =>
    obtain rfl := Option.some.inj (hs.symm.trans hreference)
    exact ⟨hpath, htarget⟩
  | part hreference _ => cases hs.symm.trans hreference

theorem Glossary.Enters.of_parts (h : g.Enters path s t) (hs : s.reference = none) :
    t ∈ s.parts := by
  cases h with
  | target hreference _ _ => cases hs.symm.trans hreference
  | part _ hpart => exact hpart

/-- A way that goes by the target of a key needs not come back to the key: what is behind the last
time is reached from the target. -/
theorem enters_or_restarts (hkey : g.schemas.get? key = some target)
    (h : Relation.ReflTransGen (g.Enters path) s t) :
    Relation.ReflTransGen (g.Enters (key :: path)) s t ∨
      Relation.ReflTransGen (g.Enters (key :: path)) target t := by
  induction h using Relation.ReflTransGen.head_induction_on with
  | refl => exact .inl .refl
  | @head s next hstep _ ih =>
    rcases ih with hrest | hrest
    · cases hstep with
      | @target reference hreference hpath hnext =>
        by_cases hsame : definitionKey reference = key
        · have heq : some next = some target := by
            rw [← hnext, Glossary.resolve?, hsame, hkey]
          obtain rfl := Option.some.inj heq
          exact .inr hrest
        · have hnew : definitionKey reference ∉ key :: path := by simp [hsame, hpath]
          exact .inl (.head (.target hreference hnew hnext) hrest)
      | part hreference hpart => exact .inl (.head (.part hreference hpart) hrest)
    · exact .inr hrest

/-! ## Expansions are complete -/

/-- A reference that is not followed leads to nothing. -/
theorem not_reaches_of_stuck (hs : s.reference = some reference) (ht : t.reference = none)
    (hstuck : ∀ target, ¬ g.Enters path s target) :
    ¬ Relation.ReflTransGen (g.Enters path) s t := by
  intro h
  rcases Relation.ReflTransGen.cases_head h with rfl | ⟨target, hstep, -⟩
  · cases hs.symm.trans ht
  · exact hstuck target hstep

/-- The expansion comes upon all that is reached without the keys of the path. -/
theorem Glossary.Expands.mem_leaves (h : g.Expands path schemas stops) (hs : s ∈ schemas)
    (hsteps : Relation.ReflTransGen (g.Enters path) s t) (ht : t.reference = none) :
    t ∈ leavesOf stops := by
  induction h generalizing s with
  | nil => exact absurd hs List.not_mem_nil
  | again hreference hpath _ ih =>
    rcases List.mem_cons.mp hs with rfl | hs
    · exact absurd hsteps (not_reaches_of_stuck hreference ht fun _ hstep =>
        (hstep.of_reference hreference).1 hpath)
    · exact ih hs hsteps
  | dangling hreference _ hmissing _ ih =>
    rcases List.mem_cons.mp hs with rfl | hs
    · refine absurd hsteps (not_reaches_of_stuck hreference ht fun target hstep => ?_)
      cases hmissing.symm.trans (hstep.of_reference hreference).2
    · exact ih hs hsteps
  | target hreference _ htarget _ _ ihinner ihrest =>
    rw [leavesOf, List.filterMap_append]
    rcases List.mem_cons.mp hs with rfl | hs
    · refine List.mem_append_left _ ?_
      rcases Relation.ReflTransGen.cases_head hsteps with rfl | ⟨next, hstep, hrest⟩
      · cases hreference.symm.trans ht
      · obtain rfl := Option.some.inj (htarget.symm.trans (hstep.of_reference hreference).2)
        exact ihinner (List.mem_singleton_self _) ((enters_or_restarts htarget hrest).elim id id)
    · exact List.mem_append_right _ (ihrest hs hsteps)
  | composed hreference _ _ ihinner ihrest =>
    rw [leavesOf, List.filterMap_append]
    rcases List.mem_cons.mp hs with rfl | hs
    · rcases Relation.ReflTransGen.cases_head hsteps with rfl | ⟨next, hstep, hrest⟩
      · exact List.mem_append_right _ List.mem_cons_self
      · exact List.mem_append_left _ (ihinner (hstep.of_parts hreference) hrest)
    · exact List.mem_append_right _ (List.mem_cons_of_mem _ (ihrest hs hsteps))

/-- The leaves of a schema's expansion are what the schema is composed of. -/
theorem Glossary.Expands.mem_leaves_iff (h : g.Expands [] [s] stops) :
    part ∈ leavesOf stops ↔ g.ComposedOf s part := by
  constructor
  · refine h.forall_leaves (P := Relation.ReflTransGen (g.Enters []) s) ?_ ?_ ?_ part
    · exact fun t part hreference hpart ht => ht.tail (.part hreference hpart)
    · rintro t target ⟨reference, hreference, htarget⟩ ht
      exact ht.tail (.target hreference List.not_mem_nil htarget)
    · exact List.forall_mem_singleton.mpr .refl
  · exact fun ⟨hreference, hsteps⟩ => h.mem_leaves (List.mem_singleton_self s) hsteps hreference

/-! ## Merged contents -/

/-- A merge has no properties only if no leaf has any. -/
theorem MergeOf.properties_eq_nil_iff (h : MergeOf leaves merged) :
    merged.properties = [] ↔ ∀ leaf ∈ leaves, leaf.properties = [] := by
  constructor
  · intro hnil leaf hleaf
    refine List.eq_nil_iff_forall_not_mem.mpr fun entry hentry => ?_
    have hnone := h.property entry.1
    rw [hnil, eq_comm] at hnone
    have hlookup := List.findSome?_eq_none_iff.mp hnone leaf (List.mem_reverse.mpr hleaf)
    have hne := List.lookup_eq_none_iff.mp hlookup entry (List.mem_reverse.mpr hentry)
    simp at hne
  · intro hnil
    refine List.eq_nil_iff_forall_not_mem.mpr fun entry hentry => ?_
    have hfound := h.property entry.1
    rw [Table.get?_of_mem h.sorted.nodup hentry, eq_comm, List.findSome?_eq_some_iff] at hfound
    obtain ⟨_, leaf, _, hleaves, hlookup, -⟩ := hfound
    have hleaf : leaf ∈ leaves := List.mem_reverse.mp (hleaves ▸ by simp)
    simp [hnil leaf hleaf] at hlookup

/-- A composed object has no properties only if nothing that it is composed of has any. -/
theorem effectiveObject_properties_eq_nil_iff (h : g.effectiveObject s = .ok object) :
    object.properties = [] ↔ ∀ part, g.ComposedOf s part → part.properties = [] := by
  obtain ⟨stops, hexpands, rfl⟩ := effectiveObject_eq_ok h
  simp only [← hexpands.mem_leaves_iff]
  exact (mergeOf_foldl _).properties_eq_nil_iff

end RestThrift.Convert
