import Mathlib
import RestThrift.Proofs.Build
import RestThrift.Proofs.Table

/-!
# Merged compositions

The expansion of a composition is told by rules that do not mention the bound on its depth. It
exists and is unique for every table, also where schemas are composed of each other in a circle.
Flattening fails on the first reference in it that has no target, if the policy is strict, and else
merges its leaves; how these are nested makes no difference.
-/
namespace RestThrift.Convert

/-! ## Expansions -/

/-- What the expansion of a composition comes upon. -/
inductive Stop
  | leaf (schema : Api.Schema)
  | dangling (reference : String)

def Stop.leaf? : Stop → Option Api.Schema
  | .leaf schema => some schema
  | .dangling _ => none

def Stop.dangling? : Stop → Option String
  | .leaf _ => none
  | .dangling reference => some reference

/-- The leaves of an expansion, in its order. -/
def leavesOf (stops : List Stop) : List Api.Schema := stops.filterMap Stop.leaf?

/-- The references without a target in an expansion, in its order. -/
def danglingOf (stops : List Stop) : List String := stops.filterMap Stop.dangling?

/-- The depth-first expansion of schemas within that of the keys in a path: a reference stands for
the expansion of its target, and for nothing where its key is in the path; any other schema stands
for the expansion of its parts and then for itself. -/
inductive Glossary.Expands (g : Glossary) : List String → List Api.Schema → List Stop → Prop
  | nil {path : List String} : Expands g path [] []
  | again {path : List String} {s : Api.Schema} {reference : String} {rest : List Api.Schema}
      {stops : List Stop} (hreference : s.reference = some reference)
      (hpath : definitionKey reference ∈ path) (hrest : Expands g path rest stops) :
      Expands g path (s :: rest) stops
  | dangling {path : List String} {s : Api.Schema} {reference : String} {rest : List Api.Schema}
      {stops : List Stop} (hreference : s.reference = some reference)
      (hpath : definitionKey reference ∉ path) (htarget : g.resolve? reference = none)
      (hrest : Expands g path rest stops) :
      Expands g path (s :: rest) (.dangling reference :: stops)
  | target {path : List String} {s target : Api.Schema} {reference : String}
      {rest : List Api.Schema} {inner stops : List Stop}
      (hreference : s.reference = some reference) (hpath : definitionKey reference ∉ path)
      (htarget : g.resolve? reference = some target)
      (hinner : Expands g (definitionKey reference :: path) [target] inner)
      (hrest : Expands g path rest stops) : Expands g path (s :: rest) (inner ++ stops)
  | composed {path : List String} {s : Api.Schema} {rest : List Api.Schema}
      {inner stops : List Stop} (hreference : s.reference = none)
      (hinner : Expands g path s.parts inner) (hrest : Expands g path rest stops) :
      Expands g path (s :: rest) (inner ++ .leaf s :: stops)

variable {g : Glossary} {path : List String} {s : Api.Schema} {schemas rest : List Api.Schema}
  {stops others : List Stop} {reference : String}

/-- There is one expansion at most. -/
theorem Glossary.Expands.unique (h : g.Expands path schemas stops)
    (h' : g.Expands path schemas others) : stops = others := by
  induction h generalizing others with
  | nil =>
    cases h'
    rfl
  | again hreference hpath _ ih => cases h' <;> grind
  | dangling hreference hpath htarget _ ih => cases h' <;> grind
  | target hreference hpath htarget _ _ ih ih' => cases h' <;> grind
  | composed hreference _ _ ih ih' => cases h' <;> grind

/-- A schema refers to another one of the table. -/
def Glossary.Targets (g : Glossary) (s target : Api.Schema) : Prop :=
  ∃ reference, s.reference = some reference ∧ g.resolve? reference = some target

/-- What parts and targets keep holds of the leaves, none of which refers to anything. -/
theorem Glossary.Expands.forall_leaves {P : Api.Schema → Prop}
    (hpart : ∀ s part, s.reference = none → part ∈ s.parts → P s → P part)
    (htarget : ∀ s target, g.Targets s target → P s → P target)
    (h : g.Expands path schemas stops) (hs : ∀ s ∈ schemas, P s) :
    ∀ leaf ∈ leavesOf stops, leaf.reference = none ∧ P leaf := by
  induction h with
  | nil => exact fun _ h => absurd h List.not_mem_nil
  | again _ _ _ ih => exact ih (List.forall_mem_cons.mp hs).2
  | dangling _ _ _ _ ih => exact ih (List.forall_mem_cons.mp hs).2
  | target hreference _ hresolve _ _ ihinner ihrest =>
    obtain ⟨hfirst, hrest⟩ := List.forall_mem_cons.mp hs
    rw [leavesOf, List.filterMap_append]
    refine List.forall_mem_append.mpr ⟨ihinner ?_, ihrest hrest⟩
    exact List.forall_mem_singleton.mpr (htarget _ _ ⟨_, hreference, hresolve⟩ hfirst)
  | composed hreference _ _ ihinner ihrest =>
    obtain ⟨hfirst, hrest⟩ := List.forall_mem_cons.mp hs
    rw [leavesOf, List.filterMap_append]
    refine List.forall_mem_append.mpr
      ⟨ihinner fun part hmem => hpart _ part hreference hmem hfirst, ?_⟩
    exact List.forall_mem_cons.mpr ⟨⟨hreference, hfirst⟩, ihrest hrest⟩

theorem expands_append {before after : List Api.Schema} :
    g.Expands path (before ++ after) stops ↔ ∃ first second, stops = first ++ second ∧
      g.Expands path before first ∧ g.Expands path after second := by
  constructor
  · intro h
    induction before generalizing stops with
    | nil => exact ⟨[], stops, rfl, .nil, h⟩
    | cons s before ih =>
      rw [List.cons_append] at h
      cases h with
      | again hreference hpath hrest =>
        obtain ⟨first, second, rfl, hfirst, hsecond⟩ := ih hrest
        exact ⟨first, second, rfl, .again hreference hpath hfirst, hsecond⟩
      | dangling hreference hpath htarget hrest =>
        obtain ⟨first, second, rfl, hfirst, hsecond⟩ := ih hrest
        exact ⟨_, second, rfl, .dangling hreference hpath htarget hfirst, hsecond⟩
      | target hreference hpath htarget hinner hrest =>
        obtain ⟨first, second, rfl, hfirst, hsecond⟩ := ih hrest
        exact ⟨_, second, (List.append_assoc _ _ _).symm,
          .target hreference hpath htarget hinner hfirst, hsecond⟩
      | composed hreference hinner hrest =>
        obtain ⟨first, second, rfl, hfirst, hsecond⟩ := ih hrest
        exact ⟨_, second, by simp, .composed hreference hinner hfirst, hsecond⟩
  · rintro ⟨first, second, rfl, hfirst, hsecond⟩
    induction hfirst with
    | nil => exact hsecond
    | again hreference hpath _ ih => exact .again hreference hpath (ih hsecond)
    | dangling hreference hpath htarget _ ih =>
      exact .dangling hreference hpath htarget (ih hsecond)
    | target hreference hpath htarget hinner _ _ ih =>
      rw [List.append_assoc]
      exact .target hreference hpath htarget hinner (ih hsecond)
    | composed hreference hinner _ _ ih =>
      rw [List.append_assoc]
      exact .composed hreference hinner (ih hsecond)

/-! ## Expansions that are computed -/

/-- The leaves of an expansion; under the strict policy it fails on its first reference without a
target. -/
def Glossary.gather (g : Glossary) (stops : List Stop) :
    Except ConversionError (List Api.Schema) :=
  match g.policy, danglingOf stops with
  | .strict, reference :: _ => .error (.danglingReference reference)
  | _, _ => .ok (leavesOf stops)

theorem gather_nil : g.gather [] = .ok [] := by
  rw [Glossary.gather]
  cases g.policy <;> rfl

theorem gather_append (first second : List Stop) : g.gather (first ++ second) = (do
    let leaves ← g.gather first
    let others ← g.gather second
    return leaves ++ others) := by
  simp only [Glossary.gather, danglingOf, leavesOf, List.filterMap_append]
  cases g.policy with
  | lenient => rfl
  | strict =>
    cases first.filterMap Stop.dangling? with
    | cons reference _ => rfl
    | nil => cases second.filterMap Stop.dangling? <;> rfl

theorem gather_append_leaf (inner : List Stop) (s : Api.Schema) :
    g.gather (inner ++ [.leaf s]) = (do
      let leaves ← g.gather inner
      return leaves ++ [s]) := by
  have hleaf : g.gather [.leaf s] = .ok [s] := by
    rw [Glossary.gather]
    cases g.policy <;> rfl
  rw [gather_append, hleaf]
  rfl

/-- What is followed for a reference is gathered from an expansion. -/
def Gathers (g : Glossary) (path : List String)
    (follow : String → Except ConversionError (List Api.Schema)) : Prop :=
  ∀ reference, ∃ stops, follow reference = g.gather stops ∧
    ∀ s : Api.Schema, s.reference = some reference → g.Expands path [s] stops

section Follow

variable {follow : String → Except ConversionError (List Api.Schema)}

mutual
theorem leavesWith_gathers (hfollow : Gathers g path follow) (s : Api.Schema) :
    ∃ stops, g.Expands path [s] stops ∧ Glossary.leavesWith follow s = g.gather stops := by
  match s with
  | { reference := some reference, .. } =>
    obtain ⟨stops, hgather, hexpands⟩ := hfollow reference
    exact ⟨stops, hexpands _ rfl, hgather⟩
  | { reference := none, parts, .. } =>
    obtain ⟨inner, hinner, hgather⟩ := leavesOfParts_gathers hfollow parts
    refine ⟨inner ++ [.leaf _], .composed rfl hinner .nil, ?_⟩
    rw [Glossary.leavesWith, hgather, gather_append_leaf]

theorem leavesOfParts_gathers (hfollow : Gathers g path follow) (parts : List Api.Schema) :
    ∃ stops, g.Expands path parts stops ∧ Glossary.leavesOfParts follow parts = g.gather stops := by
  match parts with
  | [] => exact ⟨[], .nil, gather_nil.symm⟩
  | part :: rest =>
    obtain ⟨first, hfirst, hleaves⟩ := leavesWith_gathers hfollow part
    obtain ⟨second, hsecond, hothers⟩ := leavesOfParts_gathers hfollow rest
    refine ⟨first ++ second, expands_append.mpr ⟨first, second, rfl, hfirst, hsecond⟩, ?_⟩
    rw [Glossary.leavesOfParts, hleaves, hothers, gather_append]
end

end Follow

/-- The bound on the nesting is never reached: the keys of a path are different ones of the
table. -/
theorem leaves_gathers {nesting : Nat} (hnodup : path.Nodup)
    (hkeys : ∀ key ∈ path, key ∈ g.schemas.keys)
    (hnesting : nesting + path.length = g.schemas.length + 1) (s : Api.Schema) :
    ∃ stops, g.Expands path [s] stops ∧ g.leaves nesting path s = g.gather stops := by
  induction nesting generalizing path s with
  | zero =>
    have hle : path.length ≤ g.schemas.keys.length :=
      (List.subperm_of_subset hnodup hkeys).length_le
    rw [Table.keys, List.length_map] at hle
    omega
  | succ nesting ih =>
    refine leavesWith_gathers (fun reference => ?_) s
    by_cases hpath : definitionKey reference ∈ path
    · refine ⟨[], ?_, fun s hreference => .again hreference hpath .nil⟩
      simp only [List.contains_eq_mem, hpath, decide_true, if_true, gather_nil]
      rfl
    · cases htarget : g.resolve? reference with
      | none =>
        refine ⟨[.dangling reference], ?_, fun s hreference =>
          .dangling hreference hpath htarget .nil⟩
        simp only [Glossary.target, htarget, List.contains_eq_mem, hpath, Glossary.gather]
        cases g.policy <;> rfl
      | some target =>
        have hkey : definitionKey reference ∈ g.schemas.keys := Table.mem_keys_of_get? htarget
        obtain ⟨stops, hinner, hleaves⟩ := ih (List.nodup_cons.mpr ⟨hpath, hnodup⟩)
          (List.forall_mem_cons.mpr ⟨hkey, hkeys⟩) (by simp only [List.length_cons]; omega) target
        refine ⟨stops, ?_, fun s hreference => ?_⟩
        · simp only [Glossary.target, htarget, List.contains_eq_mem, hpath]
          exact hleaves
        · have h := Glossary.Expands.target hreference hpath htarget hinner .nil
          rwa [List.append_nil] at h

/-- Flattening gathers the one expansion of the schemas and merges it. -/
theorem flatten_gathers (g : Glossary) (schemas : List Api.Schema) :
    ∃ stops, g.Expands [] schemas stops ∧
      g.flatten schemas =
        (g.gather stops).map fun leaves => leaves.foldl Glossary.mergeLeaf {} := by
  have hparts : ∃ stops, g.Expands [] schemas stops ∧
      (schemas.mapM (g.leaves (g.schemas.length + 1) [])).map List.flatten = g.gather stops := by
    induction schemas with
    | nil => exact ⟨[], .nil, gather_nil.symm⟩
    | cons s rest ih =>
      obtain ⟨first, hfirst, hleaves⟩ :=
        leaves_gathers List.nodup_nil (fun _ h => absurd h List.not_mem_nil) rfl s
      obtain ⟨second, hsecond, hothers⟩ := ih
      have hboth : g.Expands [] ([s] ++ rest) (first ++ second) :=
        expands_append.mpr ⟨first, second, rfl, hfirst, hsecond⟩
      refine ⟨first ++ second, hboth, ?_⟩
      rw [gather_append, ← hleaves, ← hothers, List.mapM_cons]
      cases g.leaves (g.schemas.length + 1) [] s with
      | error e => rfl
      | ok leaves => cases rest.mapM (g.leaves (g.schemas.length + 1) []) <;> rfl
  obtain ⟨stops, hexpands, hgather⟩ := hparts
  refine ⟨stops, hexpands, ?_⟩
  rw [← hgather, Glossary.flatten]
  cases schemas.mapM (g.leaves (g.schemas.length + 1) []) <;> rfl

/-! ## Merged leaves -/

/-- The content of leaves as one object: the schema of a property is that of the last leaf that has
the property, required names stand where they are seen first, and the first description that is not
empty is kept. -/
structure MergeOf (leaves : List Api.Schema) (merged : Api.Schema) : Prop where
  sorted : Table.Sorted merged.properties
  property : ∀ name, Table.get? name merged.properties =
    leaves.reverse.findSome? fun leaf => leaf.properties.reverse.lookup name
  required : merged.required = (leaves.flatMap Api.Schema.required).eraseDups
  description : merged.description =
    (leaves.filterMap Api.Schema.description).find? fun text => !text.isEmpty
  rest : merged = { properties := merged.properties, required := merged.required
                    description := merged.description }

/-- Leaves have one merge. -/
theorem MergeOf.unique {leaves : List Api.Schema} {merged other : Api.Schema}
    (h : MergeOf leaves merged) (h' : MergeOf leaves other) : merged = other := by
  have hproperties : merged.properties = other.properties :=
    h.sorted.eq_of_get? h'.sorted fun name => (h.property name).trans (h'.property name).symm
  rw [h.rest, h'.rest, hproperties, h.required, h'.required, h.description, h'.description]

section Merge

variable {α : Type} {leaves : List Api.Schema} {object : Api.Schema} {name : String}

/-- Names are appended unless they are there. -/
def appendNew (names added : List String) : List String :=
  added.foldl (fun names name => if names.contains name then names else names ++ [name]) names

theorem appendNew_eq (names added : List String) :
    appendNew names added = names ++ (added.filter fun name => name ∉ names).eraseDups := by
  induction added generalizing names with
  | nil => simp [appendNew]
  | cons name rest ih =>
    have hstep : appendNew names (name :: rest) =
        appendNew (if names.contains name then names else names ++ [name]) rest := rfl
    by_cases hname : name ∈ names
    · simp [hstep, hname, ih]
    · rw [hstep, if_neg (by simpa using hname), ih, List.filter_cons_of_pos (by simpa using hname),
        List.eraseDups_cons, List.filter_filter, List.append_assoc, List.singleton_append]
      congr 3
      refine List.filter_congr fun other _ => ?_
      by_cases hother : other = name <;> simp [hother]

theorem appendNew_append (names first second : List String) :
    appendNew names (first ++ second) = appendNew (appendNew names first) second :=
  List.foldl_append

theorem map_find?_fst (entries : List (String × α)) (name : String) :
    (entries.find? fun entry => entry.1 = name).map Prod.snd = entries.lookup name := by
  induction entries with
  | nil => rfl
  | cons entry rest ih =>
    obtain ⟨key, a⟩ := entry
    by_cases hname : key = name
    · simp [hname]
    · have hne : (name == key) = false := by simpa using Ne.symm hname
      simp [List.lookup_cons, hname, hne, ih]

theorem properties_foldl_mergeLeaf :
    Table.get? name (leaves.foldl Glossary.mergeLeaf object).properties =
      (leaves.reverse.findSome? fun leaf => leaf.properties.reverse.lookup name).or
        (Table.get? name object.properties) := by
  induction leaves generalizing object with
  | nil => rfl
  | cons leaf rest ih =>
    have hleaf : (Glossary.mergeLeaf object leaf).properties =
        Table.insertAll leaf.properties object.properties := rfl
    have hlast : (((leaf.properties.filter fun entry => entry.1 = name).getLast?).map Prod.snd) =
        leaf.properties.reverse.lookup name := by
      rw [List.getLast?_eq_head?_reverse, ← List.filter_reverse, List.head?_filter, map_find?_fst]
    rw [List.foldl_cons, ih, hleaf, Table.get?_insertAll, hlast, List.reverse_cons,
      List.findSome?_append, List.findSome?_singleton, Option.or_assoc]

theorem required_foldl_mergeLeaf : (leaves.foldl Glossary.mergeLeaf object).required =
    appendNew object.required (leaves.flatMap Api.Schema.required) := by
  induction leaves generalizing object with
  | nil => rfl
  | cons leaf rest ih =>
    rw [List.foldl_cons, ih, List.flatMap_cons, appendNew_append]
    rfl

/-- The own description of a leaf counts where there is none so far. -/
theorem description_mergeLeaf (h : object.description ≠ some "") (leaf : Api.Schema) :
    (Glossary.mergeLeaf object leaf).description =
      object.description.or (leaf.description.filter fun text => !text.isEmpty) := by
  simp only [Glossary.mergeLeaf]
  cases hobject : object.description with
  | none =>
    cases leaf.description.filter fun text => !text.isEmpty <;> rfl
  | some text =>
    have hfull : text.isEmpty = false := by
      rw [hobject] at h
      simpa using h
    simp [hfull]

/-- A description that is kept is not empty. -/
theorem description_foldl_mergeLeaf (h : object.description ≠ some "") :
    (leaves.foldl Glossary.mergeLeaf object).description = object.description.or
      ((leaves.filterMap Api.Schema.description).find? fun text => !text.isEmpty) := by
  induction leaves generalizing object with
  | nil => simp
  | cons leaf rest ih =>
    have hleaf := description_mergeLeaf h leaf
    have hkept : (Glossary.mergeLeaf object leaf).description ≠ some "" := by
      rw [hleaf]
      cases hobject : object.description with
      | none => simp [Option.filter_eq_some_iff]
      | some text => rwa [hobject] at h
    rw [List.foldl_cons, ih hkept, hleaf, Option.or_assoc]
    congr 1
    cases hdescription : leaf.description with
    | none => simp [hdescription]
    | some text => cases hempty : text.isEmpty <;> simp [hdescription, hempty, Option.filter]

theorem rest_foldl_mergeLeaf : leaves.foldl Glossary.mergeLeaf object =
    { object with
      properties := (leaves.foldl Glossary.mergeLeaf object).properties
      required := (leaves.foldl Glossary.mergeLeaf object).required
      description := (leaves.foldl Glossary.mergeLeaf object).description } := by
  induction leaves generalizing object with
  | nil => cases object; rfl
  | cons leaf rest ih =>
    rw [List.foldl_cons, ih]
    rfl

theorem eraseDups_idem (names : List String) : names.eraseDups.eraseDups = names.eraseDups := by
  induction names using List.reverseRecOn with
  | nil => rfl
  | append_singleton names name ih =>
    rw [List.eraseDups_append]
    by_cases hname : name ∈ names
    · simpa [List.removeAll, hname] using ih
    · have hlast : [name].removeAll names = [name] := by simp [List.removeAll, hname]
      have hlast' : [name].removeAll names.eraseDups = [name] := by simp [List.removeAll, hname]
      have hname' : [name].eraseDups = [name] := rfl
      rw [hlast, hname', List.eraseDups_append, ih, hlast', hname']

theorem sorted_foldl_mergeLeaf (h : Table.Sorted object.properties) :
    Table.Sorted (leaves.foldl Glossary.mergeLeaf object).properties := by
  induction leaves generalizing object with
  | nil => exact h
  | cons leaf rest ih => exact ih (h.insertAll leaf.properties)

/-- Merging makes up no property. -/
theorem mem_properties_foldl_mergeLeaf {entry : String × Api.Schema}
    (h : entry ∈ (leaves.foldl Glossary.mergeLeaf object).properties) :
    (∃ leaf ∈ leaves, entry ∈ leaf.properties) ∨ entry ∈ object.properties := by
  induction leaves generalizing object with
  | nil => exact .inr h
  | cons leaf rest ih =>
    rcases ih h with ⟨other, hother, hentry⟩ | hentry
    · exact .inl ⟨other, List.mem_cons_of_mem _ hother, hentry⟩
    · rcases Table.mem_of_mem_insertAll hentry with hentry | hentry
      · exact .inl ⟨leaf, List.mem_cons_self, hentry⟩
      · exact .inr hentry

/-- Merging leaves into the empty schema gives their merge. -/
theorem mergeOf_foldl (leaves : List Api.Schema) :
    MergeOf leaves (leaves.foldl Glossary.mergeLeaf {}) where
  sorted := sorted_foldl_mergeLeaf Table.sorted_nil
  property name := by
    rw [properties_foldl_mergeLeaf]
    exact Option.or_none
  required := by
    rw [required_foldl_mergeLeaf, appendNew_eq]
    simp
  description := by
    rw [description_foldl_mergeLeaf (by simp)]
    exact Option.none_or
  rest := rest_foldl_mergeLeaf

/-- A merge is the merge of itself. -/
theorem MergeOf.self {merged : Api.Schema} (h : MergeOf leaves merged) :
    MergeOf [merged] merged where
  sorted := h.sorted
  property name := by
    rw [List.reverse_singleton, List.findSome?_singleton, Table.lookup_reverse h.sorted.nodup]
  required := by
    rw [List.flatMap_singleton, h.required, eraseDups_idem]
  description := by
    cases hdescription : merged.description with
    | none => simp [hdescription]
    | some text =>
      have hfound := h.description.symm.trans hdescription
      have hfull := List.find?_some hfound
      simpa [hdescription] using hfull
  rest := h.rest

end Merge

/-! ## Nesting -/

/-- The second list is the first one with a run of members, in the list or in the parts of a member
at any depth, put into one more composition. -/
inductive Nests : List Api.Schema → List Api.Schema → Prop
  | wrap (before run after : List Api.Schema) :
      Nests (before ++ run ++ after) (before ++ { parts := run } :: after)
  | within (before : List Api.Schema) {s : Api.Schema} {parts : List Api.Schema}
      (after : List Api.Schema) (h : Nests s.parts parts) :
      Nests (before ++ s :: after) (before ++ { s with parts } :: after)

/-- Expansions with the same references without a target, and with leaves that come to the same. -/
structure SameContent (stops others : List Stop) : Prop where
  dangling : danglingOf others = danglingOf stops
  merged : ∀ object : Api.Schema, (leavesOf others).foldl Glossary.mergeLeaf object =
    (leavesOf stops).foldl Glossary.mergeLeaf object

theorem SameContent.refl (stops : List Stop) : SameContent stops stops := ⟨rfl, fun _ => rfl⟩

theorem SameContent.append {first second first' second' : List Stop} (h : SameContent first first')
    (h' : SameContent second second') : SameContent (first ++ second) (first' ++ second') where
  dangling := by
    have hdangling := h.dangling
    have hdangling' := h'.dangling
    simp only [danglingOf] at hdangling hdangling'
    simp only [danglingOf, List.filterMap_append, hdangling, hdangling']
  merged object := by
    have hmerged := h.merged
    have hmerged' := h'.merged
    simp only [leavesOf] at hmerged hmerged'
    simp only [leavesOf, List.filterMap_append, List.foldl_append, hmerged, hmerged']

/-- A composition without content of its own adds nothing to its parts. -/
theorem mergeLeaf_parts (object : Api.Schema) (parts : List Api.Schema) :
    Glossary.mergeLeaf object { parts } = object := by
  simp only [Glossary.mergeLeaf, List.foldl_nil, Option.filter_none, ite_self]
  cases object
  rfl

theorem Nests.expands {nested : List Api.Schema} (h : Nests schemas nested) :
    g.Expands path schemas stops → ∃ others, g.Expands path nested others ∧
      SameContent stops others := by
  intro hexpands
  induction h generalizing stops with
  | wrap before run after =>
    obtain ⟨_, last, rfl, hrest, hlast⟩ := expands_append.mp hexpands
    obtain ⟨first, inner, rfl, hfirst, hinner⟩ := expands_append.mp hrest
    have hwrapped : g.Expands path ({ parts := run } :: after)
        (inner ++ .leaf { parts := run } :: last) := .composed rfl hinner hlast
    refine ⟨_, expands_append.mpr ⟨first, _, rfl, hfirst, hwrapped⟩, ?_⟩
    rw [List.append_assoc]
    refine (SameContent.refl first).append ((SameContent.refl inner).append ?_)
    refine ⟨rfl, fun object => ?_⟩
    change (leavesOf last).foldl Glossary.mergeLeaf
      (Glossary.mergeLeaf object { parts := run }) = _
    rw [mergeLeaf_parts]
  | @within before s parts after hparts ih =>
    obtain ⟨first, _, rfl, hfirst, hmember⟩ := expands_append.mp hexpands
    suffices hothers : ∃ others, g.Expands path ({ s with parts } :: after) others ∧
        SameContent _ others by
      obtain ⟨others, hothers, hsame⟩ := hothers
      exact ⟨_, expands_append.mpr ⟨first, others, rfl, hfirst, hothers⟩,
        (SameContent.refl first).append hsame⟩
    -- Only a member that is no reference looks at its parts.
    cases hmember with
    | again hreference hpath hrest => exact ⟨_, .again hreference hpath hrest, .refl _⟩
    | dangling hreference hpath htarget hrest =>
      exact ⟨_, .dangling hreference hpath htarget hrest, .refl _⟩
    | target hreference hpath htarget hinner hrest =>
      exact ⟨_, .target hreference hpath htarget hinner hrest, .refl _⟩
    | composed hreference hinner hrest =>
      obtain ⟨others, hothers, hsame⟩ := ih hinner
      exact ⟨_, .composed hreference hothers hrest, hsame.append ⟨rfl, fun _ => rfl⟩⟩

/-- Nesting changes neither the failure nor the result. -/
theorem Nests.flatten_eq {nested : List Api.Schema} (h : Nests schemas nested) (g : Glossary) :
    g.flatten nested = g.flatten schemas := by
  obtain ⟨stops, hexpands, hflatten⟩ := flatten_gathers g schemas
  obtain ⟨others, hnested, hflatten'⟩ := flatten_gathers g nested
  obtain ⟨_, hothers, hsame⟩ := h.expands hexpands
  obtain rfl := hnested.unique hothers
  rw [hflatten, hflatten', Glossary.gather, Glossary.gather, hsame.dangling]
  split
  · rfl
  · exact congrArg Except.ok (hsame.merged {})

/-! ## Flattening -/

theorem gather_eq_error {error : ConversionError} : g.gather stops = .error error ↔
    g.policy = .strict ∧ ∃ reference, (danglingOf stops).head? = some reference ∧
      error = .danglingReference reference := by
  rw [Glossary.gather]
  cases g.policy with
  | lenient => simp
  | strict => cases danglingOf stops <;> simp [eq_comm]

theorem gather_eq_ok {leaves : List Api.Schema} : g.gather stops = .ok leaves ↔
    (g.policy = .strict → danglingOf stops = []) ∧ leavesOf stops = leaves := by
  rw [Glossary.gather]
  cases g.policy with
  | lenient => simp
  | strict => cases danglingOf stops <;> simp

/-- A merge is flat: whatever the table, flattening it gives it back. -/
theorem flatten_merge {leaves : List Api.Schema} {merged : Api.Schema} (h : MergeOf leaves merged)
    (g : Glossary) : g.flatten [merged] = .ok merged := by
  obtain ⟨stops, hexpands, hflatten⟩ := flatten_gathers g [merged]
  have hreference : merged.reference = none := by rw [h.rest]
  have hparts : g.Expands [] merged.parts [] := by
    rw [h.rest]
    exact .nil
  obtain rfl : stops = [.leaf merged] := hexpands.unique (.composed hreference hparts .nil)
  have hgather : g.gather [.leaf merged] = .ok [merged] := gather_eq_ok.mpr ⟨fun _ => rfl, rfl⟩
  rw [hflatten, hgather]
  exact congrArg Except.ok ((mergeOf_foldl [merged]).unique h.self)

/-- Every list of schemas has one expansion, whatever the table. Flattening fails just where the
policy is strict and a reference of the expansion has no target, and names the first one; else the
result is the merge of the leaves. A result is not changed by flattening it again, and no run of
members counts differently when it is put into one more composition. -/
theorem Glossary.flatten_merges_expansion (g : Glossary) (schemas : List Api.Schema) :
    (∃ stops, g.Expands [] schemas stops ∧
      (∀ others, g.Expands [] schemas others → others = stops) ∧
      (∀ error, g.flatten schemas = .error error ↔ g.policy = .strict ∧
        ∃ reference, (danglingOf stops).head? = some reference ∧
          error = .danglingReference reference) ∧
      ∀ merged, g.flatten schemas = .ok merged ↔
        (g.policy = .strict → danglingOf stops = []) ∧ MergeOf (leavesOf stops) merged) ∧
    (∀ merged, g.flatten schemas = .ok merged →
      ∀ other : Glossary, other.flatten [merged] = .ok merged) ∧
    ∀ nested, Nests schemas nested → g.flatten nested = g.flatten schemas := by
  obtain ⟨stops, hexpands, hflatten⟩ := flatten_gathers g schemas
  have hok : ∀ merged, g.flatten schemas = .ok merged ↔
      (g.policy = .strict → danglingOf stops = []) ∧ MergeOf (leavesOf stops) merged := by
    intro merged
    rw [hflatten, map_eq_ok]
    simp only [gather_eq_ok]
    constructor
    · rintro ⟨_, ⟨hdangling, rfl⟩, rfl⟩
      exact ⟨hdangling, mergeOf_foldl _⟩
    · rintro ⟨hdangling, hmerge⟩
      exact ⟨_, ⟨hdangling, rfl⟩, (mergeOf_foldl _).unique hmerge⟩
  refine ⟨⟨stops, hexpands, fun _ h => h.unique hexpands, fun error => ?_, hok⟩,
    fun merged h other => flatten_merge ((hok merged).mp h).2 other,
    fun nested h => h.flatten_eq g⟩
  rw [hflatten, ← gather_eq_error]
  cases g.gather stops <;> simp [Except.map]

/-- A schema that is composed of itself has its own properties only. -/
example : ((Glossary.flatten
    ⟨[("Loop", { parts := [{ reference := some "Loop" }], properties := [("next", {})] })], .strict⟩
    [{ reference := some "Loop" }]).toOption.map fun merged => Table.keys merged.properties) =
      some ["next"] := by
  decide +kernel

end RestThrift.Convert
