import Mathlib
import RestThrift.Convert.NamedSchema
import RestThrift.Proofs.Branches

/-!
# Termination of synthesis

From a schema there lead steps to the schemas inside of it, and from a composition to all that its
members refer to. Where no schema leads back to itself, types are found within the steps that the
plan allows, whatever circles the other references form: along the steps there are fewer and fewer
schemas left below, and an alias is replaced only where it is not being replaced already.
-/
namespace RestThrift

/-! ## Schemas inside of a schema -/

namespace Api

/-- A composition of more than one reference. -/
def Schema.Composes (s : Schema) : Prop := s.parts ≠ [] ∧ s.soleReference? = none

/-- With each schema, the list holds the schemas inside of it. -/
structure Enclosed (l : List Schema) : Prop where
  property : ∀ s ∈ l, ∀ entry ∈ s.properties, entry.2 ∈ l
  items : ∀ s ∈ l, ∀ inner, s.items = some inner → inner ∈ l
  value : ∀ s ∈ l, ∀ inner, s.valueSchema? = some inner → inner ∈ l
  part : ∀ s ∈ l, ∀ inner ∈ s.parts, inner ∈ l

variable {l l' : List Schema} {s : Schema}

theorem enclosed_nil : Enclosed [] := by
  constructor <;> exact fun _ h => absurd h List.not_mem_nil

theorem Enclosed.append (h : Enclosed l) (h' : Enclosed l') : Enclosed (l ++ l') where
  property s hs entry hentry := (List.mem_append.mp hs).elim
    (fun hs => List.mem_append_left _ (h.property s hs entry hentry))
    fun hs => List.mem_append_right _ (h'.property s hs entry hentry)
  items s hs inner hinner := (List.mem_append.mp hs).elim
    (fun hs => List.mem_append_left _ (h.items s hs inner hinner))
    fun hs => List.mem_append_right _ (h'.items s hs inner hinner)
  value s hs inner hinner := (List.mem_append.mp hs).elim
    (fun hs => List.mem_append_left _ (h.value s hs inner hinner))
    fun hs => List.mem_append_right _ (h'.value s hs inner hinner)
  part s hs inner hinner := (List.mem_append.mp hs).elim
    (fun hs => List.mem_append_left _ (h.part s hs inner hinner))
    fun hs => List.mem_append_right _ (h'.part s hs inner hinner)

/-- Together with all that is inside of it, a schema makes a list like this. -/
theorem Enclosed.cons (h : Enclosed l) (hproperty : ∀ entry ∈ s.properties, entry.2 ∈ l)
    (hitems : ∀ inner, s.items = some inner → inner ∈ l)
    (hvalue : ∀ inner, s.valueSchema? = some inner → inner ∈ l)
    (hpart : ∀ inner ∈ s.parts, inner ∈ l) : Enclosed (s :: l) where
  property := List.forall_mem_cons.mpr
    ⟨fun entry hentry => List.mem_cons_of_mem _ (hproperty entry hentry),
      fun s hs entry hentry => List.mem_cons_of_mem _ (h.property s hs entry hentry)⟩
  items := List.forall_mem_cons.mpr
    ⟨fun inner hinner => List.mem_cons_of_mem _ (hitems inner hinner),
      fun s hs inner hinner => List.mem_cons_of_mem _ (h.items s hs inner hinner)⟩
  value := List.forall_mem_cons.mpr
    ⟨fun inner hinner => List.mem_cons_of_mem _ (hvalue inner hinner),
      fun s hs inner hinner => List.mem_cons_of_mem _ (h.value s hs inner hinner)⟩
  part := List.forall_mem_cons.mpr
    ⟨fun inner hinner => List.mem_cons_of_mem _ (hpart inner hinner),
      fun s hs inner hinner => List.mem_cons_of_mem _ (h.part s hs inner hinner)⟩

mutual
/-- The size of a schema counts the schemas inside of it. -/
theorem exists_enclosed : ∀ s : Schema, ∃ l, s ∈ l ∧ l.length = s.size ∧ Enclosed l
  | { reference, typeNames, format, description, properties, required, items, choices, choiceNames,
      parts, additional, default } => by
    obtain ⟨ps, hps, hpslength, hpsclosed⟩ := exists_enclosed_properties properties
    obtain ⟨is, his, hislength, hisclosed⟩ := exists_enclosed_items items
    obtain ⟨ms, hms, hmslength, hmsclosed⟩ := exists_enclosed_parts parts
    obtain ⟨vs, hvs, hvslength, hvsclosed⟩ := exists_enclosed_additional additional
    refine ⟨_ :: (ps ++ is ++ ms ++ vs), List.mem_cons_self, ?_,
      (((hpsclosed.append hisclosed).append hmsclosed).append hvsclosed).cons ?_ ?_ ?_ ?_⟩
    · simp only [List.length_cons, List.length_append, Schema.size, hpslength, hislength,
        hmslength, hvslength]
    · intro entry hentry
      simp [hps entry hentry]
    · intro inner hinner
      simp [his inner hinner]
    · intro inner hinner
      simp [hvs inner hinner]
    · intro inner hinner
      simp [hms inner hinner]

theorem exists_enclosed_properties : ∀ properties : List (String × Schema),
    ∃ l, (∀ entry ∈ properties, entry.2 ∈ l) ∧ l.length = Schema.sizeProperties properties ∧
      Enclosed l
  | [] => ⟨[], fun _ h => absurd h List.not_mem_nil, rfl, enclosed_nil⟩
  | (_, s) :: rest => by
    obtain ⟨first, hs, hfirst, hclosed⟩ := exists_enclosed s
    obtain ⟨others, hrest, hothers, hclosed'⟩ := exists_enclosed_properties rest
    refine ⟨first ++ others, List.forall_mem_cons.mpr ⟨List.mem_append_left _ hs, fun entry h =>
      List.mem_append_right _ (hrest entry h)⟩, ?_, hclosed.append hclosed'⟩
    rw [List.length_append, hfirst, hothers, Schema.sizeProperties]

theorem exists_enclosed_items : ∀ items : Option Schema,
    ∃ l, (∀ inner, items = some inner → inner ∈ l) ∧ l.length = Schema.sizeItems items ∧ Enclosed l
  | none => ⟨[], fun _ h => (nomatch h), rfl, enclosed_nil⟩
  | some s => by
    obtain ⟨l, hs, hlength, hclosed⟩ := exists_enclosed s
    refine ⟨l, fun inner h => Option.some.inj h ▸ hs, ?_, hclosed⟩
    rw [hlength, Schema.sizeItems]

theorem exists_enclosed_parts : ∀ parts : List Schema,
    ∃ l, (∀ part ∈ parts, part ∈ l) ∧ l.length = Schema.sizeParts parts ∧ Enclosed l
  | [] => ⟨[], fun _ h => absurd h List.not_mem_nil, rfl, enclosed_nil⟩
  | s :: rest => by
    obtain ⟨first, hs, hfirst, hclosed⟩ := exists_enclosed s
    obtain ⟨others, hrest, hothers, hclosed'⟩ := exists_enclosed_parts rest
    refine ⟨first ++ others, List.forall_mem_cons.mpr ⟨List.mem_append_left _ hs, fun part h =>
      List.mem_append_right _ (hrest part h)⟩, ?_, hclosed.append hclosed'⟩
    rw [List.length_append, hfirst, hothers, Schema.sizeParts]

theorem exists_enclosed_additional : ∀ additional : Option (Additional Schema),
    ∃ l, (∀ inner, Schema.valueSchema? { additional } = some inner → inner ∈ l) ∧
      l.length = Schema.sizeAdditional additional ∧ Enclosed l
  | none => ⟨[], fun _ h => (nomatch h), rfl, enclosed_nil⟩
  | some .unspecified => ⟨[], fun _ h => (nomatch h), rfl, enclosed_nil⟩
  | some (.values s) => by
    obtain ⟨l, hs, hlength, hclosed⟩ := exists_enclosed s
    refine ⟨l, fun inner h => Option.some.inj h ▸ hs, ?_, hclosed⟩
    rw [hlength, Schema.sizeAdditional]
end

end Api

namespace Convert

open Api (Enclosed)

/-! ## Descent -/

/-- The members of a composition at any depth: its parts, the parts of members, and what members
refer to. -/
inductive Glossary.Member (g : Glossary) (s : Api.Schema) : Api.Schema → Prop
  | part {part : Api.Schema} (hpart : part ∈ s.parts) : Member g s part
  | nested {member part : Api.Schema} (h : Member g s member) (hpart : part ∈ member.parts) :
      Member g s part
  | target {member target : Api.Schema} (h : Member g s member)
      (htarget : g.Targets member target) :
      Member g s target

/-- A step from a schema to one inside of it, or from a composition to what a member refers to. -/
inductive Glossary.Descends (g : Glossary) : Api.Schema → Api.Schema → Prop
  | property {s : Api.Schema} {entry : String × Api.Schema} (hentry : entry ∈ s.properties) :
      Descends g s entry.2
  | items {s inner : Api.Schema} (hitems : s.items = some inner) : Descends g s inner
  | value {s inner : Api.Schema} (hvalue : s.valueSchema? = some inner) : Descends g s inner
  | part {s part : Api.Schema} (hpart : part ∈ s.parts) : Descends g s part
  | composed {s member target : Api.Schema} (hcomposes : s.Composes) (hmember : g.Member s member)
      (htarget : g.Targets member target) : Descends g s target

/-- No schema leads back to itself. -/
def Glossary.Acyclic (g : Glossary) : Prop := ∀ s, ¬ Relation.TransGen g.Descends s s

variable {g : Glossary} {plan : Plan} {l : List Api.Schema} {inlining inlining' : List String}
  {s target object : Api.Schema} {entry : String × Api.Schema} {file : String} {place : Place}

theorem Glossary.Member.descends (hcomposes : s.Composes) (h : g.Member s target) :
    Relation.TransGen g.Descends s target := by
  induction h with
  | part hpart => exact .single (.part hpart)
  | nested _ hpart ih => exact ih.tail (.part hpart)
  | target hmember htarget _ => exact .single (.composed hcomposes hmember htarget)

/-- A composition leads to the properties of the object that is merged for it. -/
theorem Glossary.descends_composed (hreference : s.reference = none) (hcomposes : s.Composes)
    (hobject : g.effectiveObject s = .ok object) (hentry : entry ∈ object.properties) :
    Relation.TransGen g.Descends s entry.2 := by
  let P (t : Api.Schema) : Prop := t = s ∨ g.Member s t
  have hpart : ∀ t part, t.reference = none → part ∈ t.parts → P t → P part := by
    rintro t part - hpart (rfl | ht)
    · exact .inr (.part hpart)
    · exact .inr (.nested ht hpart)
  have htarget : ∀ t target, g.Targets t target → P t → P target := by
    rintro t target htarget (rfl | ht)
    · exact absurd (.single htarget) (not_chain hreference)
    · exact .inr (.target ht htarget)
  obtain ⟨leaf, -, rfl | hleaf, hentry⟩ :=
    exists_leaf_of_effectiveObject hpart htarget hobject (.inl rfl) hentry
  · exact .single (.property hentry)
  · exact (hleaf.descends hcomposes).tail (.property hentry)

/-- What synthesis asks for lies below, but for the aliases that it replaces. -/
theorem Glossary.Needs.descends (h : g.Needs inlining s inlining' target) :
    (inlining' = inlining ∧ Relation.TransGen g.Descends s target) ∨
      ∃ key ∉ inlining, g.schemas.get? key = some target ∧ inlining' = key :: inlining := by
  cases h with
  | replaced _ htarget _ hnew => exact .inr ⟨_, hnew, htarget, rfl⟩
  | sole _ hsole => exact .inl ⟨rfl, .single (.part (soleReference?_mem hsole))⟩
  | composed hreference hparts hsole hobject hentry =>
    exact .inl ⟨rfl, g.descends_composed hreference ⟨hparts, hsole⟩ hobject hentry⟩
  | property _ hentry => exact .inl ⟨rfl, .single (.property hentry)⟩
  | items _ hitems => exact .inl ⟨rfl, .single (.items hitems)⟩
  | value _ hvalue => exact .inl ⟨rfl, .single (.value hvalue)⟩

/-- A step goes inside of the schema, or to a named schema. -/
theorem Glossary.Descends.inside_or_named (h : g.Descends s target) :
    sizeOf target < sizeOf s ∨ ∃ entry ∈ g.schemas, entry.2 = target := by
  cases h with
  | @property entry hentry =>
    have hlt := List.sizeOf_lt_of_mem hentry
    cases s
    cases entry
    simp only [Api.Schema.mk.sizeOf_spec, Prod.mk.sizeOf_spec] at hlt ⊢
    omega
  | items hitems =>
    cases s
    subst hitems
    simp only [Api.Schema.mk.sizeOf_spec, Option.some.sizeOf_spec]
    omega
  | value hvalue =>
    cases s
    rw [Api.Schema.valueSchema?] at hvalue
    split at hvalue
    · rename_i hadditional
      obtain rfl := Option.some.inj hvalue
      subst hadditional
      simp only [Api.Schema.mk.sizeOf_spec, Option.some.sizeOf_spec,
        Api.Additional.values.sizeOf_spec]
      omega
    · cases hvalue
  | part hpart =>
    have hlt := List.sizeOf_lt_of_mem hpart
    cases s
    simp only [Api.Schema.mk.sizeOf_spec] at hlt ⊢
    omega
  | composed _ _ htarget =>
    obtain ⟨_, -, htarget⟩ := htarget
    exact .inr ⟨_, Table.mem_of_get? htarget, rfl⟩

/-- A circle goes through a named schema. -/
theorem Glossary.acyclic_of_named
    (h : ∀ entry ∈ g.schemas, ¬ Relation.TransGen g.Descends entry.2 entry.2) : g.Acyclic := by
  -- A way that goes inside at each step gets to smaller schemas; any other way passes a named one.
  have hway : ∀ {s target}, Relation.TransGen g.Descends s target → sizeOf target < sizeOf s ∨
      ∃ entry ∈ g.schemas, Relation.TransGen g.Descends s entry.2 ∧
        Relation.ReflTransGen g.Descends entry.2 target := by
    intro s target hsteps
    induction hsteps with
    | single hstep =>
      rcases hstep.inside_or_named with hlt | ⟨entry, hentry, rfl⟩
      · exact .inl hlt
      · exact .inr ⟨entry, hentry, .single hstep, .refl⟩
    | tail hsteps hstep ih =>
      rcases ih with hlt | ⟨entry, hentry, hto, hfrom⟩
      · rcases hstep.inside_or_named with hlt' | ⟨entry, hentry, rfl⟩
        · exact .inl (hlt'.trans hlt)
        · exact .inr ⟨entry, hentry, hsteps.tail hstep, .refl⟩
      · exact .inr ⟨entry, hentry, hto, hfrom.tail hstep⟩
  intro s hcircle
  rcases hway hcircle with hlt | ⟨entry, hentry, hto, hfrom⟩
  · exact absurd hlt (Nat.lt_irrefl _)
  · exact h entry hentry (hto.trans_right hfrom)

/-! ## The measure -/

/-- The list holds the named schemas, and all that lies inside of its schemas. -/
structure Glossary.Spans (g : Glossary) (l : List Api.Schema) : Prop where
  enclosed : Enclosed l
  named : ∀ entry ∈ g.schemas, entry.2 ∈ l

theorem Glossary.Spans.descends (h : g.Spans l) (hs : s ∈ l)
    (hsteps : Relation.TransGen g.Descends s target) : target ∈ l := by
  have hstep : ∀ {s target}, s ∈ l → g.Descends s target → target ∈ l := by
    intro s target hs hstep
    cases hstep with
    | property hentry => exact h.enclosed.property s hs _ hentry
    | items hitems => exact h.enclosed.items s hs _ hitems
    | value hvalue => exact h.enclosed.value s hs _ hvalue
    | part hpart => exact h.enclosed.part s hs _ hpart
    | composed _ _ htarget =>
      obtain ⟨_, -, htarget⟩ := htarget
      exact h.named _ (Table.mem_of_get? htarget)
  induction hsteps with
  | single h => exact hstep hs h
  | tail _ h ih => exact hstep ih h

/-- A plan allows more steps for a schema than there are schemas to look at. -/
theorem Plan.exists_spans (p : Plan) (s : Api.Schema) : ∃ l, s ∈ l ∧ p.glossary.Spans l ∧
    (p.glossary.schemas.length + 1) * (l.length + 1) ≤ p.steps s := by
  obtain ⟨l, hs, hlength, hclosed⟩ := Api.exists_enclosed s
  obtain ⟨l', hnamed, hlength', hclosed'⟩ := Api.exists_enclosed_properties p.glossary.schemas
  refine ⟨l' ++ l, List.mem_append_right _ hs, ⟨hclosed'.append hclosed, fun entry hentry =>
    List.mem_append_left _ (hnamed entry hentry)⟩, ?_⟩
  rw [List.length_append, hlength, hlength', Plan.steps]
  exact Nat.mul_le_mul_left _ (Nat.le_succ _)

/-- The schemas of the list that a schema leads to. -/
def Glossary.below (g : Glossary) (l : List Api.Schema) (s : Api.Schema) : Set Api.Schema :=
  {target | target ∈ l ∧ Relation.TransGen g.Descends s target}

theorem Glossary.ncard_below_le (g : Glossary) (l : List Api.Schema) (s : Api.Schema) :
    (g.below l s).ncard ≤ l.length := by
  classical
  calc (g.below l s).ncard ≤ (l.toFinset : Set Api.Schema).ncard :=
        Set.ncard_le_ncard (fun _ h => by simpa using h.1) l.toFinset.finite_toSet
    _ = l.toFinset.card := Set.ncard_coe_finset _
    _ ≤ l.length := l.toFinset_card_le

theorem Glossary.Acyclic.ncard_below_lt (h : g.Acyclic)
    (hsteps : Relation.TransGen g.Descends s target) (htarget : target ∈ l) :
    (g.below l target).ncard < (g.below l s).ncard := by
  have hfinite : (g.below l s).Finite := l.finite_toSet.subset fun _ h => h.1
  refine Set.ncard_lt_ncard ⟨fun other hother => ⟨hother.1, hsteps.trans hother.2⟩, ?_⟩ hfinite
  exact fun hsubset => h target (hsubset ⟨htarget, hsteps⟩).2

/-- The keys whose aliases can still be replaced. -/
def Glossary.free (g : Glossary) (inlining : List String) : List String :=
  g.schemas.keys.filter fun key => key ∉ inlining

theorem Glossary.length_free_lt {key : String} (hkey : key ∈ g.schemas.keys)
    (hnew : key ∉ inlining) : (g.free (key :: inlining)).length < (g.free inlining).length := by
  have hfree : g.free (key :: inlining) = (g.free inlining).filter fun other => other ≠ key := by
    rw [free, free, List.filter_filter]
    exact List.filter_congr fun other _ => by simp
  rw [hfree, List.length_filter_lt_length_iff_exists]
  exact ⟨key, List.mem_filter.mpr ⟨hkey, by simpa using hnew⟩, by simp⟩

/-- What is left to do for a schema: aliases to replace, and schemas below it between two of
them. -/
noncomputable def Glossary.height (g : Glossary) (l : List Api.Schema) (inlining : List String)
    (s : Api.Schema) : Nat :=
  (g.free inlining).length * (l.length + 1) + (g.below l s).ncard

theorem Glossary.height_lt (g : Glossary) (l : List Api.Schema) (inlining : List String)
    (s : Api.Schema) : g.height l inlining s < (g.schemas.length + 1) * (l.length + 1) := by
  have hfree : (g.free inlining).length ≤ g.schemas.length :=
    (List.length_filter_le _ _).trans_eq (List.length_map _)
  calc g.height l inlining s < (g.free inlining).length * (l.length + 1) + (l.length + 1) :=
        Nat.add_lt_add_left (Nat.lt_succ_of_le (g.ncard_below_le l s)) _
    _ = ((g.free inlining).length + 1) * (l.length + 1) := (Nat.succ_mul _ _).symm
    _ ≤ (g.schemas.length + 1) * (l.length + 1) :=
        Nat.mul_le_mul_right _ (Nat.succ_le_succ hfree)

/-- There is less to do for what is asked for. -/
theorem Glossary.Needs.height_lt (h : g.Needs inlining s inlining' target) (hacyclic : g.Acyclic)
    (hspans : g.Spans l) (hs : s ∈ l) :
    target ∈ l ∧ g.height l inlining' target < g.height l inlining s := by
  obtain ⟨rfl, hsteps⟩ | ⟨key, hnew, hget, rfl⟩ := h.descends
  · have htarget := hspans.descends hs hsteps
    exact ⟨htarget, Nat.add_lt_add_left (hacyclic.ncard_below_lt hsteps htarget) _⟩
  · refine ⟨hspans.named _ (Table.mem_of_get? hget), ?_⟩
    have hfree := g.length_free_lt (Table.mem_keys_of_get? hget) hnew
    calc g.height l (key :: inlining) target
        < (g.free (key :: inlining)).length * (l.length + 1) + (l.length + 1) :=
          Nat.add_lt_add_left (Nat.lt_succ_of_le (g.ncard_below_le l target)) _
      _ = ((g.free (key :: inlining)).length + 1) * (l.length + 1) := (Nat.succ_mul _ _).symm
      _ ≤ (g.free inlining).length * (l.length + 1) := Nat.mul_le_mul_right _ hfree
      _ ≤ g.height l inlining s := Nat.le_add_right _ _

/-! ## Programs that end -/

/-- The program does not run out of steps. -/
def Ends {α : Type} (x : Build α) : Prop := ∀ w, x.run w ≠ .error .endlessComposition

section Ends

variable {α β : Type} {x : Build α}

theorem ends_pure (a : α) : Ends (pure a : Build α) := fun _ h => nomatch h

theorem ends_get : Ends (get : Build Workspace) := fun _ h => nomatch h

theorem ends_set (w : Workspace) : Ends (set w : Build PUnit) := fun _ h => nomatch h

theorem ends_modify (f : Workspace → Workspace) : Ends (modify f : Build PUnit) :=
  fun _ h => nomatch h

theorem ends_throw {cause : ConversionError} (h : cause ≠ .endlessComposition) :
    Ends (throw cause : Build α) := fun _ heq => h (Except.error.inj heq)

theorem ends_lift {x : Except ConversionError α} (h : x ≠ .error .endlessComposition) :
    Ends (liftM x : Build α) := by
  intro w
  cases x with
  | ok a => exact fun h => nomatch h
  | error cause => exact fun heq => h (congrArg Except.error (Except.error.inj heq))

theorem Ends.bind {f : α → Build β} (hx : Ends x) (hf : ∀ a, Ends (f a)) : Ends (x >>= f) := by
  intro w h
  rw [StateT.run_bind] at h
  cases hrun : x.run w with
  | error cause =>
    rw [hrun] at h
    exact hx w (hrun.trans (congrArg Except.error (Except.error.inj h)))
  | ok out =>
    rw [hrun] at h
    exact hf out.1 out.2 h

theorem ends_mapM {f : α → Build β} {as : List α} (h : ∀ a ∈ as, Ends (f a)) :
    Ends (as.mapM f) := by
  induction as with
  | nil => exact ends_pure []
  | cons a rest ih =>
    obtain ⟨ha, hrest⟩ := List.forall_mem_cons.mp h
    rw [List.mapM_cons]
    exact ha.bind fun b => (ih hrest).bind fun bs => ends_pure (b :: bs)

end Ends

theorem target_ne_endless (g : Glossary) (reference : String) :
    g.target reference ≠ .error .endlessComposition := by
  rw [Glossary.target]
  split <;> simp

theorem effectiveObject_ne_endless (g : Glossary) (s : Api.Schema) :
    g.effectiveObject s ≠ .error .endlessComposition := by
  obtain ⟨stops, -, hflatten⟩ := flatten_gathers g [s]
  rw [Glossary.effectiveObject, hflatten]
  cases hgather : g.gather stops with
  | ok leaves =>
    intro h
    cases h
  | error cause =>
    obtain ⟨-, reference, -, rfl⟩ := gather_eq_error.mp hgather
    intro h
    cases h

theorem propertyDefault_ne_endless (w : Workspace) (file property : String) (schema : Api.Schema)
    (type : TypeRef) :
    propertyDefault w file property schema type ≠ .error .endlessComposition := by
  have hliteral : ∀ value, defaultLiteral property value ≠ .error .endlessComposition := by
    intro value
    rw [defaultLiteral]
    split
    · simp
    · split <;> simp
  rw [propertyDefault]
  split
  · simp
  · split
    · split
      · simp
      · exact hliteral _
    · exact hliteral _

theorem claim_ends (file base : String) : Ends (claim file base) :=
  ends_get.bind fun _ => (ends_set _).bind fun _ => ends_pure _

theorem enumType_ends (place : Place) (schema : Api.Schema) : Ends (enumType place schema) := by
  refine ends_get.bind fun w => ?_
  split
  · exact ends_pure _
  · exact (claim_ends _ _).bind fun _ => (ends_modify _).bind fun _ => ends_pure _

section Structs

variable {typeOf : Place → Api.Schema → Build TypeRef}

theorem structMessage_ends (file name : String)
    (h : ∀ entry ∈ object.properties, ∀ place, Ends (typeOf place entry.2)) :
    Ends (structMessage typeOf file name object) := by
  have hfields : Ends (structFields typeOf file name object) := by
    refine Ends.bind (ends_mapM fun entry hentry => ?_) fun _ => ends_pure _
    have hfield : Ends (propertyField typeOf file name object.required entry.1 entry.2) :=
      (h entry hentry _).bind fun _ => ends_pure _
    exact hfield.bind fun field => ends_get.bind fun w =>
      (ends_lift (propertyDefault_ne_endless _ _ _ _ _)).bind fun _ => ends_pure _
  exact hfields.bind fun _ => ends_pure _

theorem structType_ends (place : Place)
    (h : ∀ entry ∈ object.properties, ∀ place, Ends (typeOf place entry.2)) :
    Ends (structType typeOf place object) := by
  refine (structMessage_ends _ _ h).bind fun message => ends_get.bind fun w => ?_
  split
  · exact ends_pure _
  · exact (claim_ends _ _).bind fun _ => (ends_modify _).bind fun _ => ends_pure _

end Structs

/-- A branch is no failure for lack of steps. -/
theorem Branch.of_ne_endless (plan : Plan) (inlining : List String) (file : String)
    (s : Api.Schema) : Branch.of plan inlining file s ≠ .failure .endlessComposition := by
  intro h
  cases Branch.chosen h with
  | unknown _ htarget => exact target_ne_endless _ _ htarget
  | unfit _ _ _ hobject => exact effectiveObject_ne_endless _ _ hobject

theorem Branch.follow_ends {branch : Branch}
    {typeOf : List String → Place → Api.Schema → Build TypeRef}
    (hbranch : branch ≠ .failure .endlessComposition)
    (h : ∀ inlining' target, branch.Asks inlining inlining' target →
      ∀ place, Ends (typeOf inlining' place target)) :
    Ends (branch.follow typeOf inlining place s) := by
  cases branch with
  | failure cause => exact ends_throw fun hcause => hbranch (congrArg _ hcause)
  | done type => exact ends_pure type
  | replaced key target => exact h _ _ .replaced place
  | sole part => exact h _ _ .sole place
  | struct object => exact structType_ends place fun entry hentry => h _ _ (.property hentry)
  | listed => exact enumType_ends place s
  | list items => exact (h _ _ .items _).bind fun _ => ends_pure _
  | map value => exact (h _ _ .value _).bind fun _ => ends_pure _

/-! ## Termination -/

/-- More steps than there is left to do are as good as any number, and enough. -/
theorem typeWithin_settles (hacyclic : plan.glossary.Acyclic) (hspans : plan.glossary.Spans l)
    {steps more : Nat} (hsteps : plan.glossary.height l inlining s < steps) (hmore : steps ≤ more)
    (hs : s ∈ l) : typeWithin plan more inlining place s = typeWithin plan steps inlining place s ∧
      Ends (typeWithin plan steps inlining place s) := by
  induction steps generalizing more inlining place s with
  | zero => exact absurd hsteps (Nat.not_lt_zero _)
  | succ steps ih =>
    obtain ⟨more, rfl⟩ := Nat.exists_eq_add_of_le' (Nat.le_trans (Nat.le_add_left 1 _) hmore)
    have hasked : ∀ inlining' target,
        (Branch.of plan inlining place.file s).Asks inlining inlining' target → ∀ place,
          typeWithin plan more inlining' place target = typeWithin plan steps inlining' place target
            ∧ Ends (typeWithin plan steps inlining' place target) := by
      intro inlining' target hasks place
      obtain ⟨htarget, hlt⟩ := hasks.needs.height_lt hacyclic hspans hs
      exact ih (Nat.lt_of_lt_of_le hlt (Nat.le_of_lt_succ hsteps)) (Nat.le_of_succ_le_succ hmore)
        htarget
    simp only [typeWithin_succ]
    exact ⟨Branch.follow_congr fun inlining' target h place => (hasked inlining' target h place).1,
      Branch.follow_ends (Branch.of_ne_endless _ _ _ _) fun inlining' target h place =>
        (hasked inlining' target h place).2⟩

theorem typeWithin_steps (hacyclic : plan.glossary.Acyclic) (inlining : List String)
    (place : Place) {more : Nat} (hmore : plan.steps s ≤ more) :
    typeWithin plan more inlining place s = typeWithin plan (plan.steps s) inlining place s ∧
      Ends (typeWithin plan (plan.steps s) inlining place s) := by
  obtain ⟨l, hs, hspans, hsteps⟩ := plan.exists_spans s
  exact typeWithin_settles hacyclic hspans
    ((plan.glossary.height_lt l inlining s).trans_le hsteps) hmore hs

theorem define_ends (hacyclic : plan.glossary.Acyclic) (key name : String) (s : Api.Schema) :
    Ends (define plan key name s) := by
  rw [define]
  split
  · exact ends_modify _
  · split
    · exact (typeWithin_steps hacyclic _ _ le_rfl).2.bind fun _ => ends_modify _
    · refine (ends_lift (effectiveObject_ne_endless _ _)).bind fun object => ?_
      have hmessage : Ends (structMessage (typeOf plan) (plan.fileOf key) name object) :=
        structMessage_ends _ _ fun entry _ place => (typeWithin_steps hacyclic [] place le_rfl).2
      exact hmessage.bind fun _ => ends_modify _

theorem defineAll_ends (hacyclic : plan.glossary.Acyclic) (schemas : Table Api.Schema) :
    Ends (defineAll plan schemas) := by
  induction schemas with
  | nil => exact ends_pure ()
  | cons entry rest ih =>
    rw [defineAll]
    split
    · exact (define_ends hacyclic entry.1 _ entry.2).bind fun _ => ih
    · exact (ends_pure ()).bind fun _ => ih

/-- Where no schema leads back to itself, the steps that a plan allows for a schema are enough, from
every set of aliases that are being replaced: any larger number of steps makes the same run, in
which they do not run out. The definitions of all named schemas are built without running out of
steps, too. -/
theorem synthesis_terminates (plan : Plan) (hacyclic : plan.glossary.Acyclic) :
    (∀ inlining place s steps w, plan.steps s ≤ steps →
      (typeWithin plan steps inlining place s).run w =
        (typeWithin plan (plan.steps s) inlining place s).run w ∧
      (typeWithin plan steps inlining place s).run w ≠ .error .endlessComposition) ∧
    ∀ w, (defineAll plan plan.glossary.schemas).run w ≠ .error .endlessComposition := by
  refine ⟨fun inlining place s steps w hsteps => ?_, defineAll_ends hacyclic _⟩
  obtain ⟨hsame, hends⟩ := typeWithin_steps hacyclic inlining place hsteps
  exact ⟨congrArg (·.run w) hsame, hsame ▸ hends w⟩

/-! ### References in circles -/

/-- A reference and nothing else. -/
def referTo (key : String) : Api.Schema := { reference := some key }

def ownedSchema : Api.Schema := { properties := [("owner", referTo "Node")] }

def linkedSchema : Api.Schema :=
  { properties := [("next", referTo "Node"), ("pings", referTo "Ping")] }

def listOf (key : String) : Api.Schema :=
  { typeNames := some (.single "array"), items := some (referTo key) }

def nodeSchema : Api.Schema := { parts := [referTo "Owned", linkedSchema] }

/-- Properties refer back to the schemas that they are in, and aliases to each other. -/
def circles : Glossary where
  policy := .strict
  schemas :=
    [("Node", nodeSchema), ("Owned", ownedSchema),
      ("Ping", listOf "Pong"), ("Pong", listOf "Ping")]

theorem not_descends_referTo (key : String) : ¬ g.Descends (referTo key) target := by
  intro h
  cases h with
  | property hentry => exact absurd hentry List.not_mem_nil
  | items hitems => cases hitems
  | value hvalue => cases hvalue
  | part hpart => exact absurd hpart List.not_mem_nil
  | composed hcomposes => exact hcomposes.1 rfl

/-- A schema that leads to nothing but references, in two steps at most, is in no circle. -/
theorem not_transGen_of_forall (hs : s.reference = none)
    (h : ∀ target, g.Descends s target → (∃ key, target = referTo key) ∨
      s.parts ≠ target.parts ∧ ∀ other, g.Descends target other → ∃ key, other = referTo key) :
    ¬ Relation.TransGen g.Descends s s := by
  intro hcircle
  obtain ⟨first, hfirst, hrest⟩ := Relation.TransGen.head'_iff.mp hcircle
  have hreference : ∀ key, ¬ Relation.ReflTransGen g.Descends (referTo key) s := by
    intro key hway
    rcases hway.cases_head with rfl | ⟨_, hstep, -⟩
    · cases hs
    · exact not_descends_referTo key hstep
  rcases h first hfirst with ⟨key, rfl⟩ | ⟨hparts, hsecond⟩
  · exact hreference key hrest
  · rcases hrest.cases_head with rfl | ⟨second, hstep, hrest⟩
    · exact hparts rfl
    · obtain ⟨key, rfl⟩ := hsecond second hstep
      exact hreference key hrest

theorem descends_listOf {key : String} (h : g.Descends (listOf key) target) :
    target = referTo key := by
  cases h with
  | property hentry => exact absurd hentry List.not_mem_nil
  | items hitems => exact (Option.some.inj hitems).symm
  | value hvalue => cases hvalue
  | part hpart => exact absurd hpart List.not_mem_nil
  | composed hcomposes => exact absurd rfl hcomposes.1

theorem descends_of_properties {properties : List (String × Api.Schema)}
    (h : g.Descends { properties } target) : ∃ entry ∈ properties, target = entry.2 := by
  cases h with
  | property hentry => exact ⟨_, hentry, rfl⟩
  | items hitems => cases hitems
  | value hvalue => cases hvalue
  | part hpart => exact absurd hpart List.not_mem_nil
  | composed hcomposes => exact absurd rfl hcomposes.1

theorem descends_ownedSchema (h : g.Descends ownedSchema target) :
    ∃ key, target = referTo key := by
  obtain ⟨entry, hentry, rfl⟩ := descends_of_properties h
  obtain rfl := List.mem_singleton.mp hentry
  exact ⟨_, rfl⟩

theorem descends_linkedSchema (h : g.Descends linkedSchema target) :
    ∃ key, target = referTo key := by
  obtain ⟨entry, hentry, rfl⟩ := descends_of_properties h
  rcases List.mem_pair.mp hentry with rfl | rfl <;> exact ⟨_, rfl⟩

theorem targets_owned (h : circles.Targets (referTo "Owned") target) : target = ownedSchema := by
  obtain ⟨reference, hreference, hget⟩ := h
  obtain rfl := Option.some.inj hreference
  have hkey : definitionKey "Owned" = "Owned" := by decide +kernel
  rw [Glossary.resolve?, hkey] at hget
  exact (Option.some.inj hget).symm

/-- The members of the composition, at any depth. -/
theorem member_nodeSchema {member : Api.Schema} (h : circles.Member nodeSchema member) :
    member = referTo "Owned" ∨ member = linkedSchema ∨ member = ownedSchema := by
  induction h with
  | part hpart => exact (List.mem_pair.mp hpart).imp_right .inl
  | nested _ hpart ih => rcases ih with rfl | rfl | rfl <;> exact absurd hpart List.not_mem_nil
  | target _ h ih =>
    rcases ih with rfl | rfl | rfl
    · exact .inr (.inr (targets_owned h))
    · obtain ⟨_, hreference, -⟩ := h
      cases hreference
    · obtain ⟨_, hreference, -⟩ := h
      cases hreference

theorem descends_nodeSchema (h : circles.Descends nodeSchema target) :
    target = referTo "Owned" ∨ target = linkedSchema ∨ target = ownedSchema := by
  cases h with
  | property hentry => exact absurd hentry List.not_mem_nil
  | items hitems => cases hitems
  | value hvalue => cases hvalue
  | part hpart => exact member_nodeSchema (.part hpart)
  | composed _ hm htarget => exact member_nodeSchema (.target hm htarget)

theorem circles_acyclic : circles.Acyclic := by
  have hlist : ∀ key, ¬ Relation.TransGen circles.Descends (listOf key) (listOf key) :=
    fun key => not_transGen_of_forall rfl fun target h => .inl ⟨key, descends_listOf h⟩
  have hnode : ¬ Relation.TransGen circles.Descends nodeSchema nodeSchema := by
    refine not_transGen_of_forall rfl fun target h => ?_
    rcases descends_nodeSchema h with rfl | rfl | rfl
    · exact .inl ⟨_, rfl⟩
    · exact .inr ⟨List.cons_ne_nil _ _, fun _ => descends_linkedSchema⟩
    · exact .inr ⟨List.cons_ne_nil _ _, fun _ => descends_ownedSchema⟩
  refine Glossary.acyclic_of_named fun entry hentry => ?_
  simp only [circles, List.mem_cons, List.not_mem_nil, or_false] at hentry
  rcases hentry with rfl | rfl | rfl | rfl
  · exact hnode
  · exact not_transGen_of_forall rfl fun target h => .inl (descends_ownedSchema h)
  · exact hlist _
  · exact hlist _

def circlesPlan : Plan where
  stem := "nodes"
  glossary := circles
  names := circles.schemas.keys.map fun key => (key, key)

/-- An alias that refers to itself through another one has a type, whichever of them is being
replaced. -/
theorem circles_terminate : circlesPlan.glossary.Acyclic ∧
    (∀ inlining ∈ [[], ["Ping"], ["Pong", "Ping"]], ∀ place w,
      (typeWithin circlesPlan 100 inlining place (referTo "Ping")).run w ≠
        .error .endlessComposition) ∧
    ∀ w, (defineAll circlesPlan circlesPlan.glossary.schemas).run w ≠
      .error .endlessComposition := by
  obtain ⟨htypes, hnamed⟩ := synthesis_terminates circlesPlan circles_acyclic
  have hsteps : circlesPlan.steps (referTo "Ping") ≤ 100 := by decide +kernel
  exact ⟨circles_acyclic,
    fun inlining _ place w => (htypes inlining place _ 100 w hsteps).2, hnamed⟩

end Convert

end RestThrift
