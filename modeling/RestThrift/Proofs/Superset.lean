import Mathlib
import RestThrift.Proofs.Request

/-!
# United requests as supersets

Requests of one name are united from the left. Along the way the fields stand for those of all
requests so far: a field is as the first request with one of its name has it, and the annotations of
later ones are added under new names. To skip a request of the same shape changes nothing.
-/
namespace RestThrift

variable {fields others : List Field} {field : Field} {name : String}

/-! ## First annotations -/

/-- The first annotation of each name, in the order of the list. -/
def firstMarks : List Annotation → List Annotation
  | [] => []
  | a :: rest => a :: (firstMarks rest).filter fun b => b.name ≠ a.name

section Marks

variable {as bs : List Annotation} {a : Annotation}

theorem nodup_firstMarks (as : List Annotation) : ((firstMarks as).map Annotation.name).Nodup := by
  induction as with
  | nil => exact List.nodup_nil
  | cons a rest ih =>
    have hnot : a.name ∉
        ((firstMarks rest).filter fun b => b.name ≠ a.name).map Annotation.name := by
      simp
    exact List.nodup_cons.mpr ⟨hnot, ih.sublist (List.filter_sublist.map Annotation.name)⟩

theorem name_mem_firstMarks : name ∈ (firstMarks as).map Annotation.name ↔
    name ∈ as.map Annotation.name := by
  induction as with
  | nil => rfl
  | cons a rest ih =>
    rw [firstMarks, List.map_cons, List.map_cons, List.mem_cons, List.mem_cons, ← ih]
    by_cases hname : name = a.name
    · simp [hname]
    · simp only [hname, false_or, List.mem_map, List.mem_filter, decide_eq_true_eq]
      constructor
      · rintro ⟨b, ⟨hb, -⟩, rfl⟩
        exact ⟨b, hb, rfl⟩
      · rintro ⟨b, hb, rfl⟩
        exact ⟨b, ⟨hb, hname⟩, rfl⟩

theorem firstMarks_eq_self (h : (as.map Annotation.name).Nodup) : firstMarks as = as := by
  induction as with
  | nil => rfl
  | cons a rest ih =>
    obtain ⟨hnot, hrest⟩ := List.nodup_cons.mp h
    rw [firstMarks, ih hrest, List.filter_eq_self.mpr]
    intro b hb
    have hne : b.name ≠ a.name := fun heq => hnot (heq ▸ List.mem_map_of_mem hb)
    simpa using hne

/-- An annotation at the end counts where its name is new. -/
theorem firstMarks_append_singleton (as : List Annotation) (a : Annotation) :
    firstMarks (as ++ [a]) =
      if a.name ∈ as.map Annotation.name then firstMarks as else firstMarks as ++ [a] := by
  induction as with
  | nil => rfl
  | cons b rest ih =>
    rw [List.cons_append, firstMarks, firstMarks, ih, List.map_cons]
    by_cases hrest : a.name ∈ rest.map Annotation.name
    · rw [if_pos hrest, if_pos (List.mem_cons_of_mem _ hrest)]
    · rw [if_neg hrest, List.filter_append]
      by_cases hname : a.name = b.name
      · rw [if_pos (List.mem_cons.mpr (.inl hname)), List.filter_cons_of_neg (by simp [hname]),
          List.filter_nil, List.append_nil]
      · rw [if_neg (mt List.mem_cons.mp (not_or.mpr ⟨hname, hrest⟩)),
          List.filter_cons_of_pos (by simp [hname]), List.filter_nil, List.cons_append]

/-- Annotations that were left out of the first ones do not count later. -/
theorem firstMarks_append_firstMarks (as bs : List Annotation) :
    firstMarks (firstMarks as ++ bs) = firstMarks (as ++ bs) := by
  induction bs using List.reverseRecOn with
  | nil => rw [List.append_nil, List.append_nil, firstMarks_eq_self (nodup_firstMarks as)]
  | append_singleton bs b ih =>
    simp only [← List.append_assoc, firstMarks_append_singleton, ih, List.map_append,
      List.mem_append, name_mem_firstMarks]

end Marks

namespace Convert

theorem annotations_addAnnotations {added : List Annotation}
    (h : (field.annotations.map Annotation.name).Nodup) :
    (addAnnotations field added).annotations = firstMarks (field.annotations ++ added) := by
  induction added using List.reverseRecOn with
  | nil => rw [List.append_nil, firstMarks_eq_self h, addAnnotations, List.foldl_nil]
  | append_singleton added a ih =>
    have hstep : addAnnotations field (added ++ [a]) =
        if Field.hasAnnotation (addAnnotations field added) a.name then addAnnotations field added
        else { addAnnotations field added with
          annotations := (addAnnotations field added).annotations ++ [a] } := by
      simp only [addAnnotations, List.foldl_append]
      rfl
    have hhas : Field.hasAnnotation (addAnnotations field added) a.name = true ↔
        a.name ∈ (field.annotations ++ added).map Annotation.name := by
      rw [hasAnnotation_iff, ← List.mem_map, ih, name_mem_firstMarks]
    rw [hstep, ← List.append_assoc, firstMarks_append_singleton]
    by_cases hmem : a.name ∈ (field.annotations ++ added).map Annotation.name
    · rw [if_pos (hhas.mpr hmem), if_pos hmem, ih]
    · rw [if_neg (mt hhas.mp hmem), if_neg hmem, ih]

theorem uniteField_eq (existing : Field) (h : (existing.annotations.map Annotation.name).Nodup) :
    uniteField existing field = { existing with
      annotations := firstMarks (existing.annotations ++ field.annotations) } := by
  rw [uniteField, addAnnotations_eq, annotations_addAnnotations h]

/-! ## Fields by name -/

/-- The field of a name. -/
def field? (fields : List Field) (name : String) : Option Field :=
  fields.find? fun field => field.name == name

theorem messageField?_eq (m : Message) (name : String) : m.field? name = field? m.fields name := rfl

theorem name_of_field? (h : field? fields name = some field) : field.name = name := by
  simpa using List.find?_some h

theorem mem_of_field? (h : field? fields name = some field) : field ∈ fields :=
  List.mem_of_find?_eq_some h

theorem field?_eq_none : field? fields name = none ↔ name ∉ fields.map Field.name := by
  simp [field?]

/-- Where names are different, a field is the one of its name. -/
theorem field?_of_mem (hnodup : (fields.map Field.name).Nodup) (h : field ∈ fields) :
    field? fields field.name = some field := by
  cases hfound : field? fields field.name with
  | none => exact absurd (List.mem_map_of_mem h) (field?_eq_none.mp hfound)
  | some other =>
    rw [List.inj_on_of_nodup_map hnodup (mem_of_field? hfound) h (name_of_field? hfound)]

/-- A field comes to the one of its name, if there is one, and else stands for itself. -/
theorem Joins.field?_absorb {combine : Field → Field → Field} (hjoins : Joins combine)
    (field : Field) (fields : List Field) (name : String) :
    field? (absorb combine field fields) name =
      if field.name = name then some ((field? fields name).elim field fun e => combine e field)
      else field? fields name := by
  induction fields with
  | nil =>
    by_cases hname : field.name = name <;> simp [absorb, field?, hname]
  | cons head rest ih =>
    rw [absorb]
    by_cases hhead : head.name = field.name
    · by_cases hname : field.name = name
      · simp [field?, hhead, hname, hjoins.name]
      · simp [field?, hhead, hname, hjoins.name]
    · rw [if_neg hhead]
      by_cases hname : head.name = name
      · simp [field?, hname, Ne.symm (hname ▸ hhead)]
      · simpa [field?, hname] using ih

theorem Joins.field?_absorbAll {combine : Field → Field → Field} (hjoins : Joins combine)
    (hnodup : (others.map Field.name).Nodup) (fields : List Field) (name : String) :
    field? (absorbAll combine others fields) name =
      match field? others name with
      | some field => some ((field? fields name).elim field fun e => combine e field)
      | none => field? fields name := by
  induction others generalizing fields with
  | nil => rfl
  | cons head rest ih =>
    obtain ⟨hnot, hrest⟩ := List.nodup_cons.mp hnodup
    have hstep : absorbAll combine (head :: rest) fields =
        absorbAll combine rest (absorb combine head fields) := rfl
    rw [hstep, ih hrest, hjoins.field?_absorb]
    by_cases hname : head.name = name
    · have hnone : field? rest name = none := field?_eq_none.mpr (hname ▸ hnot)
      have hcons : field? (head :: rest) name = some head := by simp [field?, hname]
      simp only [hnone, hcons, if_pos hname]
    · have hcons : field? (head :: rest) name = field? rest name := by simp [field?, hname]
      simp only [hcons, if_neg hname]

/-! ## Requests that are united -/

/-- The fields of a request as it is queued: in the order of their names, numbered, and without two
annotations of one name at a field. -/
structure Queued (fields : List Field) : Prop where
  ascending : Ascending fields
  numbered : Numbered fields
  marks : ∀ field ∈ fields, (field.annotations.map Annotation.name).Nodup

theorem Queued.nodup (h : Queued fields) : (fields.map Field.name).Nodup :=
  h.ascending.imp fun hlt => ne_of_lt hlt

section Building

variable {plan : Plan} {file request : String} {w w' : Workspace} {body : Option Api.Body}
  {parameters : List Api.Parameter}

theorem parameterFields_marked
    (h : Runs (parameterFields plan file request parameters) w fields w') :
    ∀ field ∈ fields, field.annotations.length = 1 := by
  induction parameters generalizing w fields with
  | nil =>
    obtain ⟨rfl, -⟩ := runs_pure.mp h
    exact fun _ h => absurd h List.not_mem_nil
  | cons p rest ih =>
    rw [parameterFields] at h
    split at h
    · simp only [parameterField, runs_bind, runs_pure] at h
      obtain ⟨field, _, ⟨type, _, -, rfl, -⟩, others, _, hothers, rfl, rfl⟩ := h
      exact List.forall_mem_cons.mpr ⟨rfl, ih hothers⟩
    · exact ih h

theorem bodyFields_marked {body : Api.Body}
    (h : Runs (bodyFields plan file request body) w fields w') :
    ∀ field ∈ fields, field.annotations.length = 1 := by
  rw [bodyFields] at h
  split at h
  · simp only [runs_bind, runs_lift] at h
    obtain ⟨object, _, -, hfields⟩ := h
    have hrun := runs_mapM (R := fun _ _ => True) (I := fun _ => True)
      (P := fun _ (_ : String × Api.Schema) (field : Field) => field.annotations.length = 1)
      (fun _ => trivial)
      (fun _ _ => trivial) (fun _ _ => trivial) (fun _ hlength => hlength) ?_ trivial hfields
    · intro field hfield
      exact (exists_left_of_forall₂ hrun.2 hfield).choose_spec.2
    · rintro ⟨property, schema⟩ _ w field w' - h
      simp only [runs_bind, propertyField_runs, runs_pure] at h
      obtain ⟨_, _, ⟨type, _, rfl⟩, rfl, -⟩ := h
      exact ⟨trivial, rfl⟩
  · simp only [runs_bind, runs_pure] at h
    obtain ⟨type, _, -, rfl, -⟩ := h
    exact List.forall_mem_singleton.mpr rfl

/-- Requests are queued with fields in order and with annotations of different names. -/
theorem requestFields_queued
    (h : Runs (requestFields plan file request parameters body) w fields w') : Queued fields := by
  obtain ⟨hnumbered, hascending⟩ := requestFields_ordered h
  refine ⟨hascending, hnumbered, ?_⟩
  obtain ⟨own, w₁, fromBody, hown, hbody, rfl⟩ := requestFields_runs h
  have hfromBody : ∀ field ∈ fromBody, field.annotations.length = 1 := by
    cases body with
    | some b => exact bodyFields_marked hbody
    | none =>
      obtain ⟨rfl, -⟩ := runs_pure.mp hbody
      exact fun _ h => absurd h List.not_mem_nil
  have hone : ∀ field ∈ own ++ fromBody, (field.annotations.map Annotation.name).Nodup := by
    intro field hfield
    have hlength := List.forall_mem_append.mpr ⟨parameterFields_marked hown, hfromBody⟩ field hfield
    obtain ⟨a, ha⟩ := List.length_eq_one_iff.mp hlength
    rw [ha]
    exact List.nodup_singleton _
  refine forall_mem_renumber (fun _ _ h => h) fun field hfield => ?_
  refine forall_mem_absorbAll (P := fun f => (f.annotations.map Annotation.name).Nodup)
    (fun e f he _ => ?_) (fun _ h => absurd h List.not_mem_nil) hone field
    (mem_sortFields.mp hfield)
  have hjoined : (joinField e f).annotations = firstMarks (e.annotations ++ f.annotations) :=
    annotations_addAnnotations he
  rw [hjoined]
  exact nodup_firstMarks _

end Building

/-- The fields of a name, one for each request that has it. -/
def bearers (variants : List Message) (name : String) : List Field :=
  variants.filterMap fun v => v.field? name

/-- The fields stand for those of all requests: each is as the first request with one of its name
has it, with the annotations of all. -/
structure Superset (variants : List Message) (fields : List Field) : Prop where
  ascending : Ascending fields
  numbered : Numbered fields
  names : ∀ name, name ∈ fields.map Field.name ↔
    ∃ v ∈ variants, name ∈ v.fields.map Field.name
  field : ∀ field ∈ fields, ∃ first, (bearers variants field.name).head? = some first ∧
    field = { first with
      id := field.id
      annotations := firstMarks ((bearers variants field.name).flatMap Field.annotations) }

variable {variants : List Message} {first other : Message}

theorem bearers_append_singleton (variants : List Message) (v : Message) (name : String) :
    bearers (variants ++ [v]) name = bearers variants name ++ (field? v.fields name).toList := by
  rw [bearers, List.filterMap_append, ← bearers]
  cases hfield : field? v.fields name <;> simp [messageField?_eq, hfield]

theorem bearers_eq_nil : bearers variants name = [] ↔
    ∀ v ∈ variants, name ∉ v.fields.map Field.name := by
  simp only [bearers, messageField?_eq, List.filterMap_eq_nil_iff, field?_eq_none]

namespace Superset

theorem marks (h : Superset variants fields) :
    ∀ field ∈ fields, (field.annotations.map Annotation.name).Nodup := by
  intro field hfield
  obtain ⟨first, -, hshape⟩ := h.field field hfield
  rw [hshape]
  exact nodup_firstMarks _

theorem nodup (h : Superset variants fields) : (fields.map Field.name).Nodup :=
  h.ascending.imp fun hlt => ne_of_lt hlt

/-- The fields of one request stand for themselves. -/
theorem single (h : Queued first.fields) : Superset [first] first.fields where
  ascending := h.ascending
  numbered := h.numbered
  names name := by simp
  field field hfield := by
    have hbearers : bearers [first] field.name = [field] := by
      simp [bearers, messageField?_eq, field?_of_mem h.nodup hfield]
    refine ⟨field, by rw [hbearers]; rfl, ?_⟩
    rw [hbearers, List.flatMap_singleton, firstMarks_eq_self (h.marks field hfield)]

end Superset

/-- The superset of two requests, where shapes are not looked at. -/
def merge (first other : Message) : Message :=
  { first with
    fields := renumber (sortFields (absorbAll uniteField other.fields first.fields)) }

theorem mem_names_absorbAll {name : String} (hother : (other.fields.map Field.name).Nodup) :
    name ∈ (absorbAll uniteField other.fields first.fields).map Field.name ↔
      name ∈ first.fields.map Field.name ∨ name ∈ other.fields.map Field.name := by
  rw [← not_iff_not, not_or, ← field?_eq_none, ← field?_eq_none, ← field?_eq_none,
    joins_uniteField.field?_absorbAll hother]
  cases field? other.fields name <;> simp

namespace Superset

/-- No request has a field that the superset does not have. -/
theorem bearers_of_new {name : String} (h : Superset variants fields)
    (hnew : field? fields name = none) : bearers variants name = [] := by
  rw [bearers_eq_nil]
  have hnames := mt (h.names name).mpr (field?_eq_none.mp hnew)
  exact fun v hv hmem => hnames ⟨v, hv, hmem⟩

/-- A field that is there already takes the annotations of one more. -/
theorem united {existing : Field} (h : Superset variants fields) (hexisting : existing ∈ fields)
    (added : Field) : ∃ bearer, (bearers variants existing.name).head? = some bearer ∧
      uniteField existing added = { bearer with
        id := (uniteField existing added).id
        annotations :=
          firstMarks ((bearers variants existing.name ++ [added]).flatMap Field.annotations) } := by
  obtain ⟨bearer, hhead, hshape⟩ := h.field existing hexisting
  have hannotations := congrArg Field.annotations hshape
  let all := bearers variants existing.name ++ [added]
  have hmarks : firstMarks (existing.annotations ++ added.annotations) =
      firstMarks (all.flatMap Field.annotations) := by
    rw [hannotations, firstMarks_append_firstMarks]
    simp [all]
  refine ⟨bearer, hhead, ?_⟩
  rw [uniteField_eq _ (h.marks existing hexisting), hmarks]
  exact congrArg
    (fun f : Field => { f with annotations := firstMarks (all.flatMap Field.annotations) }) hshape

/-- One more request is merged. -/
theorem merge (h : Superset variants first.fields) (hother : Queued other.fields) :
    Superset (variants ++ [other]) (merge first other).fields where
  ascending := ascending_renumber.mpr
    (ascending_sortFields (joins_uniteField.nodup_absorbAll other.fields h.nodup))
  numbered := numbered_renumber _
  names name := by
    have hperm : (sortFields (absorbAll uniteField other.fields first.fields)).Perm
        (absorbAll uniteField other.fields first.fields) := List.mergeSort_perm _ _
    rw [Convert.merge, map_name_renumber, (hperm.map Field.name).mem_iff,
      mem_names_absorbAll hother.nodup, h.names]
    simp only [List.mem_append, List.mem_singleton, or_and_right, exists_or, exists_eq_left]
  field := by
    refine forall_mem_renumber ?_ fun field hfield => ?_
    · rintro field id ⟨bearer, hhead, hshape⟩
      exact ⟨bearer, hhead, congrArg (fun f : Field => { f with id }) hshape⟩
    have hfound := field?_of_mem (joins_uniteField.nodup_absorbAll other.fields h.nodup)
      (mem_sortFields.mp hfield)
    rw [joins_uniteField.field?_absorbAll hother.nodup] at hfound
    rw [bearers_append_singleton]
    cases hnew : field? other.fields field.name with
    | none =>
      -- The request does not have the field.
      simp only [hnew] at hfound
      obtain ⟨bearer, hhead, hshape⟩ := h.field field (mem_of_field? hfound)
      exact ⟨bearer, by simpa using hhead, by simpa using hshape⟩
    | some added =>
      simp only [hnew, Option.some.injEq] at hfound
      cases hold : field? first.fields field.name with
      | none =>
        obtain rfl : added = field := by simpa [hold] using hfound
        have hmarks := firstMarks_eq_self (hother.marks added (mem_of_field? hnew))
        rw [h.bearers_of_new hold]
        exact ⟨added, rfl, by simp [hmarks]⟩
      | some existing =>
        obtain rfl : uniteField existing added = field := by simpa [hold] using hfound
        obtain ⟨bearer, hhead, hunited⟩ := h.united (mem_of_field? hold) added
        rw [joins_uniteField.name, List.head?_append, Option.toList_some, hhead]
        exact ⟨bearer, rfl, hunited⟩

end Superset

/-! ## Equal shapes -/

theorem sortFields_eq_self (h : Ascending fields) : sortFields fields = fields := by
  refine List.mergeSort_of_pairwise ((List.pairwise_map.mp h).imp fun hlt => ?_)
  simp only [Bool.not_eq_true', decide_eq_false_iff_not, not_lt]
  exact le_of_lt hlt

theorem renumber_eq_self (h : Numbered fields) : renumber fields = fields := by
  have hfrom : ∀ first : Int, fields.map Field.id =
      ((List.range fields.length).map fun i : Nat => (i : Int) + first) →
      renumberFrom first fields = fields := by
    clear h
    induction fields with
    | nil => exact fun _ _ => rfl
    | cons field rest ih =>
      intro first h
      rw [List.length_cons, List.range_succ_eq_map, List.map_cons, List.map_cons, List.map_map] at h
      obtain ⟨hid, hrest⟩ := List.cons.inj h
      have hnext : rest.map Field.id =
          (List.range rest.length).map fun i : Nat => (i : Int) + (first + 1) := by
        rw [hrest]
        refine List.map_congr_left fun i _ => ?_
        simp only [Function.comp_apply, Nat.succ_eq_add_one, Nat.cast_add, Nat.cast_one]
        omega
      obtain rfl : field.id = first := by simpa using hid
      rw [renumberFrom, ih (field.id + 1) hnext]
  exact hfrom 1 h

theorem addAnnotations_eq_self {added : List Annotation}
    (h : ∀ a ∈ added, field.hasAnnotation a.name = true) : addAnnotations field added = field := by
  induction added with
  | nil => rfl
  | cons a rest ih =>
    obtain ⟨ha, hrest⟩ := List.forall_mem_cons.mp h
    have hstep : addAnnotations field (a :: rest) =
        addAnnotations (if field.hasAnnotation a.name then field
          else { field with annotations := field.annotations ++ [a] }) rest := rfl
    rw [hstep, if_pos ha, ih hrest]

theorem exists_of_sameFields (h : sameFields fields others = true) :
    ∀ added ∈ others, ∃ existing ∈ fields, existing.sameShape added = true := by
  induction fields generalizing others with
  | nil =>
    cases others with
    | nil => exact fun _ h => absurd h List.not_mem_nil
    | cons added others => cases h
  | cons existing fields ih =>
    cases others with
    | nil => cases h
    | cons added others =>
      obtain ⟨hfirst, hrest⟩ := Bool.and_eq_true_iff.mp h
      refine List.forall_mem_cons.mpr ⟨⟨existing, List.mem_cons_self, hfirst⟩, fun f hf => ?_⟩
      obtain ⟨e, he, hshape⟩ := ih hrest f hf
      exact ⟨e, List.mem_cons_of_mem _ he, hshape⟩

/-- A field of the shape of one that is there adds nothing to it. -/
theorem absorb_of_sameShape {existing added : Field} (hnodup : (fields.map Field.name).Nodup)
    (h : existing ∈ fields) (hshape : existing.sameShape added = true) :
    absorb uniteField added fields = fields := by
  have hname : existing.name = added.name := by
    simp only [Field.sameShape, Bool.and_eq_true, beq_iff_eq] at hshape
    exact hshape.1.1.1.1.2
  have hunite : uniteField existing added = existing := by
    refine addAnnotations_eq_self fun a ha => ?_
    rw [hasAnnotation_of_sameShape hshape, hasAnnotation_iff]
    exact ⟨a, ha, rfl⟩
  induction fields with
  | nil => exact absurd h List.not_mem_nil
  | cons head rest ih =>
    obtain ⟨hnot, hrest⟩ := List.nodup_cons.mp hnodup
    rcases List.mem_cons.mp h with rfl | h
    · rw [absorb, if_pos hname, hunite]
    · have hne : head.name ≠ added.name :=
        fun heq => hnot (heq.trans hname.symm ▸ List.mem_map_of_mem h)
      rw [absorb, if_neg hne, ih hrest h]

/-- To merge a request of the same shape changes nothing. -/
theorem merge_of_sameShape (h : Superset variants first.fields)
    (hshape : first.sameShape other = true) : merge first other = first := by
  have hsame : ∀ added ∈ other.fields, absorb uniteField added first.fields = first.fields := by
    intro added hadded
    obtain ⟨existing, hexisting, hshape⟩ :=
      exists_of_sameFields (Bool.and_eq_true_iff.mp hshape).2 added hadded
    exact absorb_of_sameShape h.nodup hexisting hshape
  have hall : absorbAll uniteField other.fields first.fields = first.fields := by
    have hkept : ∀ others ⊆ other.fields,
        absorbAll uniteField others first.fields = first.fields := by
      intro others
      induction others with
      | nil => exact fun _ => rfl
      | cons added rest ih =>
        intro hsubset
        obtain ⟨hadded, hrest⟩ := List.cons_subset.mp hsubset
        rw [absorbAll, List.foldl_cons, hsame added hadded]
        exact ih hrest
    exact hkept _ (List.Subset.refl _)
  rw [merge, hall, sortFields_eq_self h.ascending, renumber_eq_self h.numbered]

/-- So the shortcut for equal shapes is none in the result. -/
theorem unite_eq_merge (h : Superset variants first.fields) :
    unite first other = merge first other := by
  rw [unite_eq]
  split
  · rename_i hshape
    exact (merge_of_sameShape h hshape).symm
  · rfl

/-! ## All requests of a name -/

/-- Merging requests in turn leaves the superset of all, whether or not shapes are looked at. -/
theorem foldl_unite_superset {rest : List Message} (h : Superset variants first.fields)
    (hrest : ∀ v ∈ rest, Queued v.fields) :
    rest.foldl unite first = rest.foldl merge first ∧
      Superset (variants ++ rest) (rest.foldl merge first).fields ∧
      rest.foldl merge first = { first with fields := (rest.foldl merge first).fields } := by
  induction rest generalizing variants first with
  | nil => exact ⟨rfl, by rwa [List.append_nil], rfl⟩
  | cons v rest ih =>
    obtain ⟨hv, hrest⟩ := List.forall_mem_cons.mp hrest
    obtain ⟨hsame, hsuperset, hfirst⟩ := ih (h.merge hv) hrest
    rw [List.foldl_cons, List.foldl_cons, unite_eq_merge h]
    rw [List.append_assoc, List.singleton_append] at hsuperset
    exact ⟨hsame, hsuperset, hfirst⟩

/-- Requests of one name make one message, which is the first of them with the fields of all: the
union of their fields by name, in ascending order and numbered from one. A field is as the first
request that has it tells, with the annotations that come first under their names; so no name of an
annotation is lost, and none comes twice. That requests of the same shape are skipped makes no
difference. -/
theorem uniteAll_superset {variants : List Message} (hne : variants ≠ [])
    (h : ∀ v ∈ variants, Queued v.fields) :
    ∃ first united, variants.head? = some first ∧ uniteAll variants = some united ∧
      united = { first with fields := united.fields } ∧ Superset variants united.fields ∧
      (∀ field ∈ united.fields, (field.annotations.map Annotation.name).Nodup) ∧
      (∀ v ∈ variants, ∀ field ∈ v.fields, ∀ a ∈ field.annotations,
        Marked united.fields field.name a.name) ∧
      united = variants.tail.foldl merge first := by
  obtain ⟨first, rest, rfl⟩ := List.exists_cons_of_ne_nil hne
  obtain ⟨hfirst, hrest⟩ := List.forall_mem_cons.mp h
  obtain ⟨hsame, hsuperset, hshape⟩ := foldl_unite_superset (Superset.single hfirst) hrest
  have hunited : uniteAll (first :: rest) = some (rest.foldl merge first) := congrArg some hsame
  refine ⟨first, _, rfl, hunited, hshape, hsuperset, hsuperset.marks, ?_, rfl⟩
  intro v hv field hfield a ha
  exact marked_uniteAll hunited hv
    ⟨field, hfield, rfl, hasAnnotation_iff.mpr ⟨a, ha, rfl⟩⟩

/-- Three requests of one name; the second one has the shape of the first. -/
def searchVariants : List Message :=
  let request (fields : List Field) : Message := { name := "Search", fqn := "", fields }
  let first := request
    [{ id := 1, name := "limit", type := .string, annotations := [.quoted "api.query" "limit"] },
      { id := 2, name := "q", type := .string, annotations := [.quoted "api.query" "q"] }]
  let last := request
    [{ id := 1, name := "after", type := .string, annotations := [.quoted "api.query" "after"] },
      { id := 2, name := "q", type := .string
        annotations := [.quoted "api.query" "text", .quoted "api.body" "q"] }]
  [first, first, last]

theorem searchVariants_united : searchVariants ≠ [] ∧ (∀ v ∈ searchVariants, Queued v.fields) ∧
    ∃ united, uniteAll searchVariants = some united ∧ Superset searchVariants united.fields := by
  have hne : searchVariants ≠ [] := List.cons_ne_nil _ _
  have hqueued : ∀ v ∈ searchVariants, Queued v.fields := by
    have hall : ∀ v ∈ searchVariants, Ascending v.fields ∧ Numbered v.fields ∧
        ∀ field ∈ v.fields, (field.annotations.map Annotation.name).Nodup := by
      unfold Ascending Numbered
      decide +kernel
    exact fun v hv => ⟨(hall v hv).1, (hall v hv).2.1, (hall v hv).2.2⟩
  obtain ⟨_, united, -, hunited, -, hsuperset, -⟩ := uniteAll_superset hne hqueued
  exact ⟨hne, hqueued, united, hunited, hsuperset⟩

end Convert

end RestThrift
