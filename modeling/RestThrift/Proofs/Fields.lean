import Mathlib
import RestThrift.Convert.Request

/-!
# Fields of requests

Fields are joined by their names, then sorted and numbered. Joining drops no annotation by its
name and invents none, and the same is true of uniting requests.
-/
namespace RestThrift

variable {fields others : List Field} {field existing : Field} {name mark : String}
  {a : Annotation}

/-- A field of the name has the annotation. -/
def Carries (fields : List Field) (name : String) (a : Annotation) : Prop :=
  ∃ field ∈ fields, field.name = name ∧ a ∈ field.annotations

/-- A field of the name has an annotation that is called `mark`. -/
def Marked (fields : List Field) (name mark : String) : Prop :=
  ∃ field ∈ fields, field.name = name ∧ field.hasAnnotation mark = true

theorem hasAnnotation_iff :
    field.hasAnnotation mark = true ↔ ∃ a ∈ field.annotations, a.name = mark := by
  simp [Field.hasAnnotation]

theorem marked_iff : Marked fields name mark ↔ ∃ a, Carries fields name a ∧ a.name = mark := by
  simp only [Marked, Carries, hasAnnotation_iff]
  constructor
  · rintro ⟨field, hfield, hname, a, ha, hmark⟩
    exact ⟨a, ⟨field, hfield, hname, ha⟩, hmark⟩
  · rintro ⟨a, ⟨field, hfield, hname, ha⟩, hmark⟩
    exact ⟨field, hfield, hname, a, ha, hmark⟩

/-! ## Numbers and order -/

theorem mem_renumberFrom {first : Int} (h : field ∈ renumberFrom first fields) :
    ∃ plain ∈ fields, ∃ id, field = { plain with id } := by
  induction fields generalizing first with
  | nil => simp [renumberFrom] at h
  | cons head rest ih =>
    rcases List.mem_cons.mp h with rfl | h
    · exact ⟨head, List.mem_cons_self, first, rfl⟩
    · obtain ⟨plain, hplain, hid⟩ := ih h
      exact ⟨plain, List.mem_cons_of_mem _ hplain, hid⟩

theorem exists_mem_renumberFrom (first : Int) (h : field ∈ fields) :
    ∃ id, { field with id } ∈ renumberFrom first fields := by
  induction fields generalizing first with
  | nil => simp at h
  | cons head rest ih =>
    rcases List.mem_cons.mp h with rfl | h
    · exact ⟨first, List.mem_cons_self⟩
    · obtain ⟨id, hid⟩ := ih (first + 1) h
      exact ⟨id, List.mem_cons_of_mem _ hid⟩

/-- What does not look at numbers holds of numbered fields. -/
theorem forall_mem_renumber {P : Field → Prop} (hid : ∀ field id, P field → P { field with id })
    (h : ∀ field ∈ fields, P field) : ∀ field ∈ renumber fields, P field := by
  intro field hfield
  obtain ⟨plain, hplain, id, rfl⟩ := mem_renumberFrom hfield
  exact hid plain id (h plain hplain)

theorem forall₂_renumber {α : Type} {R : α → Field → Prop} {l : List α}
    (hid : ∀ a field id, R a field → R a { field with id }) (h : List.Forall₂ R l fields) :
    List.Forall₂ R l (renumber fields) := by
  have hfrom : ∀ first, List.Forall₂ R l (renumberFrom first fields) := by
    induction h with
    | nil => exact fun _ => .nil
    | cons hab _ ih => exact fun first => .cons (hid _ _ first hab) (ih (first + 1))
  exact hfrom 1

/-- Numbered fields count from one. -/
theorem map_id_renumber (fields : List Field) :
    (renumber fields).map Field.id =
      (List.range fields.length).map fun i : Nat => (i : Int) + 1 := by
  have hfrom : ∀ first, (renumberFrom first fields).map Field.id =
      (List.range fields.length).map fun i : Nat => (i : Int) + first := by
    induction fields with
    | nil => exact fun _ => rfl
    | cons field rest ih =>
      intro first
      rw [renumberFrom, List.map_cons, ih, List.length_cons, List.range_succ_eq_map, List.map_cons,
        List.map_map]
      refine congrArg₂ List.cons (by simp) (List.map_congr_left fun i _ => ?_)
      simp only [Function.comp_apply, Nat.succ_eq_add_one, Nat.cast_add, Nat.cast_one]
      omega
  exact hfrom 1

theorem length_renumber (fields : List Field) : (renumber fields).length = fields.length := by
  have hlength := congrArg List.length (map_id_renumber fields)
  simpa using hlength

/-- The ids of the fields count from one. -/
def Numbered (fields : List Field) : Prop :=
  fields.map Field.id = (List.range fields.length).map fun i : Nat => (i : Int) + 1

theorem numbered_renumber (fields : List Field) : Numbered (renumber fields) := by
  rw [Numbered, map_id_renumber, length_renumber]

theorem map_name_renumber (fields : List Field) :
    (renumber fields).map Field.name = fields.map Field.name := by
  have hfrom : ∀ first, (renumberFrom first fields).map Field.name = fields.map Field.name := by
    induction fields with
    | nil => exact fun _ => rfl
    | cons field rest ih =>
      intro first
      simp only [renumberFrom, List.map_cons, ih]
  exact hfrom 1

/-- The names of the fields stand in strictly ascending order. -/
def Ascending (fields : List Field) : Prop := (fields.map Field.name).Pairwise (· < ·)

theorem ascending_renumber : Ascending (renumber fields) ↔ Ascending fields := by
  rw [Ascending, map_name_renumber, Ascending]

theorem carries_renumber : Carries (renumber fields) name a ↔ Carries fields name a := by
  constructor
  · rintro ⟨field, hfield, hname, ha⟩
    obtain ⟨plain, hplain, id, rfl⟩ := mem_renumberFrom hfield
    exact ⟨plain, hplain, hname, ha⟩
  · rintro ⟨field, hfield, hname, ha⟩
    obtain ⟨id, hid⟩ := exists_mem_renumberFrom 1 hfield
    exact ⟨_, hid, hname, ha⟩

namespace Convert

theorem mem_sortFields : field ∈ sortFields fields ↔ field ∈ fields := List.mem_mergeSort

theorem carries_sortFields : Carries (sortFields fields) name a ↔ Carries fields name a := by
  simp only [Carries, mem_sortFields]

/-- Sorting fields of different names leaves no two names in the wrong order. -/
theorem ascending_sortFields (h : (fields.map Field.name).Nodup) :
    Ascending (sortFields fields) := by
  let inOrder : Field → Field → Bool := fun a b => !decide (b.name < a.name)
  have htrans : ∀ a b c, inOrder a b = true → inOrder b c = true → inOrder a c = true := by
    intro a b c hab hbc
    simp only [inOrder, Bool.not_eq_true', decide_eq_false_iff_not, not_lt] at hab hbc ⊢
    exact hab.trans hbc
  have htotal : ∀ a b, (inOrder a b || inOrder b a) = true := by
    intro a b
    simp only [inOrder, Bool.or_eq_true, Bool.not_eq_true', decide_eq_false_iff_not, not_lt]
    exact le_total a.name b.name
  have hle : (sortFields fields).Pairwise fun a b => a.name ≤ b.name := by
    refine (List.pairwise_mergeSort htrans htotal fields).imp fun {a b} hab => ?_
    simp only [inOrder, Bool.not_eq_true', decide_eq_false_iff_not, not_lt] at hab
    exact hab
  have hperm : (sortFields fields).Perm fields := List.mergeSort_perm _ _
  have hne : (sortFields fields).Pairwise fun a b => a.name ≠ b.name :=
    List.pairwise_map.mp ((hperm.map Field.name).nodup_iff.mpr h)
  exact List.pairwise_map.mpr (hle.imp₂ (fun _ _ => lt_of_le_of_ne) hne)

/-! ## Added annotations -/

theorem addAnnotations_eq (field : Field) (added : List Annotation) :
    addAnnotations field added =
      { field with annotations := (addAnnotations field added).annotations } := by
  induction added generalizing field with
  | nil => rfl
  | cons a rest ih =>
    simp only [addAnnotations, List.foldl_cons] at ih ⊢
    split
    · exact ih field
    · exact ih { field with annotations := field.annotations ++ [a] }

theorem subset_addAnnotations (field : Field) (added : List Annotation) :
    field.annotations ⊆ (addAnnotations field added).annotations := by
  induction added generalizing field with
  | nil => exact fun _ h => h
  | cons a rest ih =>
    simp only [addAnnotations, List.foldl_cons] at ih ⊢
    split
    · exact ih field
    · have hadded := ih { field with annotations := field.annotations ++ [a] }
      exact List.Subset.trans (List.subset_append_left _ _) hadded

theorem mem_of_addAnnotations {added : List Annotation}
    (h : a ∈ (addAnnotations field added).annotations) : a ∈ field.annotations ∨ a ∈ added := by
  induction added generalizing field with
  | nil => exact .inl h
  | cons b rest ih =>
    simp only [addAnnotations, List.foldl_cons] at ih h
    split at h
    · exact (ih h).imp_right (List.mem_cons_of_mem _)
    · rcases ih h with h | h
      · rcases List.mem_append.mp h with h | h
        · exact .inl h
        · exact .inr (List.mem_singleton.mp h ▸ List.mem_cons_self)
      · exact .inr (List.mem_cons_of_mem _ h)

/-- An annotation that is not added is there already, by its name. -/
theorem exists_mem_addAnnotations {added : List Annotation} (h : a ∈ added) :
    ∃ b ∈ (addAnnotations field added).annotations, b.name = a.name := by
  induction added generalizing field with
  | nil => simp at h
  | cons c rest ih =>
    rcases List.mem_cons.mp h with rfl | h
    · simp only [addAnnotations, List.foldl_cons]
      split
      · rename_i hhas
        obtain ⟨b, hb, hname⟩ := hasAnnotation_iff.mp hhas
        exact ⟨b, subset_addAnnotations field rest hb, hname⟩
      · exact ⟨a, subset_addAnnotations _ rest (by simp), rfl⟩
    · exact ih h

/-! ## Joined fields -/

/-- A combination keeps the first field, as to its name, type, default and annotations, and takes
in the second one's annotations. -/
structure Joins (combine : Field → Field → Field) : Prop where
  name : ∀ existing field, (combine existing field).name = existing.name
  type : ∀ existing field, (combine existing field).type = existing.type
  default : ∀ existing field, (combine existing field).default = existing.default
  keeps : ∀ existing field, existing.annotations ⊆ (combine existing field).annotations
  takes : ∀ existing field, ∀ a ∈ field.annotations,
    ∃ b ∈ (combine existing field).annotations, b.name = a.name
  only : ∀ existing field, ∀ a ∈ (combine existing field).annotations,
    a ∈ existing.annotations ∨ a ∈ field.annotations

theorem joins_uniteField : Joins uniteField where
  name existing field := by rw [uniteField, addAnnotations_eq]
  type existing field := by rw [uniteField, addAnnotations_eq]
  default existing field := by rw [uniteField, addAnnotations_eq]
  keeps existing field := subset_addAnnotations existing _
  takes existing field a h := exists_mem_addAnnotations h
  only existing field a h := mem_of_addAnnotations h

theorem joins_joinField : Joins joinField where
  name existing field := joins_uniteField.name existing field
  type existing field := joins_uniteField.type existing field
  default existing field := joins_uniteField.default existing field
  keeps := joins_uniteField.keeps
  takes := joins_uniteField.takes
  only := joins_uniteField.only

variable {combine : Field → Field → Field}

theorem forall_mem_absorb {P : Field → Prop} (hcombine : ∀ e f, P e → P f → P (combine e f))
    (hfields : ∀ f ∈ fields, P f) (hfield : P field) : ∀ f ∈ absorb combine field fields, P f := by
  induction fields with
  | nil => simpa [absorb] using hfield
  | cons head rest ih =>
    obtain ⟨hhead, hrest⟩ := List.forall_mem_cons.mp hfields
    rw [absorb]
    split
    · exact List.forall_mem_cons.mpr ⟨hcombine _ _ hhead hfield, hrest⟩
    · exact List.forall_mem_cons.mpr ⟨hhead, ih hrest⟩

/-- A field comes under a new name, or its name is there already. -/
theorem Joins.map_name_absorb (hjoins : Joins combine) (field : Field) (fields : List Field) :
    (absorb combine field fields).map Field.name =
      if field.name ∈ fields.map Field.name then fields.map Field.name
      else fields.map Field.name ++ [field.name] := by
  induction fields with
  | nil => simp [absorb]
  | cons head rest ih =>
    rw [absorb]
    by_cases hname : head.name = field.name
    · simp [hname, hjoins.name]
    · rw [if_neg hname, List.map_cons, ih]
      by_cases hmem : field.name ∈ rest.map Field.name
      · simp [hmem]
      · simp [hmem, Ne.symm hname]

theorem Joins.nodup_absorb (hjoins : Joins combine) (h : (fields.map Field.name).Nodup) :
    ((absorb combine field fields).map Field.name).Nodup := by
  rw [hjoins.map_name_absorb]
  split
  · exact h
  · rename_i hnew
    exact h.append (List.nodup_singleton _) (List.disjoint_singleton.mpr hnew)

theorem carries_cons {head : Field} : Carries (head :: fields) name a ↔
    (head.name = name ∧ a ∈ head.annotations) ∨ Carries fields name a := by
  simp [Carries]

theorem Joins.carries_absorb (hjoins : Joins combine) (h : Carries fields name a) :
    Carries (absorb combine field fields) name a := by
  induction fields with
  | nil => simp [Carries] at h
  | cons head rest ih =>
    rw [absorb]
    rw [carries_cons] at h
    split <;> rw [carries_cons]
    · exact h.imp_left fun ⟨hname, ha⟩ => ⟨(hjoins.name _ _).trans hname, hjoins.keeps _ _ ha⟩
    · exact h.imp_right ih

theorem Joins.exists_carries_absorb (hjoins : Joins combine) (fields : List Field)
    (h : a ∈ field.annotations) :
    ∃ b, Carries (absorb combine field fields) field.name b ∧ b.name = a.name := by
  induction fields with
  | nil => exact ⟨a, ⟨field, by simp [absorb], rfl, h⟩, rfl⟩
  | cons head rest ih =>
    rw [absorb]
    split
    · rename_i hname
      obtain ⟨b, hb, hba⟩ := hjoins.takes head field a h
      exact ⟨b, carries_cons.mpr (.inl ⟨(hjoins.name _ _).trans hname, hb⟩), hba⟩
    · obtain ⟨b, hb, hba⟩ := ih
      exact ⟨b, carries_cons.mpr (.inr hb), hba⟩

theorem Joins.of_carries_absorb (hjoins : Joins combine)
    (h : Carries (absorb combine field fields) name a) :
    Carries fields name a ∨ (field.name = name ∧ a ∈ field.annotations) := by
  induction fields with
  | nil => exact .inr (by simpa [absorb, Carries] using h)
  | cons head rest ih =>
    rw [absorb] at h
    split at h
    · rename_i hname
      rcases carries_cons.mp h with ⟨hn, ha⟩ | h
      · rw [hjoins.name] at hn
        rcases hjoins.only _ _ _ ha with ha | ha
        · exact .inl (carries_cons.mpr (.inl ⟨hn, ha⟩))
        · exact .inr ⟨hname ▸ hn, ha⟩
      · exact .inl (carries_cons.mpr (.inr h))
    · rcases carries_cons.mp h with h | h
      · exact .inl (carries_cons.mpr (.inl h))
      · exact (ih h).imp_left fun h => carries_cons.mpr (.inr h)

/-! ## Many fields joined in turn -/

/-- Join fields in turn with those that are there. -/
def absorbAll (combine : Field → Field → Field) (others fields : List Field) : List Field :=
  others.foldl (fun fields field => absorb combine field fields) fields

theorem forall_mem_absorbAll {P : Field → Prop} (hcombine : ∀ e f, P e → P f → P (combine e f))
    (hfields : ∀ f ∈ fields, P f) (hothers : ∀ f ∈ others, P f) :
    ∀ f ∈ absorbAll combine others fields, P f := by
  induction others generalizing fields with
  | nil => exact hfields
  | cons head rest ih =>
    obtain ⟨hhead, hrest⟩ := List.forall_mem_cons.mp hothers
    exact ih (forall_mem_absorb hcombine hfields hhead) hrest

theorem Joins.nodup_absorbAll (hjoins : Joins combine) (others : List Field)
    (h : (fields.map Field.name).Nodup) :
    ((absorbAll combine others fields).map Field.name).Nodup := by
  induction others generalizing fields with
  | nil => exact h
  | cons head rest ih => exact ih (hjoins.nodup_absorb h)

theorem Joins.carries_absorbAll (hjoins : Joins combine) (others : List Field)
    (h : Carries fields name a) : Carries (absorbAll combine others fields) name a := by
  induction others generalizing fields with
  | nil => exact h
  | cons head rest ih => exact ih (hjoins.carries_absorb h)

/-- No annotation is lost by its name. -/
theorem Joins.exists_carries_absorbAll (hjoins : Joins combine) (fields : List Field)
    (h : Carries others name a) :
    ∃ b, Carries (absorbAll combine others fields) name b ∧ b.name = a.name := by
  induction others generalizing fields with
  | nil => simp [Carries] at h
  | cons head rest ih =>
    rcases carries_cons.mp h with ⟨rfl, ha⟩ | h
    · obtain ⟨b, hb, hba⟩ := hjoins.exists_carries_absorb fields ha
      exact ⟨b, hjoins.carries_absorbAll rest hb, hba⟩
    · exact ih _ h

/-- No annotation is invented. -/
theorem Joins.of_carries_absorbAll (hjoins : Joins combine)
    (h : Carries (absorbAll combine others fields) name a) :
    Carries fields name a ∨ Carries others name a := by
  induction others generalizing fields with
  | nil => exact .inl h
  | cons head rest ih =>
    rcases ih h with h | h
    · exact (hjoins.of_carries_absorb h).imp_right fun h => carries_cons.mpr (.inl h)
    · exact .inr (carries_cons.mpr (.inr h))

/-! ## United requests -/

theorem unite_eq (first other : Message) : unite first other = if first.sameShape other then first
    else { first with
      fields := renumber (sortFields (absorbAll uniteField other.fields first.fields)) } := rfl

variable {first other : Message}

@[simp] theorem unite_name : (unite first other).name = first.name := by
  rw [unite_eq]
  split <;> rfl

@[simp] theorem unite_fqn : (unite first other).fqn = first.fqn := by
  rw [unite_eq]
  split <;> rfl

@[simp] theorem unite_annotations : (unite first other).annotations = first.annotations := by
  rw [unite_eq]
  split <;> rfl

/-- The shortcut for equal shapes needs no new numbers. -/
theorem numbered_unite (h : Numbered first.fields) : Numbered (unite first other).fields := by
  rw [unite_eq]
  split
  · exact h
  · exact numbered_renumber _

/-- The names of an ascending request are different, so that those of a united one are, too. -/
theorem ascending_unite (h : Ascending first.fields) : Ascending (unite first other).fields := by
  rw [unite_eq]
  split
  · exact h
  · have hnodup : (first.fields.map Field.name).Nodup := h.imp fun hlt => ne_of_lt hlt
    have hall := joins_uniteField.nodup_absorbAll other.fields hnodup
    exact ascending_renumber.mpr (ascending_sortFields hall)

theorem name_eq_of_beq {a b : Annotation} (h : (a == b) = true) : a.name = b.name := by
  have hfields : ((a.name == b.name) && (a.value == b.value)) = true := h
  simp only [Bool.and_eq_true, beq_iff_eq] at hfields
  exact hfields.1

theorem names_eq_of_beq {as bs : List Annotation} (h : (as == bs) = true) :
    as.map Annotation.name = bs.map Annotation.name := by
  induction as generalizing bs with
  | nil =>
    cases bs with
    | nil => rfl
    | cons b bs => exact absurd h (by simp)
  | cons a as ih =>
    cases bs with
    | nil => exact absurd h (by simp)
    | cons b bs =>
      rw [List.cons_beq_cons, Bool.and_eq_true] at h
      simp only [List.map_cons, name_eq_of_beq h.1, ih h.2]

theorem hasAnnotation_of_sameShape (h : field.sameShape existing = true) :
    field.hasAnnotation mark = existing.hasAnnotation mark := by
  simp only [Field.sameShape, Bool.and_eq_true] at h
  have hnames := names_eq_of_beq h.1.2
  have hiff : field.hasAnnotation mark = true ↔ existing.hasAnnotation mark = true := by
    simp only [hasAnnotation_iff, ← List.mem_map, hnames]
  exact Bool.eq_iff_iff.mpr hiff

/-- Fields of one shape have annotations of the same names. -/
theorem marked_of_sameFields (h : sameFields fields others = true) (hm : Marked others name mark) :
    Marked fields name mark := by
  induction fields generalizing others with
  | nil =>
    cases others with
    | nil => exact hm
    | cons other others => simp [sameFields] at h
  | cons field fields ih =>
    cases others with
    | nil => simp [sameFields] at h
    | cons other others =>
      simp only [sameFields, Bool.and_eq_true] at h
      obtain ⟨f, hf, hname, hmark⟩ := hm
      rcases List.mem_cons.mp hf with rfl | hf
      · refine ⟨field, List.mem_cons_self, ?_, (hasAnnotation_of_sameShape h.1).trans hmark⟩
        simp only [Field.sameShape, Bool.and_eq_true, beq_iff_eq] at h
        exact h.1.1.1.1.1.2.trans hname
      · obtain ⟨g, hg, hrest⟩ := ih h.2 ⟨f, hf, hname, hmark⟩
        exact ⟨g, List.mem_cons_of_mem _ hg, hrest⟩

theorem carries_unite (h : Carries first.fields name a) :
    Carries (unite first other).fields name a := by
  rw [unite_eq]
  split
  · exact h
  · rw [carries_renumber, carries_sortFields]
    exact joins_uniteField.carries_absorbAll _ h

/-- The shortcut for equal shapes loses nothing, either. -/
theorem marked_unite (h : Marked other.fields name mark) :
    Marked (unite first other).fields name mark := by
  rw [unite_eq]
  split
  · rename_i hshape
    simp only [Message.sameShape, Bool.and_eq_true] at hshape
    exact marked_of_sameFields hshape.2 h
  · obtain ⟨a, ha, hmark⟩ := marked_iff.mp h
    obtain ⟨b, hb, hba⟩ := joins_uniteField.exists_carries_absorbAll first.fields ha
    exact marked_iff.mpr ⟨b, carries_renumber.mpr (carries_sortFields.mpr hb), hba.trans hmark⟩

theorem forall_mem_unite {P : Field → Prop} (hid : ∀ field id, P field → P { field with id })
    (hcombine : ∀ e f, P e → P f → P (uniteField e f)) (hfirst : ∀ f ∈ first.fields, P f)
    (hother : ∀ f ∈ other.fields, P f) : ∀ f ∈ (unite first other).fields, P f := by
  rw [unite_eq]
  split
  · exact hfirst
  · apply forall_mem_renumber hid
    intro field hfield
    exact forall_mem_absorbAll hcombine hfirst hother field (mem_sortFields.mp hfield)

/-! ## Any number of requests -/

variable {variants : List Message} {united : Message}

/-- What uniting keeps of its first request, holds of the united one when it holds of each. -/
theorem uniteAll_keeps {P : Message → Prop} (hunite : ∀ first other, P first → P other →
    P (unite first other)) (h : ∀ v ∈ variants, P v) (hu : uniteAll variants = some united) :
    P united := by
  cases variants with
  | nil => simp [uniteAll] at hu
  | cons first rest =>
    obtain rfl := Option.some.inj hu
    obtain ⟨hfirst, hrest⟩ := List.forall_mem_cons.mp h
    clear h hu
    induction rest generalizing first with
    | nil => exact hfirst
    | cons other rest ih =>
      obtain ⟨hother, hrest⟩ := List.forall_mem_cons.mp hrest
      exact ih (unite first other) (hunite _ _ hfirst hother) hrest

/-- The united request has a mark of each request that is united. -/
theorem marked_uniteAll (hu : uniteAll variants = some united) {v : Message} (hv : v ∈ variants)
    (h : Marked v.fields name mark) : Marked united.fields name mark := by
  cases variants with
  | nil => simp at hv
  | cons first rest =>
    obtain rfl := Option.some.inj hu
    clear hu
    induction rest generalizing first v with
    | nil =>
      obtain rfl := List.mem_singleton.mp hv
      exact h
    | cons other rest ih =>
      have hkeep : ∀ {m : Message}, Marked m.fields name mark →
          Marked (unite m other).fields name mark := by
        intro m hm
        obtain ⟨a, ha, hmark⟩ := marked_iff.mp hm
        exact marked_iff.mpr ⟨a, carries_unite ha, hmark⟩
      rcases List.mem_cons.mp hv with rfl | hv
      · exact ih (hkeep h) (unite v other) List.mem_cons_self
      · rcases List.mem_cons.mp hv with rfl | hv
        · exact ih (marked_unite h) (unite first v) List.mem_cons_self
        · exact ih h (unite first other) (List.mem_cons_of_mem _ hv)

end Convert

end RestThrift
