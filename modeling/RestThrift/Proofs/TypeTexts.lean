import Mathlib
import RestThrift.Proofs.Shapes
import RestThrift.Proofs.Splitting

/-!
# The text of a type

A type is written as its name, with its arguments in angle brackets behind it. Where no name of a
user-defined type has a bracket, a comma or a space or is that of a built-in type, the text tells
where each name and each argument ends, so that it determines the type but for the full names of
what it refers to.
-/
namespace RestThrift

/-- Brackets, commas and spaces divide the text of a type. -/
def typeDelimiters : List Char := ['<', '>', ',', ' ']

/-- A name that can be told from the rest of a type's text and from the built-in types. -/
def IsTypeName (name : String) : Prop :=
  (∀ c ∈ name.toList, c ∉ typeDelimiters) ∧ Primitive.ofName? name = none

theorem Primitive.ofName?_name (p : Primitive) : ofName? p.name = some p := by
  cases p <;> rfl

theorem Primitive.name_inj {p q : Primitive} (h : p.name = q.name) : p = q := by
  have hread := congrArg ofName? h
  rw [ofName?_name, ofName?_name] at hread
  exact Option.some.inj hread

namespace TypeRef

/-- Names of user-defined types, as they are written. -/
def names : TypeRef → List String
  | .primitive _ => []
  | .named name _ => [name]
  | .list element => names element
  | .set element => names element
  | .map key value => names key ++ names value

/-- All that is not written: the type without the full names of what it refers to. -/
def unlinked : TypeRef → TypeRef
  | .primitive p => .primitive p
  | .named name _ => .named name none
  | .list element => .list (unlinked element)
  | .set element => .set (unlinked element)
  | .map key value => .map (unlinked key) (unlinked value)

/-- What is written behind the name of a type. -/
def arguments : TypeRef → List Char
  | .primitive _ => []
  | .named _ _ => []
  | .list element => '<' :: (element.emit.toList ++ ['>'])
  | .set element => '<' :: (element.emit.toList ++ ['>'])
  | .map key value => '<' :: (key.emit.toList ++ ',' :: ' ' :: (value.emit.toList ++ ['>']))

/-- All names of a type are type names. -/
def Legible (t : TypeRef) : Prop := ∀ name ∈ t.names, IsTypeName name

instance (name : String) : Decidable (IsTypeName name) :=
  @instDecidableAnd _ _ (List.decidableBAll _ _) inferInstance

instance (t : TypeRef) : Decidable t.Legible :=
  inferInstanceAs (Decidable (∀ name ∈ t.names, IsTypeName name))

section Texts

variable {a b key value : TypeRef} {x y : List Char}

theorem legible_map : (map key value).Legible ↔ key.Legible ∧ value.Legible :=
  List.forall_mem_append

theorem toList_emit (t : TypeRef) : t.emit.toList = t.name.toList ++ t.arguments := by
  cases t with
  | primitive p => simp [emit, name, arguments]
  | named name fqn => simp [emit, TypeRef.name, arguments]
  | list element => simp [emit, name, arguments]
  | set element => simp [emit, name, arguments]
  | map key value => simp [emit, name, arguments]

theorem Legible.undivided (h : a.Legible) : ∀ c ∈ a.name.toList, c ∉ typeDelimiters := by
  cases a with
  | primitive p => cases p <;> simp [name, Primitive.name, typeDelimiters]
  | named name fqn => exact (h name List.mem_cons_self).1
  | list element => simp [name, typeDelimiters]
  | set element => simp [name, typeDelimiters]
  | map key value => simp [name, typeDelimiters]

theorem ne_primitive {name : String} {fqn : Option String} (h : (named name fqn).Legible)
    {p : Primitive} : name ≠ p.name := by
  rintro rfl
  have hnone := (h p.name List.mem_cons_self).2
  rw [Primitive.ofName?_name] at hnone
  cases hnone

/-- A type ends where its text does, or before a comma or a closing bracket. -/
def Ends (rest : List Char) : Prop := ∀ c ∈ rest.head?, c = '>' ∨ c = ','

theorem ends_nil : Ends [] := fun _ h => nomatch h

theorem ends_close (rest : List Char) : Ends ('>' :: rest) := by
  rintro c ⟨⟩
  exact .inl rfl

theorem ends_comma (rest : List Char) : Ends (',' :: rest) := by
  rintro c ⟨⟩
  exact .inr rfl

theorem Ends.ne_open (h : Ends x) (rest : List Char) : x ≠ '<' :: rest := by
  rintro rfl
  rcases h '<' rfl with h | h <;> exact absurd h (by decide)

theorem delimited (a : TypeRef) (hx : Ends x) :
    ∀ c ∈ (a.arguments ++ x).head?, c ∈ typeDelimiters := by
  have hopen : ∀ rest : List Char, ∀ c ∈ ('<' :: rest).head?, c ∈ typeDelimiters := by
    rintro rest c ⟨⟩
    decide
  have hend : ∀ c ∈ x.head?, c ∈ typeDelimiters := by
    intro c hc
    rcases hx c hc with rfl | rfl <;> decide
  cases a with
  | primitive p => exact hend
  | named name fqn => exact hend
  | list element => exact hopen _
  | set element => exact hopen _
  | map key value => exact hopen _

/-- The name of a type ends where its arguments begin. -/
theorem name_and_arguments (ha : a.Legible) (hb : b.Legible) (hx : Ends x) (hy : Ends y)
    (h : a.emit.toList ++ x = b.emit.toList ++ y) :
    a.name = b.name ∧ a.arguments ++ x = b.arguments ++ y := by
  rw [toList_emit, toList_emit, List.append_assoc, List.append_assoc] at h
  obtain ⟨hname, hrest⟩ := append_inj_of_run ha.undivided hb.undivided
    (fun c hc => not_not.mpr (delimited a hx c hc))
    (fun c hc => not_not.mpr (delimited b hy c hc)) h
  exact ⟨String.toList_inj.mp hname, hrest⟩

/-- What stands in brackets ends before the closing one. -/
theorem of_bracketed
    (hinner : ∀ {x y : List Char}, Ends x → Ends y → a.emit.toList ++ x = b.emit.toList ++ y →
      a.sameShape b = true ∧ x = y)
    (h : '<' :: (a.emit.toList ++ ['>']) ++ x = '<' :: (b.emit.toList ++ ['>']) ++ y) :
    a.sameShape b = true ∧ x = y := by
  have hclosed : a.emit.toList ++ '>' :: x = b.emit.toList ++ '>' :: y := by simpa using h
  obtain ⟨hshape, hend⟩ := hinner (ends_close x) (ends_close y) hclosed
  exact ⟨hshape, (List.cons.inj hend).2⟩

/-- A type can be read off the beginning of a text. Brackets balance, so that the comma that divides
a map is the one behind its key. -/
theorem sameShape_of_emit_append (ha : a.Legible) (hb : b.Legible) (hx : Ends x) (hy : Ends y)
    (h : a.emit.toList ++ x = b.emit.toList ++ y) : a.sameShape b = true ∧ x = y := by
  -- by induction on one type, with any ending behind either: an argument ends where its closing
  -- bracket or comma stands, which is the ending for the induction hypothesis
  induction a generalizing b x y with
  | primitive p =>
    obtain ⟨hname, hrest⟩ := name_and_arguments ha hb hx hy h
    cases b with
    | primitive q => exact ⟨beq_iff_eq.mpr (Primitive.name_inj hname), hrest⟩
    | named other fqn => exact absurd hname.symm (ne_primitive hb)
    | _ => exact absurd hrest (hx.ne_open _)
  | named name fqn =>
    obtain ⟨hname, hrest⟩ := name_and_arguments ha hb hx hy h
    cases b with
    | primitive q => exact absurd hname (ne_primitive ha)
    | named other fqn => exact ⟨beq_iff_eq.mpr hname, hrest⟩
    | _ => exact absurd hrest (hx.ne_open _)
  | list element ih =>
    obtain ⟨hname, hrest⟩ := name_and_arguments ha hb hx hy h
    cases b with
    | list other =>
      exact of_bracketed (a := element) (b := other) (fun hx hy => ih ha hb hx hy) hrest
    | primitive q => exact absurd hrest.symm (hy.ne_open _)
    | named other fqn => exact absurd hrest.symm (hy.ne_open _)
    | _ => simp [name] at hname
  | set element ih =>
    obtain ⟨hname, hrest⟩ := name_and_arguments ha hb hx hy h
    cases b with
    | set other =>
      exact of_bracketed (a := element) (b := other) (fun hx hy => ih ha hb hx hy) hrest
    | primitive q => exact absurd hrest.symm (hy.ne_open _)
    | named other fqn => exact absurd hrest.symm (hy.ne_open _)
    | _ => simp [name] at hname
  | map key value ihkey ihvalue =>
    obtain ⟨hname, hrest⟩ := name_and_arguments ha hb hx hy h
    cases b with
    | map k v =>
      obtain ⟨hakey, havalue⟩ := legible_map.mp ha
      obtain ⟨hbkey, hbvalue⟩ := legible_map.mp hb
      have hinner : key.emit.toList ++ ',' :: ' ' :: (value.emit.toList ++ '>' :: x) =
          k.emit.toList ++ ',' :: ' ' :: (v.emit.toList ++ '>' :: y) := by
        simpa [arguments] using hrest
      obtain ⟨hkeys, hbehind⟩ := ihkey hakey hbkey (ends_comma _) (ends_comma _) hinner
      have hvalues : value.emit.toList ++ '>' :: x = v.emit.toList ++ '>' :: y :=
        (List.cons.inj (List.cons.inj hbehind).2).2
      obtain ⟨hvalue, hend⟩ := ihvalue havalue hbvalue (ends_close x) (ends_close y) hvalues
      exact ⟨Bool.and_eq_true_iff.mpr ⟨hkeys, hvalue⟩, (List.cons.inj hend).2⟩
    | primitive q => exact absurd hrest.symm (hy.ne_open _)
    | named other fqn => exact absurd hrest.symm (hy.ne_open _)
    | _ => simp [name] at hname

/-- Types have one shape exactly if they differ in full names only. -/
theorem sameShape_iff_unlinked : a.sameShape b = true ↔ a.unlinked = b.unlinked := by
  induction a generalizing b with
  | primitive p => cases b <;> simp [sameShape, unlinked]
  | named name fqn => cases b <;> simp [sameShape, unlinked]
  | list element ih => cases b <;> simp [sameShape, unlinked, ih]
  | set element ih => cases b <;> simp [sameShape, unlinked, ih]
  | map key value ihkey ihvalue => cases b <;> simp [sameShape, unlinked, ihkey, ihvalue]

theorem emit_unlinked (a : TypeRef) : a.unlinked.emit = a.emit := by
  induction a with
  | primitive p => rfl
  | named name fqn => rfl
  | list element ih => simp only [unlinked, emit, ih]
  | set element ih => simp only [unlinked, emit, ih]
  | map key value ihkey ihvalue => simp only [unlinked, emit, ihkey, ihvalue]

/-- The texts of two types are the same exactly if the types have the same shape, that is if they
are the same but for the full names of what they refer to. -/
theorem emit_eq_iff_sameShape (ha : a.Legible) (hb : b.Legible) :
    (a.emit = b.emit ↔ a.sameShape b = true) ∧ (a.emit = b.emit ↔ a.unlinked = b.unlinked) := by
  have hshape : a.emit = b.emit ↔ a.sameShape b = true := by
    constructor
    · intro h
      have htext : a.emit.toList ++ [] = b.emit.toList ++ [] := by rw [h]
      exact (sameShape_of_emit_append ha hb ends_nil ends_nil htext).1
    · intro h
      rw [← emit_unlinked a, ← emit_unlinked b, sameShape_iff_unlinked.mp h]
  exact ⟨hshape, hshape.trans sameShape_iff_unlinked⟩

/-- Nested maps that differ in a full name, and ones that differ in where the first key ends. -/
theorem emit_eq_iff_sameShape_nested :
    (map (map .string (named "pets.Pet" none)) (list .string)).emit =
      (map (map .string (named "pets.Pet" (some "pets.thrift#Pet"))) (list .string)).emit ∧
    (map .string (map (named "pets.Pet" none) (list .string))).emit ≠
      (map (map .string (named "pets.Pet" none)) (list .string)).emit := by
  constructor
  · refine (emit_eq_iff_sameShape ?_ ?_).1.mpr ?_ <;> decide +kernel
  · refine (emit_eq_iff_sameShape ?_ ?_).1.not.mpr ?_ <;> decide +kernel

end Texts

end TypeRef

end RestThrift
