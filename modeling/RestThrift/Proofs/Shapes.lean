import Mathlib
import RestThrift.Proofs.Interchange

/-!
# Shapes

The shape of a definition is compared field by field. A definition has its own shape, unless there
is an undefined double in one of its defaults, which is not even equal to itself.
-/
namespace RestThrift

theorem TypeRef.sameShape_self (t : TypeRef) : t.sameShape t = true := by
  induction t with
  | primitive p => simp [sameShape]
  | named name fqn => simp [sameShape]
  | list element ih => exact ih
  | set element ih => exact ih
  | map key value ihkey ihvalue => simp [sameShape, ihkey, ihvalue]

open Float.Model (UnpackedFloat) in
/-- A number is not different from itself. -/
theorem unpacked_beq_self {u : UnpackedFloat} (h : u.isNaN = false) : u.beq u = true := by
  cases u with
  | notANumber => cases h
  | infinity sign => cases sign <;> rfl
  | zero sign => rfl
  | finite sign mantissa exponent hpos =>
    cases sign <;> simp [UnpackedFloat.beq, UnpackedFloat.compare]

theorem float_beq_self {x : Float} (h : x.isNaN = false) : (x == x) = true :=
  unpacked_beq_self (u := x.toModel.unpack) h

/-- No double of the literal is undefined. -/
def Literal.Definite (l : Literal) : Prop := ∀ x ∈ l.doubles, x.isNaN = false

mutual
/-- A literal is the same as itself, unless there is an undefined double in it. -/
theorem Literal.same_self : ∀ l : Literal, l.Definite → l.same l = true
  | .bool b, _ => by simp [Literal.same]
  | .int n, _ => by simp [Literal.same]
  | .float x, h => by
    rw [Literal.same]
    exact float_beq_self (h x (List.mem_singleton_self x))
  | .text s, _ => by simp [Literal.same]
  | .list items, h => by
    rw [Literal.same]
    exact Literal.sameItems_self items fun x hx => h x hx
  | .map entries, h => by
    rw [Literal.same]
    exact Literal.sameEntries_self entries fun x hx => h x hx

theorem Literal.sameItems_self : ∀ items : List Literal,
    (∀ x ∈ Literal.doublesItems items, x.isNaN = false) → Literal.sameItems items items = true
  | [], _ => rfl
  | item :: rest, h => by
    rw [Literal.doublesItems] at h
    obtain ⟨hitem, hrest⟩ := List.forall_mem_append.mp h
    rw [Literal.sameItems, Literal.same_self item hitem, Literal.sameItems_self rest hrest]
    rfl

theorem Literal.sameEntries_self : ∀ entries : List (Literal × Literal),
    (∀ x ∈ Literal.doublesEntries entries, x.isNaN = false) →
      Literal.sameEntries entries entries = true
  | [], _ => rfl
  | (key, value) :: rest, h => by
    rw [Literal.doublesEntries] at h
    obtain ⟨hentry, hrest⟩ := List.forall_mem_append.mp h
    obtain ⟨hkey, hvalue⟩ := List.forall_mem_append.mp hentry
    rw [Literal.sameEntries, Literal.same_self key hkey, Literal.same_self value hvalue,
      Literal.sameEntries_self rest hrest]
    rfl
end

/-- A field without annotations whose default is defined has its own shape. -/
theorem Field.sameShape_self {field : Field} (hbare : field.annotations = [])
    (hdefault : ∀ l ∈ field.default, l.Definite) : field.sameShape field = true := by
  have hsame : (field.default == field.default) = true := by
    cases hfield : field.default with
    | none => rfl
    | some l => exact Literal.same_self l (hdefault l hfield)
  simp [sameShape, hsame, hbare, TypeRef.sameShape_self]

/-- What is said of fields holds of others of the same shapes, if it is kept field by field. -/
theorem forall₂_of_sameFields {α : Type} {R S : α → Field → Prop} {l : List α}
    {fields others : List Field} (h : List.Forall₂ R l others)
    (hsame : sameFields fields others = true)
    (hkept : ∀ a field other, R a other → field.sameShape other = true → S a field) :
    List.Forall₂ S l fields := by
  induction h generalizing fields with
  | nil =>
    cases fields with
    | nil => exact .nil
    | cons field fields => simp [sameFields] at hsame
  | cons hab _ ih =>
    cases fields with
    | nil => simp [sameFields] at hsame
    | cons field fields =>
      simp only [sameFields, Bool.and_eq_true] at hsame
      exact .cons (hkept _ _ _ hab hsame.1) (ih hsame.2)

theorem sameFields_self {fields : List Field} (h : ∀ field ∈ fields, field.sameShape field = true) :
    sameFields fields fields = true := by
  induction fields with
  | nil => rfl
  | cons field rest ih =>
    obtain ⟨hfield, hrest⟩ := List.forall_mem_cons.mp h
    rw [sameFields, hfield, ih hrest]
    rfl

end RestThrift
