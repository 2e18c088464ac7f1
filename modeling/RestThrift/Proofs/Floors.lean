import Mathlib
import RestThrift.Api.Choice

/-!
# Numbers of listed values

A member of an enumeration takes its number from the value that it stands for: an integer itself, a
double its floor, and any other value its position in the list.
-/
namespace RestThrift

namespace Decimal

/-! ## Floors of doubles -/

variable {negative : Bool} {mantissa : Nat} {exponent : Int}

/-- What a sign, a mantissa and an exponent stand for. -/
def signedValue (negative : Bool) (mantissa : Nat) (exponent : Int) : ℚ :=
  (if negative then -1 else 1) * (mantissa * 2 ^ exponent)

theorem scale_div (mantissa : Nat) (exponent : Int) :
    ((scale mantissa exponent).1 : ℚ) / (scale mantissa exponent).2 = mantissa * 2 ^ exponent := by
  by_cases h : 0 ≤ exponent
  · lift exponent to ℕ using h
    simp [scale]
  · obtain ⟨k, rfl⟩ := Int.exists_eq_neg_ofNat (by omega : exponent ≤ 0)
    rw [scale, if_neg h]
    simp [div_eq_mul_inv]

theorem fdiv_scale (n : Int) (mantissa : Nat) (exponent : Int) :
    n.fdiv (scale mantissa exponent).2 = ⌊(n : ℚ) / (scale mantissa exponent).2⌋ := by
  rw [Int.fdiv_eq_ediv_of_nonneg n (Int.natCast_nonneg _), Rat.floor_intCast_div_natCast]

/-- The quotient that is taken of a finite double is the floor of what it stands for. -/
theorem Binary.floor?_finite : (Binary.finite negative mantissa exponent).floor? =
    some ⌊signedValue negative mantissa exponent⌋ := by
  simp only [Binary.floor?, fdiv_scale, signedValue, ← scale_div]
  cases negative with
  | true => simp [neg_div]
  | false => simp

/-- The integer that a double is cut to: its floor within 64 signed bits. An infinite double has the
end of that range, and an undefined one zero. -/
inductive Binary.Floors : Binary → Int → Prop
  | finite {negative : Bool} {mantissa : Nat} {exponent : Int} :
      Floors (.finite negative mantissa exponent)
        (max (-2 ^ 63) (min (2 ^ 63 - 1) ⌊signedValue negative mantissa exponent⌋))
  | below : Floors (.infinite true) (-2 ^ 63)
  | above : Floors (.infinite false) (2 ^ 63 - 1)
  | undefined : Floors .undefined 0

end Decimal

namespace Api.Choice

variable {choice : Choice} {position : Nat} {number n : Int} {x : Float}

theorem clamp64_eq (n : Int) : clamp64 n = max (-2 ^ 63) (min (2 ^ 63 - 1) n) := by
  simp only [clamp64, least64, greatest64, Nat.pow_eq, Nat.cast_pow, Nat.cast_ofNat]
  omega

theorem floors_iff : (Decimal.Binary.ofFloat x).Floors n ↔ n = floor64 x := by
  rw [floor64]
  generalize Decimal.Binary.ofFloat x = binary
  constructor
  · rintro (_ | _ | _ | _)
    · simp only [Decimal.Binary.floor?_finite, Option.getD_some, clamp64_eq]
    · rfl
    · rfl
    · rfl
  · rintro rfl
    cases binary with
    | finite negative mantissa exponent =>
      simp only [Decimal.Binary.floor?_finite, Option.getD_some, clamp64_eq]
      exact .finite
    | infinite negative =>
      cases negative with
      | true => exact .below
      | false => exact .above
    | undefined => exact .undefined

/-- The number of the member that stands for a value at a position. -/
inductive NumberedAs : Choice → Nat → Int → Prop
  | whole {n : Int} {position : Nat} : NumberedAs (.int n) position n
  | floored {x : Float} {position : Nat} {n : Int} (h : (Decimal.Binary.ofFloat x).Floors n) :
      NumberedAs (.float x) position n
  | placed {choice : Choice} {position : Nat} (hint : ∀ n, choice ≠ .int n)
      (hfloat : ∀ x, choice ≠ .float x) : NumberedAs choice position position

theorem numberedAs_iff : choice.NumberedAs position number ↔ number = choice.code position := by
  constructor
  · intro h
    cases h with
    | whole => rfl
    | floored h => exact floors_iff.mp h
    | placed hint hfloat =>
      cases choice with
      | int n => exact absurd rfl (hint n)
      | float x => exact absurd rfl (hfloat x)
      | _ => rfl
  · rintro rfl
    cases choice with
    | int n => exact .whole
    | float x => exact .floored (floors_iff.mpr rfl)
    | _ => exact .placed nofun nofun

/-- A value has one number at a position. -/
theorem NumberedAs.unique (h : choice.NumberedAs position number)
    (h' : choice.NumberedAs position n) : number = n :=
  (numberedAs_iff.mp h).trans (numberedAs_iff.mp h').symm

end Api.Choice

end RestThrift
