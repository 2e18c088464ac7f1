import Mathlib
import RestThrift.Json.Record

/-!
# Members of written records

What stands under a name in a record that is put together of single members, optional members and
lists that may be left out, and what reading such a member gives.
-/
namespace RestThrift.Json

variable {α : Type} {name key : String} {members others : Members} {value : Json}
  {read : Json → Option α} {write : α → Json} {l : List α} {o : Option α}

theorem depth_pos (j : Json) : 0 < j.depth := by cases j <;> simp [depth]

theorem exists_eq_succ_of_depth_le {n : Nat} (h : value.depth ≤ n) : ∃ m, n = m + 1 :=
  Nat.exists_eq_succ_of_ne_zero ((depth_pos value).trans_le h).ne'

@[simp] theorem member?_nil : member? name [] = none := rfl

@[simp] theorem member?_cons :
    member? name ((key, value) :: members) =
      if key = name then some value else member? name members := rfl

@[simp] theorem member?_append :
    member? name (members ++ others) = (member? name members).or (member? name others) := by
  induction members with
  | nil => rfl
  | cons entry rest ih =>
    simp only [List.cons_append, member?, ih]
    split <;> rfl

@[simp] theorem member?_optionMember {value : Option Json} :
    member? name (optionMember key value) = if key = name then value else none := by
  cases value <;> simp [optionMember]

@[simp] theorem member?_listMember {items : List Json} :
    member? name (listMember key items) =
      if key = name then (if items.isEmpty then none else some (.arr items)) else none := by
  cases items <;> simp [listMember]

theorem items?_map (h : ∀ a ∈ l, read (write a) = some a) :
    items? read (.arr (l.map write)) = some l := by
  rw [items?]
  induction l with
  | nil => rfl
  | cons a rest ih =>
    obtain ⟨ha, hrest⟩ := List.forall_mem_cons.mp h
    simp only [List.map_cons, List.mapM_cons, ha, ih hrest, Option.bind_eq_bind, Option.bind_some,
      Option.pure_def]

theorem signed?_int {bits : Nat} {n : Int}
    (h : -(2 : Int) ^ (bits - 1) ≤ n ∧ n < (2 : Int) ^ (bits - 1)) :
    signed? bits (.int n) = some n := by
  have hpow : ((Nat.pow 2 (bits - 1) : Nat) : Int) = 2 ^ (bits - 1) := by
    rw [Nat.pow_eq, Nat.cast_pow, Nat.cast_ofNat]
  simp only [signed?, hpow]
  exact if_pos h

@[simp] theorem natural?_cast (n : Nat) : natural? (.int n) = some n := by simp [natural?]

namespace Members

/-- A list that may be left out is read as the empty one where it is missing. -/
theorem withDefault_listMember (h : ∀ a ∈ l, read (write a) = some a)
    (hmember : member? name members =
      if (l.map write).isEmpty then none else some (.arr (l.map write))) :
    members.withDefault name [] (items? read) = some l := by
  rw [withDefault, hmember]
  cases l with
  | nil => rfl
  | cons a rest => exact items?_map h

/-- A value that is never written as null is read back, present or not. -/
theorem optional_optionMember (write : α → Json)
    (h : ∀ a ∈ o, write a ≠ .null ∧ read (write a) = some a)
    (hmember : member? name members = o.map write) : members.optional name read = some o := by
  rw [optional, hmember]
  cases o with
  | none => rfl
  | some a =>
    obtain ⟨hnull, hread⟩ := h a rfl
    rw [Option.map_some]
    cases hvalue : write a with
    | null => exact absurd hvalue hnull
    | _ =>
      rw [hvalue] at hread
      simp only [hread, Option.map_some]

end Members

end RestThrift.Json
