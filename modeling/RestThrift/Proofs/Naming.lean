import Mathlib
import RestThrift.Convert.Naming
import RestThrift.Convert.Workspace
import RestThrift.Proofs.Capitals

/-!
# Plain names

A fully-qualified name joins a path and a name by `#`, and a function's name stands behind its
service's by a dot. Names that are made for definitions and functions contain neither character,
so that these texts can be taken apart again. Numbered names are pairwise different, and the first
free one is indeed free.
-/
namespace RestThrift

namespace Text

/-- Neither of the two characters that join the parts of a fully-qualified name. -/
def IsPlainChar (c : Char) : Prop := c ≠ '#' ∧ c ≠ '.'

def IsPlain (text : List Char) : Prop := ∀ c ∈ text, IsPlainChar c

instance : DecidablePred IsPlainChar := fun c => inferInstanceAs (Decidable (c ≠ '#' ∧ c ≠ '.'))

instance : DecidablePred IsPlain := fun text =>
  inferInstanceAs (Decidable (∀ c ∈ text, IsPlainChar c))

theorem isPlain_nil : IsPlain [] := by simp [IsPlain]

theorem isPlain_cons {c : Char} {text : List Char} :
    IsPlain (c :: text) ↔ IsPlainChar c ∧ IsPlain text := by
  simp [IsPlain]

theorem isPlain_append {a b : List Char} : IsPlain (a ++ b) ↔ IsPlain a ∧ IsPlain b := by
  simp only [IsPlain, List.mem_append, or_imp, forall_and]

theorem IsPlain.subset {a b : List Char} (h : IsPlain b) (hs : a ⊆ b) : IsPlain a :=
  fun c hc => h c (hs hc)

theorem isPlainChar_of_isAlphanumeric {c : Char} (h : isAlphanumeric c = true) : IsPlainChar c := by
  constructor <;> rintro rfl <;> exact absurd h (by decide)

/-- Digits and capitals are plain. -/
theorem isPlain_capitalize {c : Char} (h : isAlphanumeric c = true) : IsPlain (capitalize c) := by
  intro d hd
  have hcode := (capitalize_spec h).1 d hd
  constructor <;> rintro rfl <;> exact absurd hcode (by decide)

theorem isAsciiDigit_of_mem_digits {n : Nat} {c : Char} (hc : c ∈ (toString n).toList) :
    isAsciiDigit c = true := by
  rw [Nat.toString_eq_ofList_toDigits, String.toList_ofList] at hc
  have hdigit := Nat.isDigit_of_mem_toDigits (by decide) (by decide) hc
  simpa [Char.isDigit, isAsciiDigit, UInt32.le_iff_toNat_le] using hdigit

theorem isPlain_digits (n : Nat) : IsPlain (toString n).toList := by
  intro c hc
  have hdigit := isAsciiDigit_of_mem_digits hc
  constructor <;> rintro rfl <;> exact absurd hdigit (by decide)

end Text

namespace Naming

open Text

theorem isPlain_pascalFrom (fresh : Bool) (name : List Char) : IsPlain (pascalFrom fresh name) := by
  induction name generalizing fresh with
  | nil => simp [pascalFrom, IsPlain]
  | cons c rest ih =>
    simp only [pascalFrom]
    split
    · exact ih true
    · rename_i hc
      have hc : isAlphanumeric c = true := by simpa using hc
      split
      · exact isPlain_append.mpr ⟨isPlain_capitalize hc, ih false⟩
      · exact isPlain_cons.mpr ⟨isPlainChar_of_isAlphanumeric hc, ih false⟩

theorem isPlain_pascal (name : List Char) : IsPlain (pascal name) := isPlain_pascalFrom true name

/-! ## Camel words -/

theorem flatMap_gapPiece (text : List Char) : (gapPiece text).flatMap Piece.text = text := by
  cases text <;> simp [gapPiece, Piece.text]

/-- The pieces of a text make it up. -/
theorem flatMap_camelPieces (name : List Char) : (camelPieces name).flatMap Piece.text = name := by
  induction name with
  | nil => rfl
  | cons c rest ih =>
    simp only [camelPieces]
    split <;> rename_i heq <;> rw [heq] at ih <;> split <;>
      simp only [List.flatMap_cons, List.flatMap_append, List.flatMap_nil, Piece.text,
        flatMap_gapPiece, List.nil_append, List.cons_append, List.append_nil] at ih ⊢
    · rw [ih]
    · rw [ih]
    · rw [← List.append_assoc, List.takeWhile_append_dropWhile, ih]
    · rw [ih]
    · rw [← ih]
    · rw [← ih]

theorem dropRepeats_subset (previous : Option (List Char)) (pieces : List Piece) :
    dropRepeats previous pieces ⊆ pieces := by
  induction pieces generalizing previous with
  | nil => simp [dropRepeats]
  | cons piece rest ih =>
    cases piece with
    | gap text => exact List.cons_subset_cons _ (ih none)
    | word text =>
      simp only [dropRepeats]
      split
      · exact List.Subset.trans (ih previous) (List.subset_cons_self _ _)
      · exact List.cons_subset_cons _ (ih _)

theorem dedupWords_subset (name : List Char) : dedupWords name ⊆ name := by
  intro c hc
  obtain ⟨piece, hpiece, hc⟩ := List.mem_flatMap.mp hc
  rw [← flatMap_camelPieces name]
  exact List.mem_flatMap.mpr ⟨piece, dropRepeats_subset _ _ hpiece, hc⟩

/-! ## Names of definitions -/

theorem isPlain_guardDigit {name : List Char} (h : IsPlain name) : IsPlain (guardDigit name) := by
  cases name with
  | nil => exact h
  | cons c rest =>
    simp only [guardDigit]
    split
    · exact isPlain_cons.mpr ⟨by decide, h⟩
    · exact h

theorem isPlain_definitionName (text : String) : IsPlain (definitionName text).toList := by
  rw [definitionName, String.toList_ofList]
  exact isPlain_guardDigit ((isPlain_pascal _).subset (dedupWords_subset _))

theorem isPlain_nestedName (parent field : String) : IsPlain (nestedName parent field).toList :=
  isPlain_definitionName _

theorem isPlainChar_of_isWordChar {c : Char} (h : isWordChar c = true) : IsPlainChar c := by
  constructor <;> rintro rfl <;> exact absurd h (by decide)

theorem isPlain_of_isIdentifier {name : List Char} (h : isIdentifier name = true) :
    IsPlain name := by
  cases name with
  | nil => exact isPlain_nil
  | cons c rest =>
    simp only [isIdentifier, Bool.and_eq_true, List.all_eq_true] at h
    refine isPlain_cons.mpr ⟨isPlainChar_of_isWordChar ?_, fun d hd => ?_⟩
    · simp only [isWordChar, isAsciiAlphanumeric, Bool.or_eq_true] at h ⊢
      tauto
    · exact isPlainChar_of_isWordChar (h.2 d hd)

theorem isPlain_identifier (name : String) : IsPlain (identifier name).toList := by
  rw [identifier]
  split
  · rename_i h
    exact isPlain_of_isIdentifier h
  · rw [String.toList_ofList]
    exact isPlain_guardDigit (isPlain_pascal _)

end Naming

/-! ## Fully-qualified names -/

section FullNames

open Text

variable {path other main service name function : String}

/-- A join after which it does not occur again can be found. -/
theorem append_cons_inj {sep : Char} {a b m n : List Char} (hm : sep ∉ m) (hn : sep ∉ n)
    (h : a ++ sep :: m = b ++ sep :: n) : a = b ∧ m = n := by
  rcases List.append_eq_append_iff.mp h with ⟨c, rfl, hc⟩ | ⟨c, rfl, hc⟩ <;> cases c with
  | nil => simp_all
  | cons d c => simp_all

/-- A plain name and its file can be read off. -/
theorem fqnOf_inj {m n : String} (hm : IsPlain m.toList) (hn : IsPlain n.toList) :
    fqnOf path m = fqnOf other n ↔ path = other ∧ m = n := by
  refine ⟨fun h => ?_, fun ⟨hp, he⟩ => hp ▸ he ▸ rfl⟩
  have hlist : path.toList ++ '#' :: m.toList = other.toList ++ '#' :: n.toList := by
    simpa [fqnOf] using congrArg String.toList h
  obtain ⟨hp, he⟩ := append_cons_inj (fun hc => (hm _ hc).1 rfl) (fun hc => (hn _ hc).1 rfl) hlist
  exact ⟨String.toList_inj.mp hp, String.toList_inj.mp he⟩

/-- No definition is mistaken for a function of a service, whatever the service is called. -/
theorem fqnOf_ne_function (hn : IsPlain name.toList) (hf : IsPlain function.toList) :
    fqnOf path name ≠ fqnOf main (service ++ "." ++ function) := by
  intro h
  have hlist : path.toList ++ '#' :: name.toList =
      (main.toList ++ '#' :: service.toList) ++ '.' :: function.toList := by
    simpa [fqnOf] using congrArg String.toList h
  rcases List.append_eq_append_iff.mp hlist with ⟨c, -, hc⟩ | ⟨c, -, hc⟩
  · cases c with
    | nil => simp at hc
    | cons d c =>
      have hmem : '.' ∈ name.toList := by simp_all
      exact (hn _ hmem).2 rfl
  · cases c with
    | nil => simp at hc
    | cons d c =>
      have hmem : '#' ∈ function.toList := by simp_all
      exact (hf _ hmem).1 rfl

end FullNames

/-! ## Free names -/

namespace Convert

open Text

theorem firstFree_eq (candidate : Nat → String) (taken : List String) (steps n : Nat) :
    ∃ m, firstFree candidate taken steps n = candidate m := by
  induction steps generalizing n with
  | zero => exact ⟨n, rfl⟩
  | succ steps ih =>
    simp only [firstFree]
    split
    · exact ih (n + 1)
    · exact ⟨n, rfl⟩

/-- A search that ends at a taken candidate has found all candidates before it taken, too. -/
theorem taken_of_firstFree {candidate : Nat → String} {taken : List String} {steps n : Nat}
    (h : firstFree candidate taken steps n ∈ taken) :
    ∀ m, n ≤ m → m ≤ n + steps → candidate m ∈ taken := by
  induction steps generalizing n with
  | zero =>
    intro m hle hge
    obtain rfl : m = n := by omega
    exact h
  | succ steps ih =>
    simp only [firstFree] at h
    intro m hle hge
    split at h
    · rename_i hn
      rcases Nat.eq_or_lt_of_le hle with rfl | hlt
      · exact List.contains_iff_mem.mp hn
      · exact ih h m hlt (by omega)
    · rename_i hn
      exact absurd (List.contains_iff_mem.mpr h) hn

/-- Among more candidates than there are taken names one is free. -/
theorem firstFree_not_mem {candidate : Nat → String} (hinj : Function.Injective candidate)
    (taken : List String) : firstFree candidate taken taken.length 0 ∉ taken := by
  intro h
  have hall := taken_of_firstFree h
  have hsub : (List.range (taken.length + 1)).map candidate ⊆ taken := by
    intro name hname
    obtain ⟨m, hm, rfl⟩ := List.mem_map.mp hname
    exact hall m (Nat.zero_le m) (by have := List.mem_range.mp hm; omega)
  have hlen := (List.subperm_of_subset ((List.nodup_range).map hinj) hsub).length_le
  simp at hlen

/-- `stem`, then `stem` with a join and a number from two on behind it. -/
theorem suffixed_injective (stem join : String) (hjoin : ∀ n : Nat, join ++ toString n ≠ "") :
    Function.Injective fun n : Nat => if n = 0 then stem else stem ++ join ++ toString (n + 1) := by
  have hlong : ∀ n : Nat, stem ++ join ++ toString n ≠ stem := by
    intro n he
    rw [String.append_assoc] at he
    exact hjoin n (String.append_eq_left_iff.mp he)
  intro m n h
  rcases m with _ | m <;> rcases n with _ | n
  · rfl
  · exact absurd h.symm (hlong _)
  · exact absurd h (hlong _)
  · have he : toString (m + 1 + 1) = toString (n + 1 + 1) := by simpa using h
    have := Nat.repr_injective he
    omega

theorem numbered_injective (base : String) : Function.Injective (numbered base) := by
  have h := suffixed_injective base "_" (by simp)
  exact h

theorem isPlain_numbered {base : String} (h : IsPlain base.toList) (n : Nat) :
    IsPlain (numbered base n).toList := by
  rw [numbered]
  split
  · exact h
  · rw [String.toList_append, String.toList_append]
    have hjoin : IsPlain "_".toList := by simp [IsPlain, IsPlainChar]
    exact isPlain_append.mpr ⟨isPlain_append.mpr ⟨h, hjoin⟩, isPlain_digits _⟩

theorem freeName_not_mem (taken : List String) (base : String) : freeName taken base ∉ taken :=
  firstFree_not_mem (numbered_injective base) taken

/-- A name gets a number only when it is taken itself. -/
theorem freeName_eq (taken : List String) (base : String) :
    ∃ n, freeName taken base = numbered base n ∧ (n = 0 ∨ base ∈ taken) := by
  rw [freeName]
  cases taken with
  | nil => exact ⟨0, rfl, .inl rfl⟩
  | cons first rest =>
    rw [List.length_cons, firstFree]
    split
    · rename_i hbase
      obtain ⟨n, hn⟩ := firstFree_eq (numbered base) (first :: rest) rest.length (0 + 1)
      exact ⟨n, hn, .inr (List.contains_iff_mem.mp hbase)⟩
    · exact ⟨0, rfl, .inl rfl⟩

end Convert

end RestThrift
