import Mathlib
import RestThrift.Text.Capital
import RestThrift.Text.Letter

/-!
# Capitals of letters and digits

The search in ordered ranges finds every range, so that the tables of capitals can be compared with
the table of letters: the capital of a letter or digit holds a letter or digit again, and it has
neither an underscore nor a small letter of ASCII.
-/
namespace RestThrift.Text

/-! ## Ordered ranges -/

/-- The range ends before the other one begins. -/
def Below (a b : Nat × Nat) : Prop := a.1 ≤ a.2 ∧ a.2 < b.1

instance : DecidableRel Below := fun a b => inferInstanceAs (Decidable (a.1 ≤ a.2 ∧ a.2 < b.1))

instance : Trans Below Below Below where
  trans h k := ⟨h.1, h.2.trans (k.1.trans_lt k.2)⟩

/-- The code lies in the range. -/
def Within (range : Nat × Nat) (code : Nat) : Prop := range.1 ≤ code ∧ code ≤ range.2

instance (range : Nat × Nat) (code : Nat) : Decidable (Within range code) :=
  inferInstanceAs (Decidable (range.1 ≤ code ∧ code ≤ range.2))

namespace Ranges

variable {ranges : Ranges} {range : Nat × Nat} {code i : Nat} {c : Char}

/-- The search finds a range of the interval in which it looks, if enough halvings are left. -/
theorem search_eq_true (hordered : ranges.toList.Pairwise Below) (hfound : ranges[i]? = some range)
    (hcode : Within range code) {steps lo hi : Nat} (hlo : lo ≤ i) (hhi : i < hi)
    (hsize : hi ≤ ranges.size) (hsteps : hi - lo < 2 ^ steps) :
    ranges.search code steps lo hi = true := by
  -- Positions are ordered as their ranges are.
  have hbelow : ∀ {m n : Nat} {a b : Nat × Nat}, ranges[m]? = some a → ranges[n]? = some b →
      m < n → Below a b := by
    intro m n a b ha hb hlt
    rw [← Array.getElem?_toList] at ha hb
    obtain ⟨hm, rfl⟩ := List.getElem?_eq_some_iff.mp ha
    obtain ⟨hn, rfl⟩ := List.getElem?_eq_some_iff.mp hb
    exact List.pairwise_iff_getElem.mp hordered m n hm hn hlt
  obtain ⟨hfirst, hlast⟩ := hcode
  induction steps generalizing lo hi with
  | zero => omega
  | succ steps ih =>
    have hmid : (lo + hi) / 2 < ranges.size := by omega
    have hget : ranges[(lo + hi) / 2]? = some ranges[(lo + hi) / 2] :=
      Array.getElem?_eq_getElem hmid
    rw [pow_succ] at hsteps
    simp only [search, if_neg (show ¬ hi ≤ lo by omega), hget]
    split
    · rename_i hless
      refine ih hlo ?_ hmid.le (by omega)
      rcases Nat.lt_trichotomy i ((lo + hi) / 2) with hlt | heq | hgt
      · exact hlt
      · obtain rfl := Option.some.inj (hget.symm.trans (heq ▸ hfound))
        omega
      · obtain ⟨hends, hgap⟩ := hbelow hget hfound hgt
        omega
    · split
      · rename_i hgreater
        refine ih ?_ hhi hsize (by omega)
        rcases Nat.lt_trichotomy i ((lo + hi) / 2) with hlt | heq | hgt
        · obtain ⟨hends, hgap⟩ := hbelow hfound hget hlt
          omega
        · obtain rfl := Option.some.inj (hget.symm.trans (heq ▸ hfound))
          omega
        · exact hgt
      · rfl

theorem contains_eq_true (hordered : ranges.toList.Pairwise Below) (hmem : range ∈ ranges.toList)
    (hcode : Within range c.toNat) : ranges.contains c = true := by
  obtain ⟨i, hi, hrange⟩ := List.getElem_of_mem hmem
  have hfound : ranges[i]? = some range := by
    rw [← Array.getElem?_toList, List.getElem?_eq_getElem hi, hrange]
  exact search_eq_true hordered hfound hcode (Nat.zero_le i) hi le_rfl
    (by rw [Nat.sub_zero]; exact Nat.lt_log2_self)

end Ranges

theorem letterRanges_ordered : letterRanges.toList.Pairwise Below :=
  List.isChain_iff_pairwise.mp (by decide +kernel)

/-! ## The tables of capitals -/

/-- The code of a capital: of an ASCII letter, or of a character beyond ASCII. -/
def IsCapitalCode (code : Nat) : Prop := (65 ≤ code ∧ code ≤ 90) ∨ 128 ≤ code

instance : DecidablePred IsCapitalCode := fun code =>
  inferInstanceAs (Decidable ((65 ≤ code ∧ code ≤ 90) ∨ 128 ≤ code))

/-- All codes of the interval are ones of capitals that are letters or digits. -/
def areLetters (first last : Nat) : Bool :=
  (Nat.ble 65 first && Nat.ble last 90) ||
    (Nat.ble 128 first && letterRanges.toList.any fun range =>
      Nat.ble range.1 first && Nat.ble last range.2)

theorem longCapitals_spec : ∀ entry ∈ longCapitals,
    (∀ n ∈ entry.2, n.isValidChar ∧ IsCapitalCode n) ∧ ∃ n ∈ entry.2, areLetters n n = true := by
  decide +kernel

theorem capitalRuns_spec : ∀ run ∈ capitalRuns,
    (areLetters run.2.2.2 (run.2.2.2 + (run.2.1 - run.1)) = true ∨
      ∀ code < run.2.1 - run.1 + 1, code % run.2.2.1 = 0 →
        areLetters (run.2.2.2 + code) (run.2.2.2 + code) = true) ∧
      (run.2.2.2 + (run.2.1 - run.1) < 0xd800 ∨
        0xdfff < run.2.2.2 ∧ run.2.2.2 + (run.2.1 - run.1) < 0x110000) := by
  decide +kernel

/-! ## Capitals -/

section Capitals

variable {c d : Char} {code : Nat}

/-- The character of a valid code has this code. -/
theorem toNat_ofNat (h : code.isValidChar) : (Char.ofNat code).toNat = code := by
  rw [Char.toNat_ofNat, if_pos h]

theorem areLetters_mono {first last first' last' : Nat} (h : areLetters first last = true)
    (hfirst : first ≤ first') (hlast : last' ≤ last) : areLetters first' last' = true := by
  simp only [areLetters, Bool.or_eq_true, Bool.and_eq_true, Nat.ble_eq, List.any_eq_true] at h ⊢
  rcases h with ⟨hupper, hupper'⟩ | ⟨hbeyond, range, hrange, hwithin, hwithin'⟩
  · exact .inl ⟨hupper.trans hfirst, hlast.trans hupper'⟩
  · exact .inr ⟨hbeyond.trans hfirst, range, hrange, hwithin.trans hfirst, hlast.trans hwithin'⟩

theorem isCapitalCode_of_areLetters (h : areLetters code code = true) : IsCapitalCode code := by
  simp only [areLetters, Bool.or_eq_true, Bool.and_eq_true, Nat.ble_eq] at h
  exact h.imp id And.left

theorem isAlphanumeric_of_areLetters (hvalid : code.isValidChar)
    (h : areLetters code code = true) : isAlphanumeric (Char.ofNat code) = true := by
  have hcode := toNat_ofNat hvalid
  simp only [areLetters, Bool.or_eq_true, Bool.and_eq_true, Nat.ble_eq, List.any_eq_true] at h
  rw [isAlphanumeric, hcode]
  rcases h with ⟨hupper, hupper'⟩ | ⟨hbeyond, range, hrange, hwithin⟩
  · rw [if_pos (by omega)]
    simp [isAsciiAlphanumeric, isAsciiLetter, isAsciiUpper, hcode, hupper, hupper']
  · rw [if_neg (by omega)]
    exact Ranges.contains_eq_true letterRanges_ordered hrange (by rwa [hcode])

/-- The image of a code under a run is the code of a letter or digit that is a capital. -/
theorem image?_spec {run : CapitalRun} {n : Nat} (hrun : run ∈ capitalRuns)
    (h : run.image? code = some n) :
    n.isValidChar ∧ IsCapitalCode n ∧ isAlphanumeric (Char.ofNat n) = true := by
  obtain ⟨hletters, hvalid⟩ := capitalRuns_spec run hrun
  obtain ⟨first, last, step, image⟩ := run
  simp only at hletters hvalid
  simp only [CapitalRun.image?, Option.ite_none_right_eq_some, Option.some.injEq] at h
  obtain ⟨⟨hfirst, hlast, hstep⟩, rfl⟩ := h
  have hchar : (image + (code - first)).isValidChar := by
    rcases hvalid with hsmall | ⟨hlarge, hbound⟩
    · exact .inl (by omega)
    · exact .inr ⟨by omega, by omega⟩
  have hletter : areLetters (image + (code - first)) (image + (code - first)) = true := by
    rcases hletters with hall | heach
    · exact areLetters_mono hall (by omega) (by omega)
    · exact heach (code - first) (by omega) hstep
  exact ⟨hchar, isCapitalCode_of_areLetters hletter, isAlphanumeric_of_areLetters hchar hletter⟩

/-- The text of a character alone, when it is a digit or a capital itself. -/
theorem singleton_spec (h : isAsciiDigit d = true ∨ IsCapitalCode d.toNat)
    (hletter : isAlphanumeric d = true) :
    (∀ e ∈ [d], isAsciiDigit e = true ∨ IsCapitalCode e.toNat) ∧
      ∃ e ∈ [d], isAlphanumeric e = true :=
  ⟨List.forall_mem_singleton.mpr h, d, List.mem_singleton_self d, hletter⟩

/-- The capital of a letter or digit consists of digits and capitals, one of which is a letter or
digit again. -/
theorem capitalize_spec (h : isAlphanumeric c = true) :
    (∀ d ∈ capitalize c, isAsciiDigit d = true ∨ IsCapitalCode d.toNat) ∧
      ∃ d ∈ capitalize c, isAlphanumeric d = true := by
  rw [capitalize]
  split
  · rename_i hascii
    have hcode := h
    simp only [isAlphanumeric, if_pos hascii, isAsciiAlphanumeric, isAsciiLetter, isAsciiUpper,
      isAsciiLower, Bool.or_eq_true, Bool.and_eq_true, decide_eq_true_eq] at hcode
    split
    · rename_i hlower
      have hvalid : (c.toNat - 32).isValidChar := .inl (by omega)
      have hupper : areLetters (c.toNat - 32) (c.toNat - 32) = true := by
        simp only [areLetters, Bool.or_eq_true, Bool.and_eq_true, Nat.ble_eq]
        omega
      refine singleton_spec (.inr ?_) (isAlphanumeric_of_areLetters hvalid hupper)
      rw [toNat_ofNat hvalid]
      exact isCapitalCode_of_areLetters hupper
    · rename_i hlower
      refine singleton_spec ?_ h
      rcases hcode with (hupper | hsmall) | hdigit
      · exact .inr (.inl hupper)
      · exact absurd hsmall hlower
      · exact .inl hdigit
  · rename_i hbeyond
    split
    · rename_i entry hfind
      obtain ⟨hall, n, hn, hletter⟩ := longCapitals_spec entry (List.mem_of_find?_eq_some hfind)
      refine ⟨List.forall_mem_map.mpr fun m hm => .inr ?_, _, List.mem_map_of_mem hn,
        isAlphanumeric_of_areLetters (hall n hn).1 hletter⟩
      rw [toNat_ofNat (hall m hm).1]
      exact (hall m hm).2
    · cases himage : capitalRuns.findSome? (·.image? c.toNat) with
      | none => exact singleton_spec (.inr (.inr (Nat.le_of_not_lt hbeyond))) h
      | some n =>
        obtain ⟨run, hrun, hn⟩ := List.exists_of_findSome?_eq_some himage
        obtain ⟨hvalid, hcapital, hletter⟩ := image?_spec hrun hn
        exact singleton_spec (.inr (by rwa [Option.map_some, Option.getD_some, toNat_ofNat hvalid]))
          hletter

end Capitals

end RestThrift.Text
