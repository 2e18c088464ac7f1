import Mathlib
import RestThrift.Text.Blank

/-!
# Texts cut apart

A text is cut at the last occurrence of a separator or at all of them. Pieces without the separator
are found again when their join is cut.
-/
namespace RestThrift

open Text

section Splitting

variable {sep c : Char} {a b text piece x y : List Char} {pre post pieces : List (List Char)}

/-! ## The last occurrence -/

theorem splitLast_append_cons (h : sep ∉ b) : splitLast sep (a ++ sep :: b) = some (a, b) := by
  have hreverse : (a ++ sep :: b).reverse = b.reverse ++ sep :: a.reverse := by simp
  have hpos : ∀ c ∈ b.reverse, decide (c ≠ sep) = true := by
    intro c hc
    exact decide_eq_true fun heq => h (heq ▸ List.mem_reverse.mp hc)
  rw [splitLast, hreverse, List.takeWhile_append_of_pos hpos, List.dropWhile_append_of_pos hpos]
  simp

theorem splitLast_of_not_mem (h : sep ∉ text) : splitLast sep text = none := by
  rw [splitLast, if_neg (by simpa using h)]

theorem exists_last_split (h : sep ∈ text) : ∃ a b, text = a ++ sep :: b ∧ sep ∉ b := by
  obtain ⟨b, a, htext, hb⟩ := List.eq_append_cons_of_mem (List.mem_reverse.mpr h)
  refine ⟨a.reverse, b.reverse, ?_, fun hmem => hb (List.mem_reverse.mp hmem)⟩
  rw [← List.reverse_reverse text, htext]
  simp

/-! ## All occurrences -/

theorem splitAt_ne_nil (sep : Char) (text : List Char) : splitAt sep text ≠ [] := by
  cases text with
  | nil => exact List.cons_ne_nil _ _
  | cons c rest =>
    rw [splitAt]
    split
    · exact List.cons_ne_nil _ _
    · split <;> exact List.cons_ne_nil _ _

theorem splitAt_of_not_mem (h : sep ∉ text) : splitAt sep text = [text] := by
  induction text with
  | nil => rfl
  | cons c rest ih =>
    obtain ⟨hne, hrest⟩ := not_or.mp (List.mem_cons.not.mp h)
    rw [splitAt, if_neg (Ne.symm hne), ih hrest]

theorem mem_of_mem_splitAt (hpiece : piece ∈ splitAt sep text) (hc : c ∈ piece) : c ∈ text := by
  induction text generalizing piece with
  | nil =>
    obtain rfl := List.mem_singleton.mp hpiece
    exact hc
  | cons d rest ih =>
    rw [splitAt] at hpiece
    split at hpiece
    · rcases List.mem_cons.mp hpiece with rfl | hpiece
      · cases hc
      · exact List.mem_cons_of_mem _ (ih hpiece hc)
    · split at hpiece
      · obtain rfl := List.mem_singleton.mp hpiece
        exact List.mem_singleton.mp hc ▸ List.mem_cons_self
      · rename_i first others heq
        rw [heq] at ih
        rcases List.mem_cons.mp hpiece with rfl | hpiece
        · rcases List.mem_cons.mp hc with rfl | hc
          · exact List.mem_cons_self
          · exact List.mem_cons_of_mem _ (ih List.mem_cons_self hc)
        · exact List.mem_cons_of_mem _ (ih (List.mem_cons_of_mem _ hpiece) hc)

theorem splitAt_cons_self (sep : Char) (text : List Char) :
    splitAt sep (sep :: text) = [] :: splitAt sep text := by
  rw [splitAt, if_pos rfl]

theorem splitAt_cons_of_ne (h : c ≠ sep) (hsplit : splitAt sep text = x :: post) :
    splitAt sep (c :: text) = (c :: x) :: post := by
  rw [splitAt, if_neg h, hsplit]

theorem exists_splitAt_first (sep : Char) (text : List Char) :
    ∃ x post, splitAt sep text = x :: post :=
  List.exists_cons_of_ne_nil (splitAt_ne_nil sep text)

theorem exists_splitAt_last (sep : Char) (text : List Char) :
    ∃ pre x, splitAt sep text = pre ++ [x] :=
  ⟨_, _, (List.dropLast_append_getLast (splitAt_ne_nil sep text)).symm⟩

theorem not_mem_of_mem_splitAt (h : x ∈ splitAt sep text) : sep ∉ x := by
  induction text generalizing x with
  | nil =>
    obtain rfl := List.mem_singleton.mp h
    exact List.not_mem_nil
  | cons c rest ih =>
    by_cases hc : c = sep
    · rw [hc, splitAt_cons_self] at h
      rcases List.mem_cons.mp h with rfl | h
      · exact List.not_mem_nil
      · exact ih h
    · obtain ⟨y, post, hsplit⟩ := exists_splitAt_first sep rest
      rw [splitAt_cons_of_ne hc hsplit] at h
      rw [hsplit] at ih
      rcases List.mem_cons.mp h with rfl | h
      · simpa [Ne.symm hc] using ih List.mem_cons_self
      · exact ih (List.mem_cons_of_mem _ h)

/-- The last piece of one text and the first of the next become one piece. -/
theorem exists_splitAt_append (sep : Char) (a : List Char) :
    ∃ pre x, splitAt sep a = pre ++ [x] ∧ ∀ b y post, splitAt sep b = y :: post →
      splitAt sep (a ++ b) = pre ++ (x ++ y) :: post := by
  induction a with
  | nil => exact ⟨[], [], rfl, fun _ _ _ hb => hb⟩
  | cons c rest ih =>
    obtain ⟨pre, x, hrest, happend⟩ := ih
    by_cases hc : c = sep
    · refine ⟨[] :: pre, x, ?_, fun b y post hb => ?_⟩
      · rw [hc, splitAt_cons_self, hrest, List.cons_append]
      · rw [hc, List.cons_append, splitAt_cons_self, happend b y post hb, List.cons_append]
    · cases pre with
      | nil =>
        exact ⟨[], c :: x, splitAt_cons_of_ne hc hrest,
          fun b y post hb => splitAt_cons_of_ne hc (happend b y post hb)⟩
      | cons first others =>
        exact ⟨(c :: first) :: others, x, splitAt_cons_of_ne hc hrest,
          fun b y post hb => splitAt_cons_of_ne hc (happend b y post hb)⟩

theorem splitAt_append (ha : splitAt sep a = pre ++ [x]) (hb : splitAt sep b = y :: post) :
    splitAt sep (a ++ b) = pre ++ (x ++ y) :: post := by
  obtain ⟨others, last, hlast, happend⟩ := exists_splitAt_append sep a
  obtain ⟨rfl, heq⟩ := List.append_inj' (hlast.symm.trans ha) rfl
  obtain rfl := (List.cons.inj heq).1
  exact happend b y post hb

theorem splitAt_append_sep (sep : Char) (a b : List Char) :
    splitAt sep (a ++ sep :: b) = splitAt sep a ++ splitAt sep b := by
  obtain ⟨pre, x, hsplit⟩ := exists_splitAt_last sep a
  rw [splitAt_append hsplit (splitAt_cons_self sep b), hsplit, List.append_nil, List.append_assoc,
    List.singleton_append]

theorem splitAt_append_cons (h : sep ∉ a) : splitAt sep (a ++ sep :: b) = a :: splitAt sep b := by
  rw [splitAt_append_sep, splitAt_of_not_mem h, List.singleton_append]

/-! ## Joins -/

theorem join_cons (h : pieces ≠ []) : join a (piece :: pieces) = piece ++ a ++ join a pieces := by
  cases pieces with
  | nil => exact absurd rfl h
  | cons first rest => rfl

theorem join_splitAt (sep : Char) (text : List Char) : join [sep] (splitAt sep text) = text := by
  induction text with
  | nil => rfl
  | cons c rest ih =>
    rw [splitAt]
    split
    · rename_i heq
      rw [join_cons (splitAt_ne_nil sep rest), ih, heq]
      rfl
    · split
      · rename_i hnil
        exact absurd hnil (splitAt_ne_nil sep rest)
      · rename_i piece pieces heq
        rw [← ih, heq]
        cases pieces <;> rfl

theorem join_append_singleton (h : pieces ≠ []) :
    join [sep] (pieces ++ [b]) = join [sep] pieces ++ sep :: b := by
  induction pieces with
  | nil => exact absurd rfl h
  | cons first rest ih =>
    cases rest with
    | nil => simp [join]
    | cons second others =>
      have hrest : second :: others ≠ [] := List.cons_ne_nil _ _
      rw [List.cons_append, join_cons (List.append_ne_nil_of_left_ne_nil hrest _), ih hrest,
        join_cons hrest]
      simp only [List.append_assoc]

theorem mem_join (h : c ∈ join [sep] pieces) : c = sep ∨ ∃ piece ∈ pieces, c ∈ piece := by
  induction pieces with
  | nil => cases h
  | cons first rest ih =>
    cases rest with
    | nil => exact .inr ⟨first, List.mem_cons_self, h⟩
    | cons second others =>
      rw [join_cons (by simp), List.append_assoc] at h
      rcases List.mem_append.mp h with h | h
      · exact .inr ⟨first, List.mem_cons_self, h⟩
      · rcases List.mem_append.mp h with h | h
        · exact .inl (List.mem_singleton.mp h)
        · refine (ih h).imp_right fun ⟨piece, hpiece, hc⟩ => ?_
          exact ⟨piece, List.mem_cons_of_mem _ hpiece, hc⟩

/-- Pieces without the separator are those that their join is cut into. -/
theorem splitAt_join (hne : pieces ≠ []) (h : ∀ piece ∈ pieces, sep ∉ piece) :
    splitAt sep (join [sep] pieces) = pieces := by
  induction pieces with
  | nil => exact absurd rfl hne
  | cons first rest ih =>
    obtain ⟨hfirst, hothers⟩ := List.forall_mem_cons.mp h
    cases rest with
    | nil => exact splitAt_of_not_mem hfirst
    | cons second others =>
      have hrest : second :: others ≠ [] := List.cons_ne_nil _ _
      rw [join_cons hrest, List.append_assoc, List.singleton_append, splitAt_append_cons hfirst,
        ih hrest hothers]

/-! ## Runs -/

/-- Where a run of characters of one kind ends, it ends in every decomposition of the text. -/
theorem append_inj_of_run {p : Char → Prop} (ha : ∀ c ∈ a, p c) (hb : ∀ c ∈ b, p c)
    (hx : ∀ c ∈ x.head?, ¬ p c) (hy : ∀ c ∈ y.head?, ¬ p c) (h : a ++ x = b ++ y) :
    a = b ∧ x = y := by
  have hnil : ∀ {run others rest : List Char}, (∀ c ∈ run ++ others, p c) →
      (∀ c ∈ (others ++ rest).head?, ¬ p c) → others = [] := by
    intro run others rest hrun hrest
    cases others with
    | nil => rfl
    | cons c more => exact absurd (hrun c (by simp)) (hrest c rfl)
  rcases List.append_eq_append_iff.mp h with ⟨others, rfl, rfl⟩ | ⟨others, rfl, rfl⟩
  · obtain rfl := hnil hb hx
    simp
  · obtain rfl := hnil ha hy
    simp

end Splitting

end RestThrift
