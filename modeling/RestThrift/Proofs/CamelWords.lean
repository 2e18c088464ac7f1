import Mathlib
import RestThrift.Proofs.Naming
import RestThrift.Proofs.Splitting

/-!
# Camel words

A text is cut into camel words and the gaps between them in one way only. Without its repeated words
it is cut into just the pieces that were kept: a word that is dropped ends in the same way as the
equal one before it, so that what follows does not run together with that one.
-/
namespace RestThrift.Naming

open Text

/-- A text cut from left to right. A camel word begins at the first capital and is as long as it can
be, with its capitals first and its tail behind them. A gap reaches up to the next capital. -/
inductive Cut : List Char → List Piece → Prop
  | nil : Cut [] []
  | gap {text rest : List Char} {pieces : List Piece} (hne : text ≠ [])
      (htext : ∀ c ∈ text, isAsciiUpper c = false)
      (hrest : ∀ c ∈ rest.head?, isAsciiUpper c = true) (h : Cut rest pieces) :
      Cut (text ++ rest) (.gap text :: pieces)
  | word {capitals tail rest : List Char} {pieces : List Piece} (hne : capitals ≠ [])
      (hcapitals : ∀ c ∈ capitals, isAsciiUpper c = true)
      (htail : ∀ c ∈ tail, isWordTail c = true)
      (hlast : ∀ c ∈ (tail ++ rest).head?, isAsciiUpper c = false)
      (hrest : ∀ c ∈ rest.head?, isWordTail c = false) (h : Cut rest pieces) :
      Cut (capitals ++ (tail ++ rest)) (.word (capitals ++ tail) :: pieces)

/-- The pieces that are left when some words are deleted, each of which equals the word right before
it. The option holds that word. -/
inductive Deletes : Option (List Char) → List Piece → List Piece → Prop
  | nil {previous : Option (List Char)} : Deletes previous [] []
  | gap {previous : Option (List Char)} {text : List Char} {rest kept : List Piece}
      (h : Deletes none rest kept) : Deletes previous (.gap text :: rest) (.gap text :: kept)
  | keep {previous : Option (List Char)} {text : List Char} {rest kept : List Piece}
      (h : Deletes (some text) rest kept) :
      Deletes previous (.word text :: rest) (.word text :: kept)
  | delete {text : List Char} {rest kept : List Piece} (h : Deletes (some text) rest kept) :
      Deletes (some text) (.word text :: rest) kept

/-! ## The pieces of a text -/

section Pieces

variable {c : Char} {text rest whole : List Char} {pieces others more : List Piece}

theorem isWordTail_of_isAsciiUpper (h : isAsciiUpper c = true) : isWordTail c = false := by
  simp only [isAsciiUpper, isWordTail, isAsciiLower, isAsciiDigit, Bool.and_eq_true,
    decide_eq_true_eq, Bool.or_eq_false_iff, Bool.and_eq_false_iff, decide_eq_false_iff_not] at h ⊢
  omega

namespace Cut

theorem head_of_word (h : Cut whole (.word text :: pieces)) :
    ∀ c ∈ whole.head?, isAsciiUpper c = true := by
  cases h with
  | word hne hcapitals htail hlast hrest h =>
    rw [List.head?_append_of_ne_nil _ hne]
    exact fun c hc => hcapitals c (List.mem_of_mem_head? hc)

theorem cons_word (hc : isAsciiUpper c = true) (h : Cut whole (.word text :: pieces)) :
    Cut (c :: whole) (.word (c :: text) :: pieces) := by
  cases h with
  | word hne hcapitals htail hlast hrest h =>
    exact .word (List.cons_ne_nil _ _) (List.forall_mem_cons.mpr ⟨hc, hcapitals⟩) htail hlast hrest h

theorem cons_gap (hc : isAsciiUpper c = false) (h : Cut whole (.gap text :: pieces)) :
    Cut (c :: whole) (.gap (c :: text) :: pieces) := by
  cases h with
  | gap hne htext hrest h =>
    exact .gap (List.cons_ne_nil _ _) (List.forall_mem_cons.mpr ⟨hc, htext⟩) hrest h

theorem single_gap (hc : isAsciiUpper c = false) (hrest : ∀ c ∈ rest.head?, isAsciiUpper c = true)
    (h : Cut rest pieces) : Cut (c :: rest) (.gap [c] :: pieces) :=
  .gap (List.cons_ne_nil c []) (List.forall_mem_singleton.mpr hc) hrest h

theorem single_word (hc : isAsciiUpper c = true) : Cut [c] [.word [c]] :=
  .word (List.cons_ne_nil c []) (List.forall_mem_singleton.mpr hc) (List.forall_mem_nil _)
    (by simp) (by simp) .nil

/-- A gap without its beginning, which may be empty. -/
theorem gapPiece (htext : ∀ c ∈ text, isAsciiUpper c = false)
    (hrest : ∀ c ∈ rest.head?, isAsciiUpper c = true) (h : Cut rest pieces) :
    Cut (text ++ rest) (Naming.gapPiece text ++ pieces) := by
  cases text with
  | nil => exact h
  | cons c more => exact .gap (List.cons_ne_nil _ _) htext hrest h

/-- A capital in front of a gap takes the tail of its word from it. -/
theorem cons_tail (hc : isAsciiUpper c = true) (h : Cut whole (.gap text :: pieces)) :
    Cut (c :: whole) (.word (c :: text.takeWhile isWordTail) ::
      (Naming.gapPiece (text.dropWhile isWordTail) ++ pieces)) := by
  cases h with
  | @gap _ rest _ hne htext hrest h =>
    have hwhole : text ++ rest =
        text.takeWhile isWordTail ++ (text.dropWhile isWordTail ++ rest) := by
      rw [← List.append_assoc, List.takeWhile_append_dropWhile]
    have hbehind : Cut (text.dropWhile isWordTail ++ rest)
        (Naming.gapPiece (text.dropWhile isWordTail) ++ pieces) :=
      gapPiece (fun d hd => htext d ((List.dropWhile_sublist _).mem hd)) hrest h
    have hlast : ∀ d ∈ (text ++ rest).head?, isAsciiUpper d = false := by
      rw [List.head?_append_of_ne_nil _ hne]
      exact fun d hd => htext d (List.mem_of_mem_head? hd)
    have hend : ∀ d ∈ (text.dropWhile isWordTail ++ rest).head?, isWordTail d = false := by
      intro d hd
      have hnot := List.head?_dropWhile_not isWordTail text
      cases hdrop : text.dropWhile isWordTail with
      | nil =>
        rw [hdrop] at hd
        exact isWordTail_of_isAsciiUpper (hrest d hd)
      | cons e others =>
        rw [hdrop] at hd hnot
        obtain rfl := Option.some.inj hd
        exact hnot
    rw [hwhole] at hlast ⊢
    exact .word (List.cons_ne_nil c []) (List.forall_mem_singleton.mpr hc)
      (fun d hd => List.mem_takeWhile_imp hd) hlast hend hbehind

theorem eq_nil (h : Cut whole []) : whole = [] := by
  cases h
  rfl

end Cut

theorem cut_camelPieces (text : List Char) : Cut text (camelPieces text) := by
  induction text with
  | nil => exact .nil
  | cons c rest ih =>
    rw [camelPieces]
    split <;> rename_i heq <;> rw [heq] at ih
    · split
      · rename_i hc
        exact ih.cons_word hc
      · rename_i hc
        exact ih.single_gap (Bool.eq_false_iff.mpr hc) ih.head_of_word
    · split
      · rename_i hc
        exact ih.cons_tail hc
      · rename_i hc
        exact ih.cons_gap (Bool.eq_false_iff.mpr hc)
    · obtain rfl := ih.eq_nil
      split
      · rename_i hc
        exact .single_word hc
      · rename_i hc
        exact Cut.nil.single_gap (Bool.eq_false_iff.mpr hc) (by simp)

/-- A gap and a word do not begin alike. -/
theorem gap_ne_word {capitals : List Char} (hne : text ≠ [])
    (htext : ∀ c ∈ text, isAsciiUpper c = false) (hcapitals : capitals ≠ [])
    (hupper : ∀ c ∈ capitals, isAsciiUpper c = true) : text ++ rest ≠ capitals ++ whole := by
  obtain ⟨c, others, rfl⟩ := List.exists_cons_of_ne_nil hne
  obtain ⟨d, more, rfl⟩ := List.exists_cons_of_ne_nil hcapitals
  intro heq
  have hc := htext c List.mem_cons_self
  rw [(List.cons.inj heq).1, hupper d List.mem_cons_self] at hc
  cases hc

/-- Each run ends where the next one begins, and so a text is cut in one way. -/
theorem Cut.unique (h : Cut text pieces) (h' : Cut whole others) (hwhole : whole = text) :
    others = pieces := by
  induction h generalizing whole others with
  | nil =>
    cases h' with
    | nil => rfl
    | gap hne => exact absurd (List.append_eq_nil_iff.mp hwhole).1 hne
    | word hne => exact absurd (List.append_eq_nil_iff.mp hwhole).1 hne
  | gap hne htext hrest h ih =>
    cases h' with
    | nil => exact absurd (List.append_eq_nil_iff.mp hwhole.symm).1 hne
    | gap hne' htext' hrest' h' =>
      obtain ⟨rfl, rfl⟩ := append_inj_of_run htext' htext (fun c hc => by simp [hrest' c hc])
        (fun c hc => by simp [hrest c hc]) hwhole
      rw [ih h' rfl]
    | word hne' hcapitals' => exact absurd hwhole.symm (gap_ne_word hne htext hne' hcapitals')
  | word hne hcapitals htail hlast hrest h ih =>
    cases h' with
    | nil => exact absurd (List.append_eq_nil_iff.mp hwhole.symm).1 hne
    | gap hne' htext' => exact absurd hwhole (gap_ne_word hne' htext' hne hcapitals)
    | word hne' hcapitals' htail' hlast' hrest' h' =>
      obtain ⟨rfl, hbehind⟩ := append_inj_of_run hcapitals' hcapitals
        (fun c hc => by simp [hlast' c hc]) (fun c hc => by simp [hlast c hc]) hwhole
      obtain ⟨rfl, rfl⟩ := append_inj_of_run htail' htail (fun c hc => by simp [hrest' c hc])
        (fun c hc => by simp [hrest c hc]) hbehind
      rw [ih h' rfl]

theorem cut_iff : Cut text pieces ↔ camelPieces text = pieces := by
  constructor
  · exact fun h => h.unique (cut_camelPieces text) rfl
  · rintro rfl
    exact cut_camelPieces text

end Pieces

/-! ## Repeated words -/

section Repeats

variable {text : List Char} {pieces : List Piece} {previous : Option (List Char)}

theorem deletes_dropRepeats (previous : Option (List Char)) (pieces : List Piece) :
    Deletes previous pieces (dropRepeats previous pieces) := by
  induction pieces generalizing previous with
  | nil => exact .nil
  | cons piece rest ih =>
    cases piece with
    | gap text => exact .gap (ih none)
    | word text =>
      rw [dropRepeats]
      split
      · rename_i hrepeated
        rw [hrepeated]
        exact .delete (ih (some text))
      · exact .keep (ih (some text))

theorem dropRepeats_idem (previous : Option (List Char)) (pieces : List Piece) :
    dropRepeats previous (dropRepeats previous pieces) = dropRepeats previous pieces := by
  induction pieces generalizing previous with
  | nil => rfl
  | cons piece rest ih =>
    cases piece with
    | gap text => simp only [dropRepeats, ih]
    | word text =>
      by_cases hrepeated : previous = some text
      · simp only [dropRepeats, if_pos hrepeated, ih]
      · simp only [dropRepeats, if_neg hrepeated, ih]

theorem head?_dropRepeats_ne (text : List Char) (pieces : List Piece) :
    (dropRepeats (some text) pieces).head? ≠ some (.word text) := by
  induction pieces with
  | nil => simp [dropRepeats]
  | cons piece rest ih =>
    cases piece with
    | gap other => simp [dropRepeats]
    | word other =>
      rw [dropRepeats]
      split
      · exact ih
      · rename_i hother
        simpa [eq_comm] using hother

theorem dropRepeats_no_repeats (previous : Option (List Char)) (pieces : List Piece)
    (text : List Char) : ¬ [.word text, .word text] <:+: dropRepeats previous pieces := by
  induction pieces generalizing previous with
  | nil => simp [dropRepeats]
  | cons piece rest ih =>
    cases piece with
    | gap other =>
      rw [dropRepeats, List.infix_cons_iff]
      rintro (hfront | hinside)
      · exact Piece.noConfusion (List.cons_prefix_cons.mp hfront).1
      · exact ih none hinside
    | word other =>
      rw [dropRepeats]
      split
      · exact ih previous
      · rw [List.infix_cons_iff]
        rintro (hfront | hinside)
        · obtain ⟨hsame, hnext⟩ := List.cons_prefix_cons.mp hfront
          obtain rfl := Piece.word.inj hsame
          obtain ⟨more, hmore⟩ := hnext
          exact head?_dropRepeats_ne text rest (by rw [← hmore]; rfl)
        · exact ih (some other) hinside

theorem head_of_capitals {capitals rest : List Char} (hne : capitals ≠ [])
    (hcapitals : ∀ c ∈ capitals, isAsciiUpper c = true) :
    ∃ c, (capitals ++ rest).head? = some c ∧ isAsciiUpper c = true := by
  obtain ⟨c, more, rfl⟩ := List.exists_cons_of_ne_nil hne
  exact ⟨c, rfl, hcapitals c List.mem_cons_self⟩

/-- The first piece is kept unless it is a word that is repeated. -/
theorem Cut.head?_dropRepeats (h : Cut text pieces)
    (hkept : previous = none ∨ ∀ c ∈ text.head?, isAsciiUpper c = false) :
    ((dropRepeats previous pieces).flatMap Piece.text).head? = text.head? := by
  cases h with
  | nil => rfl
  | gap hne htext hrest h =>
    rw [Naming.dropRepeats, List.flatMap_cons, Piece.text, List.head?_append_of_ne_nil _ hne,
      List.head?_append_of_ne_nil _ hne]
  | @word capitals tail rest _ hne hcapitals htail hlast hrest h =>
    have hnew : previous ≠ some (capitals ++ tail) := by
      rintro rfl
      obtain ⟨c, hc, hupper⟩ : ∃ c, (capitals ++ (tail ++ rest)).head? = some c ∧
          isAsciiUpper c = true := head_of_capitals hne hcapitals
      rcases hkept with hnone | hlower
      · cases hnone
      · rw [hlower c hc] at hupper
        cases hupper
    rw [Naming.dropRepeats, if_neg hnew, List.flatMap_cons, Piece.text, List.append_assoc,
      List.head?_append_of_ne_nil _ hne, List.head?_append_of_ne_nil _ hne]

/-- What is kept does not begin with the tail of a word if the whole does not. -/
theorem Cut.head_dropRepeats (h : Cut text pieces)
    (hhead : ∀ c ∈ text.head?, isWordTail c = false) (previous : Option (List Char)) :
    ∀ c ∈ ((dropRepeats previous pieces).flatMap Piece.text).head?, isWordTail c = false := by
  induction h generalizing previous with
  | nil => exact fun _ h => nomatch h
  | gap hne htext hrest h ih =>
    rw [Naming.dropRepeats, List.flatMap_cons, Piece.text, List.head?_append_of_ne_nil _ hne]
    rwa [List.head?_append_of_ne_nil _ hne] at hhead
  | word hne hcapitals htail hlast hrest h ih =>
    rw [Naming.dropRepeats]
    split
    · exact ih hrest previous
    · intro c hc
      rw [List.flatMap_cons, Piece.text, List.append_assoc] at hc
      obtain ⟨d, hd, hupper⟩ := head_of_capitals hne hcapitals
      obtain rfl := Option.some.inj (hd.symm.trans hc)
      exact isWordTail_of_isAsciiUpper hupper

/-- The pieces that are kept are those of the text that they make up. -/
theorem Cut.dropRepeats (h : Cut text pieces) (previous : Option (List Char)) :
    Cut ((dropRepeats previous pieces).flatMap Piece.text) (dropRepeats previous pieces) := by
  induction h generalizing previous with
  | nil => exact .nil
  | gap hne htext hrest h ih =>
    rw [Naming.dropRepeats, List.flatMap_cons]
    refine .gap hne htext ?_ (ih none)
    rwa [h.head?_dropRepeats (.inl rfl)]
  | @word capitals tail rest pieces hne hcapitals htail hlast hrest h ih =>
    rw [Naming.dropRepeats]
    split
    · exact ih previous
    · rw [List.flatMap_cons, Piece.text, List.append_assoc]
      refine .word hne hcapitals htail ?_ (h.head_dropRepeats hrest _) (ih _)
      -- a word without a tail is not followed by a word, so that nothing is dropped right behind it
      cases tail with
      | nil =>
        rw [List.nil_append] at hlast ⊢
        rwa [h.head?_dropRepeats (.inr hlast)]
      | cons c more => exact hlast

theorem camelPieces_dedupWords (name : List Char) :
    camelPieces (dedupWords name) = dropRepeats none (camelPieces name) :=
  cut_iff.mp ((cut_camelPieces name).dropRepeats none)

/-- A text is cut into camel words and gaps in one way. Without its repeated words it is cut into
what is left of its pieces when words are deleted that equal the word right before them; no two
equal words are left side by side, and nothing more is dropped the next time. -/
theorem dedupWords_normal_form (name : List Char) :
    (∀ text pieces, Cut text pieces ↔ camelPieces text = pieces) ∧
    Deletes none (camelPieces name) (camelPieces (dedupWords name)) ∧
    (∀ text, ¬ [.word text, .word text] <:+: camelPieces (dedupWords name)) ∧
    dedupWords (dedupWords name) = dedupWords name := by
  refine ⟨fun _ _ => cut_iff, ?_, fun text => ?_, ?_⟩
  · rw [camelPieces_dedupWords]
    exact deletes_dropRepeats none _
  · rw [camelPieces_dedupWords]
    exact dropRepeats_no_repeats none _ text
  · rw [dedupWords, camelPieces_dedupWords, dropRepeats_idem, dedupWords]

/-- Words with digits, a gap that keeps two equal words apart, and capitals without a tail. -/
example : dedupWords "petV2V2V2_V2ABAB".toList = "petV2_V2ABAB".toList := by decide

end Repeats

end RestThrift.Naming
