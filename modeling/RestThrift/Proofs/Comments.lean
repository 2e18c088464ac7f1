import Mathlib
import RestThrift.Proofs.IncludePaths
import RestThrift.Thrift.Writer

/-!
# Comments that end where they close

The comment of a description starts and ends with the delimiters of a block comment and shows the
trimmed lines of the description between them. The description is not escaped: a closing delimiter
inside it closes the comment early.
-/
namespace RestThrift

open Text

/-! ## Cutting at both ends -/

section Strip

variable {α : Type} {p : α → Bool} {a : α} {l front back : List α}

/-- What is left when the elements that satisfy `p` are dropped at both ends. -/
def strip (p : α → Bool) (l : List α) : List α := (l.dropWhile p).rdropWhile p

theorem trim_eq_strip (text : List Char) : trim text = strip isBlank text := rfl

theorem strip_cons (h : p a = true) : strip p (a :: l) = strip p l := by
  rw [strip, strip, List.dropWhile_cons_of_pos h]

theorem strip_concat (h : p a = true) : strip p (l ++ [a]) = strip p l := by
  rw [strip, strip, List.dropWhile_append]
  split
  · rename_i hempty
    rw [List.isEmpty_iff.mp hempty, List.dropWhile_cons_of_pos h]
    rfl
  · rw [List.rdropWhile_concat_pos _ _ _ h]

theorem strip_eq_nil_iff : strip p l = [] ↔ ∀ a ∈ l, p a = true := by
  rw [strip, List.rdropWhile_eq_nil_iff]
  constructor
  · intro h a ha
    rw [← List.takeWhile_append_dropWhile (p := p) (l := l)] at ha
    rcases List.mem_append.mp ha with ha | ha
    · exact List.mem_takeWhile_imp ha
    · exact h a ha
  · exact fun h a ha => h a ((List.dropWhile_sublist p).mem ha)

theorem exists_strip (p : α → Bool) (l : List α) : ∃ front back, l = front ++ strip p l ++ back ∧
    (∀ a ∈ front, p a = true) ∧ ∀ a ∈ back, p a = true := by
  refine ⟨l.takeWhile p, (l.dropWhile p).rtakeWhile p, ?_,
    fun a ha => List.mem_takeWhile_imp ha, fun a ha => List.mem_rtakeWhile_imp ha⟩
  rw [strip, List.append_assoc, List.rdropWhile_append_rtakeWhile, List.takeWhile_append_dropWhile]

theorem mem_of_mem_strip (h : a ∈ strip p l) : a ∈ l := by
  obtain ⟨front, back, hl, -, -⟩ := exists_strip p l
  rw [hl]
  exact List.mem_append_left _ (List.mem_append_right _ h)

theorem mem_strip_of_mem (h : a ∈ l) (ha : p a = false) : a ∈ strip p l := by
  obtain ⟨front, back, hl, hfront, hback⟩ := exists_strip p l
  rw [hl] at h
  rcases List.mem_append.mp h with h | h
  · rcases List.mem_append.mp h with h | h
    · rw [hfront a h] at ha
      exact absurd ha (by decide)
    · exact h
  · rw [hback a h] at ha
    exact absurd ha (by decide)

theorem strip_eq_self (hhead : ∀ a rest, l = a :: rest → p a = false)
    (hlast : ∀ a rest, l = rest ++ [a] → p a = false) : strip p l = l := by
  cases l with
  | nil => rfl
  | cons a rest =>
    rw [strip, List.dropWhile_cons_of_neg (by simp [hhead a rest rfl]), List.rdropWhile_eq_self_iff]
    intro hne
    rw [hlast _ _ (List.dropLast_append_getLast hne).symm]
    exact Bool.false_ne_true

theorem strip_head {rest : List α} (h : strip p l = a :: rest) : p a = false := by
  obtain ⟨others, hothers⟩ : ∃ others, l.dropWhile p = a :: others := by
    have hprefix := List.rdropWhile_prefix p (l.dropWhile p)
    rw [← strip, h] at hprefix
    obtain ⟨t, ht⟩ := hprefix
    exact ⟨rest ++ t, ht.symm⟩
  have hnot := List.head?_dropWhile_not p l
  rw [hothers] at hnot
  exact hnot

theorem strip_last {rest : List α} (h : strip p l = rest ++ [a]) : p a = false := by
  have hcut : (l.dropWhile p).rdropWhile p = rest ++ [a] := h
  have hnot := List.rdropWhile_last_not p (l.dropWhile p) (by simp [hcut])
  simpa [hcut] using hnot

theorem strip_strip (p : α → Bool) (l : List α) : strip p (strip p l) = strip p l :=
  strip_eq_self (fun _ _ => strip_head) (fun _ _ => strip_last)

end Strip

/-! ## Lines of a text -/

section Splitting

variable {sep c : Char} {a b text line x y : List Char} {pre post pieces : List (List Char)}

/-- A pattern without `c` does not reach across a `c`. -/
theorem prefix_append_cons_iff {pattern : List Char} (h : c ∉ pattern) :
    pattern <+: a ++ c :: b ↔ pattern <+: a := by
  constructor
  · intro hprefix
    by_cases hlength : pattern.length ≤ a.length
    · exact List.prefix_of_prefix_length_le hprefix (List.prefix_append _ _) hlength
    · refine absurd ?_ h
      have hlong : a ++ [c] <+: pattern := by
        refine List.prefix_of_prefix_length_le ?_ hprefix (by simp; omega)
        exact ⟨b, by simp⟩
      exact hlong.subset (by simp)
  · exact fun hprefix => hprefix.trans (List.prefix_append _ _)

theorem infix_append_cons_iff {pattern : List Char} (h : c ∉ pattern) :
    pattern <:+: a ++ c :: b ↔ pattern <:+: a ∨ pattern <:+: b := by
  induction a with
  | nil =>
    rw [List.nil_append, List.infix_cons_iff, ← List.nil_append (c :: b), prefix_append_cons_iff h,
      List.prefix_nil, List.infix_nil]
  | cons d rest ih =>
    rw [List.cons_append, List.infix_cons_iff, ih, ← List.cons_append, prefix_append_cons_iff h,
      List.infix_cons_iff, or_assoc]

theorem infix_of_infix_foreign {pattern other : List Char} (h : ∀ c ∈ other, c ∉ pattern)
    (hinside : pattern <:+: other) : pattern <:+: text := by
  cases pattern with
  | nil => exact List.nil_infix
  | cons c rest =>
    exact absurd List.mem_cons_self (h c (hinside.subset List.mem_cons_self))

/-- Characters that are not in a pattern can be left out at both ends. -/
theorem infix_append_left_iff {pattern : List Char} (h : ∀ c ∈ a, c ∉ pattern) :
    pattern <:+: a ++ text ↔ pattern <:+: text := by
  induction a with
  | nil => rfl
  | cons c rest ih =>
    obtain ⟨hc, hrest⟩ := List.forall_mem_cons.mp h
    have hnil : pattern <:+: [] → pattern <:+: text := infix_of_infix_foreign (by simp)
    rw [List.cons_append, ← List.nil_append (c :: _), infix_append_cons_iff hc, ih hrest]
    exact or_iff_right_of_imp hnil

theorem infix_append_right_iff {pattern : List Char} (h : ∀ c ∈ b, c ∉ pattern) :
    pattern <:+: text ++ b ↔ pattern <:+: text := by
  cases b with
  | nil => rw [List.append_nil]
  | cons c rest =>
    obtain ⟨hc, hrest⟩ := List.forall_mem_cons.mp h
    rw [infix_append_cons_iff hc]
    exact or_iff_left_of_imp (infix_of_infix_foreign hrest)

/-- A pattern within a text is within one of its lines. -/
theorem infix_iff_splitAt {pattern : List Char} (h : sep ∉ pattern) :
    pattern <:+: text ↔ ∃ piece ∈ splitAt sep text, pattern <:+: piece := by
  have hjoin : ∀ pieces ≠ [], pattern <:+: join [sep] pieces ↔
      ∃ piece ∈ pieces, pattern <:+: piece := by
    intro pieces hne
    induction pieces with
    | nil => exact absurd rfl hne
    | cons first rest ih =>
      cases rest with
      | nil => simp [join]
      | cons second others =>
        rw [join_cons (List.cons_ne_nil _ _), List.append_assoc, List.singleton_append,
          infix_append_cons_iff h, ih (List.cons_ne_nil _ _)]
        simp only [List.exists_mem_cons_iff]
  rw [← hjoin _ (splitAt_ne_nil sep text), join_splitAt]

end Splitting

/-! ## Trimmed lines -/

/-- The lines of a text, trimmed, without the empty ones at both ends. A carriage return before a
line feed is blank. -/
def trimmedLines (text : List Char) : List (List Char) :=
  strip List.isEmpty ((splitAt '\n' text).map trim)

section TrimmedLines

variable {c : Char} {text front back : List Char}

theorem trim_idem (text : List Char) : trim (trim text) = trim text := strip_strip isBlank text

theorem trimmedLines_cons (hc : isBlank c = true) :
    trimmedLines (c :: text) = trimmedLines text := by
  rw [trimmedLines, trimmedLines]
  by_cases heq : c = '\n'
  · rw [heq, splitAt_cons_self]
    exact strip_cons rfl
  · obtain ⟨piece, pieces, hsplit⟩ := exists_splitAt_first '\n' text
    rw [splitAt_cons_of_ne heq hsplit, hsplit, List.map_cons, List.map_cons, trim_eq_strip,
      strip_cons hc, ← trim_eq_strip]

theorem trimmedLines_concat (hc : isBlank c = true) :
    trimmedLines (text ++ [c]) = trimmedLines text := by
  obtain ⟨pieces, piece, hsplit⟩ := exists_splitAt_last '\n' text
  rw [trimmedLines, trimmedLines, hsplit, List.map_append]
  by_cases heq : c = '\n'
  · rw [heq, splitAt_append hsplit (splitAt_cons_self _ _), List.append_nil, splitAt,
      List.append_cons, List.map_append, List.map_append]
    exact strip_concat rfl
  · have hplain : splitAt '\n' [c] = [[c]] :=
      splitAt_of_not_mem (by simpa using Ne.symm heq)
    rw [splitAt_append hsplit hplain, List.map_append, List.map_singleton, List.map_singleton,
      trim_eq_strip, strip_concat hc, ← trim_eq_strip]

theorem trimmedLines_append_left (h : ∀ c ∈ front, isBlank c = true) :
    trimmedLines (front ++ text) = trimmedLines text := by
  induction front with
  | nil => rfl
  | cons c rest ih =>
    obtain ⟨hc, hrest⟩ := List.forall_mem_cons.mp h
    rw [List.cons_append, trimmedLines_cons hc, ih hrest]

theorem trimmedLines_append_right (h : ∀ c ∈ back, isBlank c = true) :
    trimmedLines (text ++ back) = trimmedLines text := by
  induction back using List.reverseRecOn with
  | nil => rw [List.append_nil]
  | append_singleton rest c ih =>
    obtain ⟨hrest, hc⟩ := List.forall_mem_append.mp h
    rw [← List.append_assoc, trimmedLines_concat (hc c (List.mem_singleton_self c)), ih hrest]

theorem trimmedLines_trim (text : List Char) : trimmedLines (trim text) = trimmedLines text := by
  obtain ⟨front, back, htext, hfront, hback⟩ := exists_strip isBlank text
  rw [← trim_eq_strip] at htext
  calc trimmedLines (trim text) = trimmedLines (front ++ (trim text ++ back)) := by
        rw [trimmedLines_append_left hfront, trimmedLines_append_right hback]
    _ = trimmedLines text := by rw [← List.append_assoc, ← htext]

theorem isEmpty_trim_eq_false {line : List Char} (hc : c ∈ line) (hvisible : isBlank c = false) :
    (trim line).isEmpty = false := by
  rw [List.isEmpty_eq_false_iff, trim_eq_strip, Ne, strip_eq_nil_iff]
  intro hblank
  rw [hblank c hc] at hvisible
  exact absurd hvisible (by decide)

theorem ne_lineFeed_of_visible (hvisible : isBlank c = false) : c ≠ '\n' := by
  rintro rfl
  exact absurd hvisible (by decide)

theorem exists_splitAt_cons (hvisible : isBlank c = false) (text : List Char) :
    ∃ piece pieces, splitAt '\n' (c :: text) = (c :: piece) :: pieces := by
  obtain ⟨piece, pieces, hsplit⟩ := exists_splitAt_first '\n' text
  exact ⟨piece, pieces, splitAt_cons_of_ne (ne_lineFeed_of_visible hvisible) hsplit⟩

theorem exists_splitAt_concat (hvisible : isBlank c = false) (text : List Char) :
    ∃ pieces piece, splitAt '\n' (text ++ [c]) = pieces ++ [piece ++ [c]] := by
  obtain ⟨pieces, piece, hsplit⟩ := exists_splitAt_last '\n' text
  have hmem : '\n' ∉ [c] := by simpa using Ne.symm (ne_lineFeed_of_visible hvisible)
  exact ⟨pieces, piece, splitAt_append hsplit (splitAt_of_not_mem hmem)⟩

/-- A text that starts and ends with visible characters keeps its first and its last line. -/
theorem trimmedLines_of_trimmed (hne : text ≠ []) (htrim : trim text = text) :
    trimmedLines text = (splitAt '\n' text).map trim := by
  refine strip_eq_self (fun line rest hlines => ?_) (fun line rest hlines => ?_)
  · obtain ⟨c, others, rfl⟩ := List.exists_cons_of_ne_nil hne
    have hvisible : isBlank c = false := strip_head htrim
    obtain ⟨piece, pieces, hsplit⟩ := exists_splitAt_cons hvisible others
    rw [hsplit, List.map_cons] at hlines
    rw [← (List.cons.inj hlines).1]
    exact isEmpty_trim_eq_false List.mem_cons_self hvisible
  · obtain ⟨others, c, rfl⟩ : ∃ others c, text = others ++ [c] :=
      ⟨_, _, (List.dropLast_append_getLast hne).symm⟩
    have hvisible : isBlank c = false := strip_last htrim
    obtain ⟨pieces, piece, hsplit⟩ := exists_splitAt_concat hvisible others
    rw [hsplit, List.map_append] at hlines
    rw [← (List.cons.inj (List.append_inj' hlines rfl).2).1]
    exact isEmpty_trim_eq_false (List.mem_append_right _ (List.mem_singleton_self c)) hvisible

theorem trim_dropReturn (line : List Char) : trim (dropReturn line) = trim line := by
  rw [dropReturn]
  split
  · rename_i rest hreverse
    have hline : line = rest.reverse ++ ['\r'] := by
      rw [← List.reverse_reverse line, hreverse, List.reverse_cons]
    rw [hline, trim_eq_strip, trim_eq_strip, strip_concat (by decide)]
  · rfl

theorem map_trim_lines (hne : text ≠ []) (htrim : trim text = text) :
    (lines text).map trim = (splitAt '\n' text).map trim := by
  obtain ⟨others, c, rfl⟩ : ∃ others c, text = others ++ [c] :=
    ⟨_, _, (List.dropLast_append_getLast hne).symm⟩
  obtain ⟨pieces, piece, hsplit⟩ := exists_splitAt_concat (strip_last htrim) others
  obtain ⟨d, rest, hlast⟩ : ∃ d rest, piece ++ [c] = d :: rest :=
    List.exists_cons_of_ne_nil (by simp)
  have hlines : lines (others ++ [c]) = pieces.map dropReturn ++ [piece ++ [c]] := by
    simp only [lines, hsplit, List.getLast?_concat, List.dropLast_concat, hlast]
  rw [hlines, hsplit, List.map_append, List.map_append, List.map_map]
  congr 1
  exact List.map_congr_left fun line _ => trim_dropReturn line

end TrimmedLines

/-! ## Layouts -/

def starred (lines : List (List Char)) : List Char :=
  lines.flatMap fun line => [' ', '*', ' '] ++ line ++ ['\n']

/-- One line between the delimiters, or one starred line for each line. -/
def commentLayout : List (List Char) → List Char
  | [line] => ['/', '*', '*', ' '] ++ line ++ [' ', '*', '/']
  | lines => ['/', '*', '*'] ++ '\n' :: (starred lines ++ [' ', '*', '/'])

theorem flatMap_starredLine (lines : List (List Char)) :
    lines.flatMap starredLine = starred (lines.map trim) := by
  rw [starred, List.flatMap_map]
  rfl

theorem eq_of_map_splitAt {sep : Char} {text line : List Char} (htrim : trim text = text)
    (h : (splitAt sep text).map trim = [line]) : line = text := by
  obtain ⟨piece, hpiece, rfl⟩ := List.map_eq_singleton_iff.mp h
  have hjoin := join_splitAt sep text
  rw [hpiece, join] at hjoin
  rw [hjoin, htrim]

theorem describedText_eq (description : List Char) : describedText description =
    if trim description = [] then none else some (commentLayout (trimmedLines description)) := by
  rw [describedText]
  simp only [List.isEmpty_iff]
  split
  · rfl
  · rename_i hne
    have htrim := trim_idem description
    have hlines := map_trim_lines hne htrim
    rw [← trimmedLines_trim, trimmedLines_of_trimmed hne htrim]
    split
    · rename_i line hline
      rw [hline, List.map_singleton] at hlines
      rw [← hlines, eq_of_map_splitAt htrim hlines.symm]
      rfl
    · rename_i hmany
      rw [← hlines, commentLayout]
      · simp [flatMap_starredLine]
      · intro line hline
        obtain ⟨piece, hpiece, -⟩ := List.map_eq_singleton_iff.mp hline
        exact hmany piece hpiece

/-- Where a block comment ends. -/
def closer : List Char := ['*', '/']

theorem lineFeed_not_mem_closer : '\n' ∉ closer := by decide

namespace Comment

/-- The text starts and ends with the delimiters of a block comment, which do not overlap. -/
def IsDelimited (comment : Comment) : Prop :=
  ∃ body, comment.text.toList = ['/', '*', '*'] ++ body ++ closer

/-- The text holds no closing delimiter but the one it ends with. -/
def ClosesOnce (comment : Comment) : Prop :=
  ∀ front back, comment.text.toList = front ++ closer ++ back → back = []

/-- The lines between the delimiters, without their decoration. -/
def shownLines (comment : Comment) : List (List Char) :=
  match splitAt '\n' comment.text.toList with
  | [line] => [(line.drop 4).rdrop 3]
  | lines => lines.tail.dropLast.map (·.drop 3)

end Comment

section Layout

variable {line last text : List Char} {lines : List (List Char)} {comment : Comment}

/-- The starred lines of a block stand between its first and its last line. -/
theorem splitAt_block (hlines : ∀ line ∈ lines, '\n' ∉ line) (hlast : '\n' ∉ last) :
    splitAt '\n' (starred lines ++ last) = lines.map ([' ', '*', ' '] ++ ·) ++ [last] := by
  induction lines with
  | nil => exact splitAt_of_not_mem hlast
  | cons line rest ih =>
    obtain ⟨hline, hrest⟩ := List.forall_mem_cons.mp hlines
    have hstarred : '\n' ∉ [' ', '*', ' '] ++ line := by simp [hline]
    have hsplit : starred (line :: rest) ++ last =
        ([' ', '*', ' '] ++ line) ++ '\n' :: (starred rest ++ last) := by simp [starred]
    rw [hsplit, splitAt_append_cons hstarred, ih hrest]
    rfl

theorem closer_infix_starred : closer <:+: [' ', '*', ' '] ++ line ↔ closer <:+: line := by
  have hsplit : [' ', '*', ' '] ++ line = [' ', '*'] ++ ' ' :: line := rfl
  rw [hsplit, infix_append_cons_iff (by decide)]
  exact or_iff_right_of_imp fun h => absurd h (by decide)

/-- Up to its last character, a layout holds a closing delimiter where one of the lines does. -/
theorem exists_commentLayout (hlines : ∀ line ∈ lines, '\n' ∉ line) :
    ∃ init, commentLayout lines = init ++ ['/'] ∧
      (closer <:+: init ↔ ∃ line ∈ lines, closer <:+: line) := by
  rw [commentLayout.eq_def]
  split
  · rename_i line
    refine ⟨['/', '*', '*'] ++ ' ' :: (line ++ ' ' :: ['*']), by simp, ?_⟩
    have hopen : ¬ closer <:+: ['/', '*', '*'] := by decide
    have hclose : ¬ closer <:+: ['*'] := by decide
    rw [infix_append_cons_iff (by decide), infix_append_cons_iff (by decide)]
    simp [hopen, hclose]
  · refine ⟨['/', '*', '*'] ++ '\n' :: (starred lines ++ [' ', '*']), by simp, ?_⟩
    have hopen : ¬ closer <:+: ['/', '*', '*'] := by decide
    have hclose : ¬ closer <:+: [' ', '*'] := by decide
    have hblock : closer <:+: starred lines ++ [' ', '*'] ↔ ∃ line ∈ lines, closer <:+: line := by
      rw [infix_iff_splitAt lineFeed_not_mem_closer, splitAt_block hlines (by decide)]
      simp only [List.mem_append, List.mem_map, List.mem_singleton, or_and_right, exists_or,
        exists_eq_left, exists_exists_and_eq_and, closer_infix_starred, hclose, or_false]
    rw [infix_append_cons_iff (by decide), hblock, or_iff_right hopen]

theorem Comment.closesOnce_iff {init : List Char} (htext : comment.text.toList = init ++ ['/']) :
    comment.ClosesOnce ↔ ¬ closer <:+: init := by
  constructor
  · rintro honce ⟨front, back, rfl⟩
    have hback := honce front (back ++ ['/']) (by rw [htext, List.append_assoc])
    exact absurd hback (by simp)
  · intro hinit front back hsplit
    rcases List.eq_nil_or_concat back with rfl | ⟨others, c, rfl⟩
    · rfl
    · rw [htext, List.concat_eq_append, ← List.append_assoc] at hsplit
      exact absurd ⟨front, others, (List.append_inj' hsplit rfl).1.symm⟩ hinit

theorem Comment.shownLines_eq (hlines : ∀ line ∈ lines, '\n' ∉ line)
    (htext : comment.text.toList = commentLayout lines) : comment.shownLines = lines := by
  rw [commentLayout.eq_def] at htext
  split at htext
  · rename_i line
    have hline : '\n' ∉ ['/', '*', '*', ' '] ++ line ++ [' ', '*', '/'] := by
      simp [hlines line (List.mem_singleton_self line)]
    rw [shownLines, htext, splitAt_of_not_mem hline]
    simp [List.rdrop]
  · obtain ⟨first, rest, hblock⟩ : ∃ first rest,
        lines.map ([' ', '*', ' '] ++ ·) ++ [[' ', '*', '/']] = first :: rest :=
      List.exists_cons_of_ne_nil (by simp)
    have hpieces : splitAt '\n' comment.text.toList = ['/', '*', '*'] :: first :: rest := by
      rw [htext, splitAt_append_cons (by decide), splitAt_block hlines (by decide), hblock]
    have hshown : comment.shownLines = (first :: rest).dropLast.map (·.drop 3) := by
      rw [shownLines, hpieces]
      rfl
    rw [hshown, ← hblock, List.dropLast_concat, List.map_map]
    exact List.map_id'' (fun line => rfl) lines

/-- A comment that ends with its delimiter is written as it is. -/
theorem Comment.join_commentLines {init : List Char} (htext : comment.text.toList = init ++ ['/']) :
    join ['\n'] ((commentLines comment).map String.toList) = comment.text.toList := by
  have hend : dropEnd (fun c => c = '\r' || c = '\n') comment.text.toList =
      comment.text.toList := by
    rw [htext]
    exact List.rdropWhile_concat_neg _ _ _ (by decide)
  have hpieces : (commentLines comment).map String.toList = splitAt '\n' comment.text.toList := by
    rw [commentLines, hend, List.map_map]
    exact List.map_id'' (fun line => String.toList_ofList) _
  rw [hpieces, join_splitAt]

theorem Comment.isDelimited (htext : comment.text.toList = commentLayout lines) :
    comment.IsDelimited := by
  rw [IsDelimited, htext, commentLayout.eq_def]
  split
  · rename_i line
    exact ⟨' ' :: (line ++ [' ']), by simp [closer]⟩
  · exact ⟨'\n' :: (starred lines ++ [' ']), by simp [closer]⟩

end Layout

/-! ## Comments of descriptions -/

section Descriptions

variable {text line : List Char} {comment : Comment}

theorem lineFeed_not_mem_trimmedLines (h : line ∈ trimmedLines text) : '\n' ∉ line := by
  obtain ⟨piece, hpiece, rfl⟩ := List.mem_map.mp (mem_of_mem_strip h)
  exact fun hmem => not_mem_of_mem_splitAt hpiece (mem_of_mem_strip hmem)

theorem closer_infix_trim : closer <:+: trim line ↔ closer <:+: line := by
  have hforeign : ∀ c, isBlank c = true → c ∉ closer := by
    intro c hc hmem
    rcases List.mem_pair.mp hmem with rfl | rfl <;> exact absurd hc (by decide)
  obtain ⟨front, back, hline, hfront, hback⟩ := exists_strip isBlank line
  rw [← trim_eq_strip] at hline
  conv_rhs => rw [hline]
  rw [infix_append_right_iff fun c hc => hforeign c (hback c hc),
    infix_append_left_iff fun c hc => hforeign c (hfront c hc)]

/-- A closing delimiter of a description is in one of its trimmed lines. -/
theorem closer_infix_trimmedLines :
    (∃ line ∈ trimmedLines text, closer <:+: line) ↔ closer <:+: text := by
  rw [infix_iff_splitAt lineFeed_not_mem_closer]
  constructor
  · rintro ⟨line, hline, hinside⟩
    obtain ⟨piece, hpiece, rfl⟩ := List.mem_map.mp (mem_of_mem_strip hline)
    exact ⟨piece, hpiece, closer_infix_trim.mp hinside⟩
  · rintro ⟨piece, hpiece, hinside⟩
    have htrim := closer_infix_trim.mpr hinside
    have hvisible : (trim piece).isEmpty = false := by
      rw [List.isEmpty_eq_false_iff]
      intro hempty
      rw [hempty] at htrim
      exact absurd htrim (by decide)
    exact ⟨trim piece, mem_strip_of_mem (List.mem_map_of_mem hpiece) hvisible, htrim⟩

end Descriptions

/-- A description is blank and has no comment, or it has one comment, between the delimiters of a
block comment, that shows the trimmed lines of the description in order and is written line by
line as it is. The comment closes only at its end if and only if the description holds no closing
delimiter. -/
theorem Comment.ofDescription_shows_lines (description : String) :
    ((∀ c ∈ description.toList, isBlank c = true) ∧ Comment.ofDescription description = []) ∨
    ((∃ c ∈ description.toList, isBlank c = false) ∧
      ∃ comment, Comment.ofDescription description = [comment] ∧ comment.IsDelimited ∧
        comment.shownLines = trimmedLines description.toList ∧
        join ['\n'] ((commentLines comment).map String.toList) = comment.text.toList ∧
        (comment.ClosesOnce ↔ ¬ closer <:+: description.toList)) := by
  rw [ofDescription, describedText_eq]
  by_cases hblank : trim description.toList = []
  · rw [if_pos hblank]
    exact .inl ⟨strip_eq_nil_iff.mp hblank, rfl⟩
  · rw [if_neg hblank]
    have hlines : ∀ line ∈ trimmedLines description.toList, '\n' ∉ line :=
      fun line => lineFeed_not_mem_trimmedLines
    obtain ⟨init, hinit, hcloser⟩ := exists_commentLayout hlines
    let lines := trimmedLines description.toList
    let comment : Comment := { text := String.ofList (commentLayout lines) }
    have htext : comment.text.toList = commentLayout lines :=
      String.toList_ofList
    refine .inr ⟨?_, comment, rfl, Comment.isDelimited htext, Comment.shownLines_eq hlines htext,
      Comment.join_commentLines (htext.trans hinit), ?_⟩
    · simpa [trim_eq_strip, strip_eq_nil_iff] using hblank
    · rw [Comment.closesOnce_iff (htext.trans hinit), hcloser, closer_infix_trimmedLines]

/-- A description with a closing delimiter inside. -/
theorem ofDescription_not_closesOnce : ∃ comment, Comment.ofDescription "a */ b" = [comment] ∧
    comment.text = "/** a */ b */" ∧ ¬ comment.ClosesOnce := by
  refine ⟨{ text := "/** a */ b */" }, by decide +kernel, rfl, fun honce => ?_⟩
  have hback := honce "/** a ".toList " b */".toList (by decide)
  exact absurd hback (by decide)

end RestThrift
