import Mathlib
import RestThrift.Proofs.Function

/-!
# Identifiers

An identifier is a letter or an underscore with letters, digits and underscores behind it. It is
left open which characters are letters and digits, as long as those of ASCII are among them. For
each way to make a name of a text this tells the texts of which an identifier is made. Names of
fields always are identifiers; a name in Pascal case is empty when the text has neither a letter nor
a digit.
-/
namespace RestThrift

namespace Text

/-- The letters and digits of names, those of ASCII among them. -/
structure Alphabet where
  letter : Char → Prop
  digit : Char → Prop
  letter_of_ascii : ∀ c, isAsciiLetter c = true → letter c
  digit_of_ascii : ∀ c, isAsciiDigit c = true → digit c

/-- A letter or a digit of any script is in the text. -/
def HasAlphanumeric (text : List Char) : Prop := ∃ c ∈ text, isAlphanumeric c = true

theorem hasAlphanumeric_append {a b : List Char} :
    HasAlphanumeric (a ++ b) ↔ HasAlphanumeric a ∨ HasAlphanumeric b := by
  simp only [HasAlphanumeric, List.mem_append, or_and_right, exists_or]

theorem hasAlphanumeric_append_left {a b : String} (h : HasAlphanumeric a.toList) :
    HasAlphanumeric (a ++ b).toList := by
  rw [String.toList_append, hasAlphanumeric_append]
  exact .inl h

theorem ne_empty_of_hasAlphanumeric {name : String} (h : HasAlphanumeric name.toList) :
    name ≠ "" := by
  rintro rfl
  obtain ⟨c, hc, -⟩ := h
  cases hc

namespace Alphabet

/-- The letters and digits of ASCII alone. -/
def ascii : Alphabet where
  letter c := isAsciiLetter c = true
  digit c := isAsciiDigit c = true
  letter_of_ascii _ h := h
  digit_of_ascii _ h := h

variable (A : Alphabet)

/-- The text starts with a letter or an underscore and has letters, digits and underscores only. -/
def IsName (text : List Char) : Prop :=
  (∃ c ∈ text.head?, A.letter c ∨ c = '_') ∧ ∀ c ∈ text, A.letter c ∨ A.digit c ∨ c = '_'

variable {A} {a b text : List Char} {c : Char}

theorem IsName.ne_nil (h : A.IsName text) : text ≠ [] := by
  rintro rfl
  obtain ⟨⟨c, hc, -⟩, -⟩ := h
  cases hc

theorem word_of_isWordChar (h : Naming.isWordChar c = true) :
    A.letter c ∨ A.digit c ∨ c = '_' := by
  simp only [Naming.isWordChar, isAsciiAlphanumeric, Bool.or_eq_true, decide_eq_true_eq] at h
  rcases h with (hletter | hdigit) | rfl
  · exact .inl (A.letter_of_ascii c hletter)
  · exact .inr (.inl (A.digit_of_ascii c hdigit))
  · exact .inr (.inr rfl)

theorem isName_of_isIdentifier (h : Naming.isIdentifier text = true) : A.IsName text := by
  cases text with
  | nil => cases h
  | cons c rest =>
    simp only [Naming.isIdentifier, Bool.and_eq_true, Bool.or_eq_true, decide_eq_true_eq,
      List.all_eq_true] at h
    obtain ⟨hfirst, hrest⟩ := h
    have hletter : A.letter c ∨ c = '_' := hfirst.imp_left (A.letter_of_ascii c)
    refine ⟨⟨c, rfl, hletter⟩, List.forall_mem_cons.mpr ⟨hletter.imp_right .inr, fun d hd => ?_⟩⟩
    exact word_of_isWordChar (hrest d hd)

/-- More characters of identifiers behind a text change nothing. -/
theorem isName_append (ha : a ≠ []) (hb : ∀ c ∈ b, Naming.isWordChar c = true) :
    A.IsName (a ++ b) ↔ A.IsName a := by
  rw [IsName, IsName, List.head?_append_of_ne_nil a ha, List.forall_mem_append,
    and_iff_left fun c hc => word_of_isWordChar (hb c hc)]

/-- The guard lets digits of ASCII stand first. -/
theorem isName_guardDigit : A.IsName (Naming.guardDigit text) ↔
    (∃ c ∈ text.head?, A.letter c ∨ isAsciiDigit c = true ∨ c = '_') ∧
      ∀ c ∈ text, A.letter c ∨ A.digit c ∨ c = '_' := by
  cases text with
  | nil => simp [Naming.guardDigit, IsName]
  | cons c rest =>
    simp only [Naming.guardDigit]
    split
    · rename_i hdigit
      simp [IsName, hdigit]
    · rename_i hdigit
      simp [IsName, hdigit]

end Alphabet

end Text

namespace Naming

open Text

variable {A : Alphabet} {text name : List Char} {c d : Char} {fresh : Bool}

/-! ## Pascal case -/

/-- What stands in Pascal case are letters and digits of the text and their capitals. -/
theorem mem_pascalFrom (h : d ∈ pascalFrom fresh text) :
    ∃ c ∈ text, isAlphanumeric c = true ∧ (d = c ∨ d ∈ capitalize c) := by
  induction text generalizing fresh with
  | nil => cases h
  | cons c rest ih =>
    have hlater : ∀ {fresh}, d ∈ pascalFrom fresh rest →
        ∃ e ∈ c :: rest, isAlphanumeric e = true ∧ (d = e ∨ d ∈ capitalize e) := fun hd => by
      obtain ⟨e, he, hspec⟩ := ih hd
      exact ⟨e, List.mem_cons_of_mem _ he, hspec⟩
    simp only [pascalFrom] at h
    split at h
    · exact hlater h
    · rename_i hc
      have hc : isAlphanumeric c = true := by simpa using hc
      split at h
      · rcases List.mem_append.mp h with hd | hd
        · exact ⟨c, List.mem_cons_self, hc, .inr hd⟩
        · exact hlater hd
      · rcases List.mem_cons.mp h with rfl | hd
        · exact ⟨d, List.mem_cons_self, hc, .inl rfl⟩
        · exact hlater hd

/-- The first character in Pascal case belongs to a capital. -/
theorem head_pascal (h : d ∈ (pascal text).head?) :
    ∃ c ∈ text, isAlphanumeric c = true ∧ d ∈ capitalize c := by
  rw [pascal] at h
  induction text with
  | nil => cases h
  | cons c rest ih =>
    simp only [pascalFrom, if_true] at h
    split at h
    · obtain ⟨e, he, hspec⟩ := ih h
      exact ⟨e, List.mem_cons_of_mem _ he, hspec⟩
    · rename_i hc
      have hc : isAlphanumeric c = true := by simpa using hc
      obtain ⟨-, e, he, -⟩ := capitalize_spec hc
      rw [List.head?_append_of_ne_nil _ (List.ne_nil_of_mem he)] at h
      exact ⟨c, List.mem_cons_self, hc, List.mem_of_mem_head? h⟩

theorem ne_underscore_of_mem_pascal (h : d ∈ pascal text) : d ≠ '_' := by
  rintro rfl
  obtain ⟨c, -, hc, rfl | hd⟩ := mem_pascalFrom h
  · exact absurd hc (by decide)
  · exact absurd ((capitalize_spec hc).1 _ hd) (by decide)

/-- Pascal case keeps a letter or digit of a text that has one. -/
theorem hasAlphanumeric_pascalFrom :
    HasAlphanumeric (pascalFrom fresh text) ↔ HasAlphanumeric text := by
  constructor
  · rintro ⟨d, hd, -⟩
    obtain ⟨c, hc, hletter, -⟩ := mem_pascalFrom hd
    exact ⟨c, hc, hletter⟩
  · induction text generalizing fresh with
    | nil => exact id
    | cons c rest ih =>
      rintro ⟨d, hd, hletter⟩
      simp only [pascalFrom]
      split
      · rename_i hc
        rcases List.mem_cons.mp hd with rfl | hd
        · exact absurd hletter (by simpa using hc)
        · exact ih ⟨d, hd, hletter⟩
      · rename_i hc
        have hc : isAlphanumeric c = true := by simpa using hc
        split
        · obtain ⟨-, e, he, hcapital⟩ := capitalize_spec hc
          exact ⟨e, List.mem_append_left _ he, hcapital⟩
        · exact ⟨c, List.mem_cons_self, hc⟩

theorem hasAlphanumeric_pascal : HasAlphanumeric (pascal text) ↔ HasAlphanumeric text :=
  hasAlphanumeric_pascalFrom

/-- Pascal case is empty exactly when there is neither a letter nor a digit. -/
theorem pascal_eq_nil_iff : pascal text = [] ↔ ¬ HasAlphanumeric text := by
  constructor
  · intro h hletter
    obtain ⟨d, hd, -⟩ := hasAlphanumeric_pascal.mpr hletter
    rw [h] at hd
    cases hd
  · intro h
    refine List.eq_nil_iff_forall_not_mem.mpr fun d hd => h ?_
    obtain ⟨c, hc, hletter, -⟩ := mem_pascalFrom hd
    exact ⟨c, hc, hletter⟩

/-! ## Camel words -/

/-- Words are dropped only behind an equal one, so that no character is lost. -/
theorem subset_dropRepeats (previous : Option (List Char)) (pieces : List Piece) :
    c ∈ pieces.flatMap Piece.text → c ∈ (dropRepeats previous pieces).flatMap Piece.text ∨
      ∃ text, previous = some text ∧ c ∈ text := by
  induction pieces generalizing previous with
  | nil => exact fun h => absurd h List.not_mem_nil
  | cons piece rest ih =>
    intro h
    rw [List.flatMap_cons, List.mem_append] at h
    cases piece with
    | gap text =>
      simp only [dropRepeats, List.flatMap_cons, List.mem_append]
      rcases h with h | h
      · exact .inl (.inl h)
      · rcases ih none h with h | ⟨text, hnone, -⟩
        · exact .inl (.inr h)
        · cases hnone
    | word text =>
      simp only [dropRepeats]
      split
      · rename_i hrepeated
        rcases h with h | h
        · exact .inr ⟨text, hrepeated, h⟩
        · exact ih previous h
      · simp only [List.flatMap_cons, List.mem_append]
        rcases h with h | h
        · exact .inl (.inl h)
        · rcases ih (some text) h with h | ⟨other, hother, h⟩
          · exact .inl (.inr h)
          · obtain rfl := Option.some.inj hother
            exact .inl (.inl h)

theorem subset_dedupWords (text : List Char) : text ⊆ dedupWords text := by
  intro c hc
  rw [← flatMap_camelPieces text] at hc
  rcases subset_dropRepeats none _ hc with hc | ⟨text, hnone, -⟩
  · exact hc
  · cases hnone

theorem mem_dedupWords : c ∈ dedupWords text ↔ c ∈ text :=
  ⟨fun h => dedupWords_subset text h, fun h => subset_dedupWords text h⟩

/-- The first piece begins with the first character. -/
theorem head_camelPieces (c : Char) (rest : List Char) :
    ∃ piece more, camelPieces (c :: rest) = piece :: more ∧ ∃ tail, piece.text = c :: tail := by
  simp only [camelPieces]
  split <;> split <;> exact ⟨_, _, rfl, _, rfl⟩

theorem head?_dedupWords (text : List Char) : (dedupWords text).head? = text.head? := by
  cases text with
  | nil => rfl
  | cons c rest =>
    obtain ⟨piece, more, hpieces, tail, htail⟩ := head_camelPieces c rest
    rw [dedupWords, hpieces]
    cases piece with
    | gap text => simp [dropRepeats, htail]
    | word text => simp [dropRepeats, htail]

/-! ## Names of definitions -/

/-- In Pascal case the text starts with a letter or a digit of ASCII and has letters and digits
only. -/
def Spells (A : Alphabet) (text : List Char) : Prop :=
  (∃ c ∈ (pascal text).head?, A.letter c ∨ isAsciiDigit c = true) ∧
    ∀ c ∈ pascal text, A.letter c ∨ A.digit c

theorem isName_guardDigit_pascal : A.IsName (guardDigit (pascal text)) ↔ Spells A text := by
  rw [Alphabet.isName_guardDigit, Spells]
  refine and_congr (exists_congr fun c => and_congr_right fun hc => ?_)
    (forall₂_congr fun c hc => ?_)
  · have hne := ne_underscore_of_mem_pascal (List.mem_of_mem_head? hc)
    tauto
  · have hne := ne_underscore_of_mem_pascal hc
    tauto

/-- Dropping repeated words changes neither the first character nor which ones there are. -/
theorem isName_definitionName {text : String} :
    A.IsName (definitionName text).toList ↔ Spells A text.toList := by
  rw [definitionName, String.toList_ofList, ← isName_guardDigit_pascal, Alphabet.isName_guardDigit,
    Alphabet.isName_guardDigit, head?_dedupWords]
  simp only [mem_dedupWords]

example : definitionName "3d model model" = "_3dModel" := by decide +kernel

theorem isName_identifier {name : String} : A.IsName (identifier name).toList ↔
    isIdentifier name.toList = true ∨ Spells A name.toList := by
  rw [identifier]
  split
  · rename_i h
    exact iff_of_true (Alphabet.isName_of_isIdentifier h) (.inl h)
  · rename_i h
    rw [String.toList_ofList, isName_guardDigit_pascal, or_iff_right h]

/-- Of texts in ASCII just those without any letter or digit spell nothing. -/
theorem spells_iff_of_ascii (hascii : ∀ c ∈ text, c.toNat < 128) :
    Spells A text ↔ HasAlphanumeric text := by
  -- The capitals of ASCII letters and digits are in ASCII themselves.
  have hcapital : ∀ c ∈ text, isAlphanumeric c = true → ∀ d ∈ capitalize c,
      isAsciiAlphanumeric d = true := by
    intro c hc hletter d hd
    have hcode := hascii c hc
    rw [capitalize, if_pos hcode, List.mem_singleton] at hd
    rw [isAlphanumeric, if_pos hcode] at hletter
    subst hd
    split
    · rename_i hlower
      have hvalid : (c.toNat - 32).isValidChar := .inl (by omega)
      simp only [isAsciiAlphanumeric, isAsciiLetter, isAsciiUpper, toNat_ofNat hvalid,
        Bool.or_eq_true, Bool.and_eq_true, decide_eq_true_eq]
      exact .inl (.inl ⟨by omega, by omega⟩)
    · exact hletter
  have hword : ∀ d, isAsciiAlphanumeric d = true → A.letter d ∨ A.digit d := fun d hd => by
    rw [isAsciiAlphanumeric, Bool.or_eq_true] at hd
    exact hd.imp (A.letter_of_ascii d) (A.digit_of_ascii d)
  have hall : ∀ d ∈ pascal text, A.letter d ∨ A.digit d := by
    intro d hd
    obtain ⟨c, hc, hletter, rfl | hd⟩ := mem_pascalFrom hd
    · rw [isAlphanumeric, if_pos (hascii _ hc)] at hletter
      exact hword d hletter
    · exact hword d (hcapital c hc hletter d hd)
  rw [Spells, and_iff_left hall]
  constructor
  · rintro ⟨d, hd, -⟩
    obtain ⟨c, hc, hletter, -⟩ := head_pascal hd
    exact ⟨c, hc, hletter⟩
  · intro h
    cases hpascal : pascal text with
    | nil => exact absurd h (pascal_eq_nil_iff.mp hpascal)
    | cons d rest =>
      have hd : d ∈ (pascal text).head? := by rw [hpascal]; rfl
      obtain ⟨c, hc, hletter, hmem⟩ := head_pascal hd
      have hdigit := hcapital c hc hletter d hmem
      rw [isAsciiAlphanumeric, Bool.or_eq_true] at hdigit
      exact ⟨d, rfl, hdigit.imp_left (A.letter_of_ascii d)⟩

theorem hasAlphanumeric_guardDigit : HasAlphanumeric (guardDigit text) ↔ HasAlphanumeric text := by
  cases text with
  | nil => rfl
  | cons c rest =>
    have hjoin : isAlphanumeric '_' = false := by decide
    simp only [guardDigit]
    split <;> simp [HasAlphanumeric, hjoin]

theorem hasAlphanumeric_definitionName {text : String} :
    HasAlphanumeric (definitionName text).toList ↔ HasAlphanumeric text.toList := by
  have hdedup : HasAlphanumeric (dedupWords (pascal text.toList)) ↔
      HasAlphanumeric (pascal text.toList) := by
    simp only [HasAlphanumeric, mem_dedupWords]
  rw [definitionName, String.toList_ofList, hasAlphanumeric_guardDigit, hdedup,
    hasAlphanumeric_pascal]

theorem hasAlphanumeric_nestedName {parent field : String} :
    HasAlphanumeric (nestedName parent field).toList ↔
      HasAlphanumeric parent.toList ∨ HasAlphanumeric field.toList := by
  rw [nestedName, hasAlphanumeric_definitionName, String.toList_ofList, hasAlphanumeric_append,
    hasAlphanumeric_pascal, hasAlphanumeric_pascal]

theorem hasAlphanumeric_identifier {name : String} :
    HasAlphanumeric (identifier name).toList ↔ HasAlphanumeric name.toList := by
  rw [identifier]
  split
  · rfl
  · rw [String.toList_ofList, hasAlphanumeric_guardDigit, hasAlphanumeric_pascal]

/-- A text has no name when it is neither an identifier nor has a letter or digit. -/
theorem identifier_eq_empty_iff {name : String} :
    identifier name = "" ↔ isIdentifier name.toList = false ∧ ¬ HasAlphanumeric name.toList := by
  constructor
  · intro h
    have hletter : ¬ HasAlphanumeric name.toList := fun hletter =>
      ne_empty_of_hasAlphanumeric (hasAlphanumeric_identifier.mpr hletter) h
    refine ⟨?_, hletter⟩
    by_contra hidentifier
    rw [identifier, if_pos (by simpa using hidentifier)] at h
    subst h
    exact hidentifier rfl
  · rintro ⟨hidentifier, hletter⟩
    rw [identifier, hidentifier, if_neg Bool.false_ne_true, pascal_eq_nil_iff.mpr hletter]
    rfl

/-! ## Names of fields and members -/

/-- Names of fields are identifiers, whatever they are made of. -/
theorem isIdentifier_fieldName (name : String) : isIdentifier (fieldName name).toList = true := by
  have hclean : ∀ d ∈ name.toList.map (fun c => if isWordChar c then c else '_'),
      isWordChar d = true := by
    intro d hd
    obtain ⟨c, -, rfl⟩ := List.mem_map.mp hd
    split
    · assumption
    · decide
  simp only [fieldName]
  cases hchars : name.toList.map (fun c => if isWordChar c then c else '_') with
  | nil => decide
  | cons c rest =>
    rw [hchars] at hclean
    obtain ⟨hfirst, hrest⟩ := List.forall_mem_cons.mp hclean
    simp only [List.isEmpty_cons, Bool.false_eq_true, if_false, String.toList_ofList, guardDigit]
    split
    · simp [isIdentifier, hfirst, List.all_eq_true.mpr hrest]
    · rename_i hdigit
      simp only [isWordChar, isAsciiAlphanumeric, hdigit, Bool.or_false] at hfirst
      simp [isIdentifier, hfirst, List.all_eq_true.mpr hrest]

theorem hasAlphanumeric_fieldName {name : String} (h : ∃ c ∈ name.toList, isAsciiLetter c = true) :
    HasAlphanumeric (fieldName name).toList := by
  obtain ⟨c, hc, hletter⟩ := h
  have hword : isWordChar c = true := by simp [isWordChar, isAsciiAlphanumeric, hletter]
  simp only [fieldName]
  split
  · exact ⟨'f', by simp, by decide⟩
  · rw [String.toList_ofList, hasAlphanumeric_guardDigit]
    refine ⟨c, List.mem_map.mpr ⟨c, hc, if_pos hword⟩, ?_⟩
    have hascii : c.toNat < 128 := by
      simp only [isAsciiLetter, isAsciiUpper, isAsciiLower, Bool.or_eq_true, Bool.and_eq_true,
        decide_eq_true_eq] at hletter
      omega
    rw [isAlphanumeric, if_pos hascii, isAsciiAlphanumeric, hletter, Bool.true_or]

/-- The text is not empty, does not start with a digit other than those of ASCII, and what it has of
letters and digits belongs to the alphabet. -/
def Labels (A : Alphabet) (text : List Char) : Prop :=
  (∃ c ∈ text.head?, isAlphanumeric c = true → A.letter c ∨ isAsciiDigit c = true) ∧
    ∀ c ∈ text, isAlphanumeric c = true → A.letter c ∨ A.digit c

theorem isName_memberName {text : String} :
    A.IsName (memberName text).toList ↔ Labels A text.toList := by
  have hjoin : isAlphanumeric '_' = false := by decide
  rw [memberName, String.toList_ofList, Alphabet.isName_guardDigit, Labels, List.head?_map]
  simp only [List.forall_mem_map]
  refine and_congr ?_ (forall₂_congr fun c _ => ?_)
  · cases text.toList.head? with
    | none => simp
    | some c =>
      by_cases hc : isAlphanumeric c = true
      · have hne : c ≠ '_' := by
          rintro rfl
          exact absurd hc (by decide)
        simp [hc, hne]
      · simp [hc]
  · by_cases hc : isAlphanumeric c = true
    · have hne : c ≠ '_' := by
        rintro rfl
        exact absurd hc (by decide)
      simp [hc, hne]
    · simp [hc]

/-! ## Names of built-in types -/

/-- Digits and capitals are no small letters of ASCII. -/
theorem isAsciiLower_eq_false (h : isAsciiDigit d = true ∨ IsCapitalCode d.toNat) :
    isAsciiLower d = false := by
  simp only [isAsciiDigit, IsCapitalCode, Bool.and_eq_true, decide_eq_true_eq] at h
  simp only [isAsciiLower, Bool.and_eq_false_iff, decide_eq_false_iff_not]
  omega

/-- No name in Pascal case starts with a small letter of ASCII. -/
theorem head_guardDigit_pascal (h : d ∈ (guardDigit text).head?)
    (htext : text.head? = (pascal name).head?) : isAsciiLower d = false := by
  cases text with
  | nil => cases h
  | cons c rest =>
    simp only [guardDigit] at h
    split at h
    · obtain rfl := Option.some.inj h
      decide
    · obtain rfl := Option.some.inj h
      obtain ⟨e, -, hletter, hd⟩ := head_pascal (htext ▸ rfl : c ∈ (pascal name).head?)
      exact isAsciiLower_eq_false ((capitalize_spec hletter).1 c hd)

theorem primitive_head (p : Primitive) : ∃ c ∈ p.name.toList.head?, isAsciiLower c = true := by
  cases p <;> exact ⟨_, rfl, by decide⟩

theorem definitionName_ne_primitive (text : String) (p : Primitive) :
    definitionName text ≠ p.name := by
  intro h
  obtain ⟨c, hc, hlower⟩ := primitive_head p
  rw [← h, definitionName, String.toList_ofList] at hc
  exact absurd hlower (by simp [head_guardDigit_pascal hc (head?_dedupWords _)])

/-- Only a key that is spelled so asks for the name of a built-in type. -/
theorem identifier_eq_primitive_iff {name : String} {p : Primitive} :
    identifier name = p.name ↔ name = p.name := by
  constructor
  · intro h
    rw [identifier] at h
    split at h
    · exact h
    · obtain ⟨c, hc, hlower⟩ := primitive_head p
      rw [← h, String.toList_ofList] at hc
      exact absurd hlower (by simp [head_guardDigit_pascal hc rfl])
  · rintro rfl
    have hidentifier : isIdentifier p.name.toList = true := by cases p <;> decide
    rw [identifier, if_pos hidentifier]

end Naming

namespace Convert

open Text

variable {A : Alphabet} {base : String} {n : Nat}

/-! ## Numbers behind names -/

theorem isWordChar_of_mem_digits {c : Char} (hc : c ∈ (toString n).toList) :
    Naming.isWordChar c = true := by
  have hdigit := isAsciiDigit_of_mem_digits hc
  simp [Naming.isWordChar, isAsciiAlphanumeric, hdigit]

/-- A number behind a name makes up for nothing but an empty name. -/
theorem isName_numbered : A.IsName (numbered base n).toList ↔
    A.IsName base.toList ∨ base = "" ∧ n ≠ 0 := by
  rw [numbered]
  split
  · rename_i hzero
    simp [hzero]
  · rename_i hnumber
    have hbehind : ∀ c ∈ "_".toList ++ (toString (n + 1)).toList, Naming.isWordChar c = true := by
      refine List.forall_mem_append.mpr ⟨?_, fun c hc => isWordChar_of_mem_digits hc⟩
      simp [Naming.isWordChar]
    rw [String.toList_append, String.toList_append, List.append_assoc]
    by_cases hbase : base = ""
    · subst hbase
      refine iff_of_true ⟨⟨'_', rfl, .inr rfl⟩, fun c hc => ?_⟩ (.inr ⟨rfl, hnumber⟩)
      exact Alphabet.word_of_isWordChar (hbehind c hc)
    · rw [Alphabet.isName_append (by simpa using hbase) hbehind, or_iff_left fun h => hbase h.1]

theorem hasAlphanumeric_numbered (h : HasAlphanumeric base.toList) :
    HasAlphanumeric (numbered base n).toList := by
  rw [numbered]
  split
  · exact h
  · rw [String.append_assoc]
    exact hasAlphanumeric_append_left h

theorem hasAlphanumeric_failureName (code : String) :
    HasAlphanumeric (failureName code).toList := by
  refine Naming.hasAlphanumeric_fieldName ⟨'e', ?_, by decide⟩
  rw [String.toList_append]
  exact List.mem_append_left _ (by simp)

theorem isName_counted (hbase : base ≠ "") :
    A.IsName (counted base n).toList ↔ A.IsName base.toList := by
  rw [counted]
  split
  · rfl
  · rw [String.toList_append]
    exact Alphabet.isName_append (by simpa using hbase) fun c hc => isWordChar_of_mem_digits hc

theorem numbered_eq_primitive_iff {p : Primitive} :
    numbered base n = p.name ↔ base = p.name ∧ n = 0 := by
  constructor
  · intro h
    rw [numbered] at h
    split at h
    · exact ⟨h, by assumption⟩
    · have hjoin : '_' ∈ p.name.toList := by
        rw [← h]
        simp
      cases p <;> exact absurd hjoin (by decide)
  · rintro ⟨rfl, rfl⟩
    rfl

end Convert

end RestThrift
