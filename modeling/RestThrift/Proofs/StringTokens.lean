import Mathlib
import RestThrift.Proofs.IncludePaths
import RestThrift.Proofs.Printing
import RestThrift.Proofs.Quoting

/-!
# Annotation values as string tokens

A string token is read from the left: a backslash takes the next character along, and the first
other quote ends the token. A text passes for a value as soon as it starts and ends with a quote,
whatever stands between them. Values that were made by quoting are single tokens.
-/
namespace RestThrift

open Text

/-! ## Reading a token -/

/-- The characters up to the quote that ends a token, and what follows that quote. -/
def scanBody : List Char → Option (List Char × List Char)
  | [] => none
  | '"' :: rest => some ([], rest)
  | ['\\'] => none
  | '\\' :: c :: rest => (scanBody rest).map fun (body, rest) => ('\\' :: c :: body, rest)
  | c :: rest => (scanBody rest).map fun (body, rest) => (c :: body, rest)

/-- The string token at the start of a text, and what follows it. -/
def stringToken? : List Char → Option (List Char × List Char)
  | '"' :: rest => (scanBody rest).map fun (body, rest) => ('"' :: (body ++ ['"']), rest)
  | _ => none

/-- Wherever the text stands, it is read as one string token. -/
def IsStringToken (written : String) : Prop :=
  ∀ post, stringToken? (written.toList ++ post) = some (written.toList, post)

section Tokens

variable {text body rest post : List Char} {written : String}

/-- What ends with the token's quote is a body, in which no quote stands alone. -/
theorem scanBody_sound (h : scanBody text = some (body, rest)) :
    text = body ++ '"' :: rest ∧ IsLiteralBody body := by
  fun_induction scanBody text generalizing body rest with
  | case1 => cases h
  | case2 rest =>
    obtain ⟨rfl, rfl⟩ := Prod.mk.inj (Option.some.inj h)
    exact ⟨rfl, .nil⟩
  | case3 => cases h
  | case4 c rest ih =>
    obtain ⟨⟨inner, others⟩, hinner, heq⟩ := Option.map_eq_some_iff.mp h
    obtain ⟨rfl, rfl⟩ := Prod.mk.inj heq
    obtain ⟨rfl, hbody⟩ := ih hinner
    exact ⟨rfl, .escape hbody⟩
  | case5 c rest hquote hlast hescape ih =>
    obtain ⟨⟨inner, others⟩, hinner, heq⟩ := Option.map_eq_some_iff.mp h
    obtain ⟨rfl, rfl⟩ := Prod.mk.inj heq
    obtain ⟨rfl, hbody⟩ := ih hinner
    obtain ⟨d, more, hmore⟩ : ∃ d more, inner ++ '"' :: others = d :: more :=
      List.exists_cons_of_ne_nil (by simp)
    exact ⟨rfl, .plain hquote (fun hc => hescape d more hc hmore) hbody⟩

theorem scanBody_complete (h : IsLiteralBody body) :
    scanBody (body ++ '"' :: post) = some (body, post) := by
  induction h with
  | nil => rfl
  | plain hquote hbackslash _ ih =>
    rw [List.cons_append, scanBody, ih]
    · rfl
    · exact hquote
    · exact fun hc _ => hbackslash hc
    · exact fun _ _ hc _ => hbackslash hc
  | escape _ ih =>
    rw [List.cons_append, List.cons_append, scanBody, ih]
    rfl

/-- A text is one token wherever it stands exactly if it is a well-formed literal. -/
theorem isStringToken_iff : IsStringToken written ↔ IsQuotedLiteral written := by
  constructor
  · intro htoken
    have halone := htoken []
    rw [List.append_nil, stringToken?.eq_def] at halone
    split at halone
    · rename_i text htext
      obtain ⟨⟨body, rest⟩, hbody, heq⟩ := Option.map_eq_some_iff.mp halone
      exact ⟨body, (Prod.mk.inj heq).1.symm, (scanBody_sound hbody).2⟩
    · cases halone
  · rintro ⟨body, hwritten, hbody⟩ post
    rw [hwritten, List.cons_append, stringToken?, List.append_assoc, List.singleton_append,
      scanBody_complete hbody]
    rfl

end Tokens

/-! ## Values -/

/-- A text that starts with a quote and ends with another one. -/
def IsBetweenQuotes (written : String) : Prop := ∃ body, written.toList = '"' :: (body ++ ['"'])

section Values

variable {raw : List Char} {value : Literal} {written name text : String} {a : Attachment}

theorem literalBody?_isSome_iff {literal : List Char} :
    (literalBody? literal).isSome ↔ ∃ body, literal = '"' :: (body ++ ['"']) := by
  constructor
  · intro h
    rw [literalBody?.eq_def] at h
    split at h
    · rename_i rest
      split at h
      · rename_i hlast
        obtain ⟨body, rfl⟩ := List.getLast?_eq_some_iff.mp hlast
        exact ⟨body, rfl⟩
      · cases h
    · cases h
  · rintro ⟨body, rfl⟩
    simp [literalBody?]

/-- What passes for a value is decided by the first and the last character. -/
theorem stringValue_ok_iff : (∃ content, value.stringValue = .ok content) ↔
    ∃ written, value = .text written ∧ IsBetweenQuotes written := by
  cases value with
  | text written =>
    have hbody : (literalBody? written.toList).isSome = true ↔ _ := literalBody?_isSome_iff
    simp only [Literal.text.injEq, exists_eq_left', IsBetweenQuotes, ← hbody, Literal.stringValue,
      unquote?]
    cases literalBody? written.toList <;> simp
  | _ => simp [Literal.stringValue]

/-- No quote that is part of the text stands alone between the quotes. -/
theorem isLiteralBody_flatMap_quoteChar (raw : List Char) :
    IsLiteralBody (raw.flatMap quoteChar) := by
  induction raw with
  | nil => exact .nil
  | cons c rest ih =>
    rw [List.flatMap_cons, quoteChar]
    split_ifs with hquote hbackslash
    · exact .escape ih
    · exact .escape ih
    · exact .escape ih
    · exact .escape ih
    · exact .escape ih
    · exact .plain hquote hbackslash ih

theorem isStringToken_quote (raw : String) :
    IsStringToken (String.ofList (quote raw.toList)) := by
  rw [isStringToken_iff, quote, isQuotedLiteral_iff]
  exact isLiteralBody_flatMap_quoteChar raw.toList

theorem not_mem_quoteChar {c : Char} (d : Char) (hc : c ∈ ['\n', '\r', '\t']) :
    c ∉ quoteChar d := by
  simp only [List.mem_cons, List.not_mem_nil, or_false] at hc
  rw [quoteChar]
  rcases hc with rfl | rfl | rfl <;> split_ifs <;> simp [eq_comm, *]

/-- Line feeds, carriage returns and tabs are written as escapes. -/
theorem not_mem_flatMap_quoteChar {c : Char} (hc : c ∈ ['\n', '\r', '\t']) :
    c ∉ raw.flatMap quoteChar := by
  intro hmem
  obtain ⟨d, -, hd⟩ := List.mem_flatMap.mp hmem
  exact not_mem_quoteChar d hc hd

theorem Annotation.Quotes.exists_token (h : a.annotation.Quotes)
    (hvalue : a.annotation.value = some value) :
    ∃ written, value = .text written ∧ IsStringToken written := by
  obtain ⟨raw, rfl⟩ := h value hvalue
  exact ⟨_, rfl, isStringToken_quote raw⟩

/-- What is printed for an annotation with a value. -/
theorem Attachment.exists_written (hpiece : a.piece = .ok text)
    (hvalue : a.annotation.value = some value) : ∃ written, value = .text written ∧
      IsBetweenQuotes written ∧ text = a.annotation.name ++ " = " ++ written := by
  rw [piece, annotationText, hvalue] at hpiece
  simp only at hpiece
  split at hpiece
  · rename_i content hcontent
    obtain ⟨written, rfl, hquotes⟩ := stringValue_ok_iff.mp ⟨content, hcontent⟩
    exact ⟨written, rfl, hquotes, (Except.ok.inj hpiece).symm⟩
  · cases hpiece

end Values

/-- A quoted string is read back as it was. Its text is one string token, between whose quotes
every quote and every backslash is part of an escape and no control character stands, so that
different strings have different texts and no string ends its literal early. -/
theorem quoted_strings_round_trip :
    (∀ raw, (Literal.quoted raw).stringValue = .ok raw) ∧
    (∀ raw, ∃ body, Literal.quoted raw = .text (String.ofList ('"' :: (body ++ ['"']))) ∧
      IsLiteralBody body ∧ ∀ c ∈ ['\n', '\r', '\t'], c ∉ body) ∧
    Function.Injective Literal.quoted ∧
    ∀ raw, ∃ written, Literal.quoted raw = .text written ∧ IsStringToken written := by
  refine ⟨stringValue_quoted, fun raw => ?_, fun raw other heq => ?_, fun raw => ?_⟩
  · exact ⟨raw.toList.flatMap quoteChar, rfl, isLiteralBody_flatMap_quoteChar _,
      fun c hc => not_mem_flatMap_quoteChar hc⟩
  · have hread := congrArg Literal.stringValue heq
    rw [stringValue_quoted, stringValue_quoted] at hread
    exact Except.ok.inj hread
  · exact ⟨_, rfl, isStringToken_quote raw⟩

/-- A value is accepted exactly if it is a text between two quotes, and every rendered file shows
such values only. Such a text is one string token exactly if no other quote stands alone in it, as
for the quoted values of converted documents and of lowered projects. -/
theorem annotation_values_between_quotes (value : Literal) :
    ((∃ content, value.stringValue = .ok content) ↔
      ∃ written, value = .text written ∧ IsBetweenQuotes written) ∧
    (∀ written, value = .text written → (IsStringToken written ↔ IsQuotedLiteral written)) ∧
    (∀ (writer : Writer) f text, (writer.write f).1 = .ok text → ∀ a ∈ f.attachments,
      a.annotation.value = some value → ∃ written, value = .text written ∧
        IsBetweenQuotes written ∧
        (a.annotation.name ++ " = " ++ written).toList <:+: text.toList) ∧
    (∀ file bytes options schema, convertDocument file bytes options = .ok schema →
      ∀ a ∈ schema.attachments, a.annotation.value = some value →
        ∃ written, value = .text written ∧ IsStringToken written) ∧
    ∀ locate project sort schema, Source.lowerProject locate project sort = .ok schema →
      ∀ a ∈ schema.attachments, a.annotation.value = some value →
        ∃ written, value = .text written ∧ IsStringToken written := by
  refine ⟨stringValue_ok_iff, fun _ _ => isStringToken_iff,
    fun writer f text h a ha hvalue => ?_, fun file bytes options schema h a ha hvalue => ?_,
    fun locate project sort schema h a ha hvalue => ?_⟩
  · obtain ⟨part, hpart, hinside⟩ := Writer.write_covers h _ (File.piece_mem ha)
    obtain ⟨written, hwritten, hquotes, rfl⟩ := Attachment.exists_written hpart hvalue
    exact ⟨written, hwritten, hquotes, hinside⟩
  · exact Annotation.Quotes.exists_token (Convert.convertDocument_quoting h a ha) hvalue
  · exact Annotation.Quotes.exists_token (Source.lowerProject_quoting h a ha) hvalue

/-- A struct whose label starts and ends with a quote and has another one between them. -/
def labelledFile : File :=
  { path := "pets.thrift", definitions := { messages := [{
      name := "Pet", fqn := "pets.thrift#Pet"
      annotations := [{ name := "label", value := some (.text "\"a\"b\"") }] }] } }

theorem labelledFile_renders : (({} : Writer).write labelledFile).1 =
    .ok "struct Pet (label = \"a\"b\") \x7b\n\x7d\n\n" := by
  rfl

theorem labelledFile_values_between_quotes :
    (∃ written, Literal.text "\"a\"b\"" = .text written ∧ IsBetweenQuotes written ∧
      ("label = " ++ written).toList <:+:
        "struct Pet (label = \"a\"b\") \x7b\n\x7d\n\n".toList) ∧
    (∃ schema, convertDocument "pets.yaml" petDocument { policy := .strict } = .ok schema ∧
      ∀ a ∈ schema.attachments, ∀ value, a.annotation.value = some value →
        ∃ written, value = .text written ∧ IsStringToken written) ∧
    ∃ schema, Source.lowerProject petSources.locate petSources true = .ok schema ∧
      ∀ a ∈ schema.attachments, ∀ value, a.annotation.value = some value →
        ∃ written, value = .text written ∧ IsStringToken written := by
  refine ⟨?_, ?_, ?_⟩
  · obtain ⟨-, -, hfile, -⟩ := annotation_values_between_quotes (.text "\"a\"b\"")
    have hlabel := hfile {} labelledFile _ labelledFile_renders
      ⟨"Pet", { name := "label", value := some (.text "\"a\"b\"") }⟩ List.mem_cons_self rfl
    exact hlabel
  · obtain ⟨schema, h⟩ := petDocument_converts
    refine ⟨schema, h, fun a ha value hvalue => ?_⟩
    obtain ⟨-, -, -, hdocument, -⟩ := annotation_values_between_quotes value
    exact hdocument _ _ _ _ h a ha hvalue
  · obtain ⟨schema, h⟩ := petSources_lower
    refine ⟨schema, h, fun a ha value hvalue => ?_⟩
    obtain ⟨-, -, -, -, hproject⟩ := annotation_values_between_quotes value
    exact hproject _ _ _ _ h a ha hvalue

/-- The label passes for a value, and a token ends in the middle of it. -/
theorem stringValue_not_token : (Literal.text "\"a\"b\"").stringValue = .ok "a\"b" ∧
    stringToken? "\"a\"b\"".toList = some ("\"a\"".toList, "b\"".toList) ∧
    ¬ IsStringToken "\"a\"b\"" := by
  refine ⟨by rfl, by decide, fun htoken => ?_⟩
  have halone := htoken []
  exact absurd halone (by decide)

end RestThrift
