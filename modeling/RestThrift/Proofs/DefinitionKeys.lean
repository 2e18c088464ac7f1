import Mathlib
import RestThrift.Proofs.Redirection
import RestThrift.Proofs.Synthesis

/-!
# Keys in references

A reference names a schema by its key, in which tildes and slashes are escaped. The two escapes are
decoded one after the other: no `~1` arises from an escaped tilde, and when the tildes come back no
escape is left that could be mistaken for one. So every key can be referred to, in either section.
-/
namespace RestThrift.Convert

/-! ## Escaped keys -/

/-- Write a text in place of each occurrence of a character. -/
def substitute (c : Char) (replacement text : List Char) : List Char :=
  text.flatMap fun d => if d = c then replacement else [d]

/-- A key as it stands in a reference: first its tildes are escaped, then its slashes. -/
def escapeKey (key : List Char) : List Char :=
  substitute '/' ['~', '1'] (substitute '~' ['~', '0'] key)

section Escapes

variable {c digit replacement : Char} {rest : List Char}

theorem substitute_cons_self (c : Char) (replacement rest : List Char) :
    substitute c replacement (c :: rest) = replacement ++ substitute c replacement rest := by
  rw [substitute, List.flatMap_cons, if_pos rfl, substitute]

theorem substitute_cons_of_ne {d : Char} {replacement : List Char} (h : d ≠ c) :
    substitute c replacement (d :: rest) = d :: substitute c replacement rest := by
  rw [substitute, List.flatMap_cons, if_neg h, substitute, List.singleton_append]

theorem escapeKey_tilde (rest : List Char) :
    escapeKey ('~' :: rest) = '~' :: '0' :: escapeKey rest := by
  rw [escapeKey, substitute_cons_self, List.cons_append, List.singleton_append,
    substitute_cons_of_ne (by decide), substitute_cons_of_ne (by decide), escapeKey]

theorem escapeKey_slash (rest : List Char) :
    escapeKey ('/' :: rest) = '~' :: '1' :: escapeKey rest := by
  rw [escapeKey, substitute_cons_of_ne (by decide), substitute_cons_self, escapeKey]
  rfl

theorem escapeKey_cons_of_ne (htilde : c ≠ '~') (hslash : c ≠ '/') :
    escapeKey (c :: rest) = c :: escapeKey rest := by
  rw [escapeKey, substitute_cons_of_ne htilde, substitute_cons_of_ne hslash, escapeKey]

theorem replaceTilde_cons_of_ne (h : c ≠ '~') :
    replaceTilde digit replacement (c :: rest) = c :: replaceTilde digit replacement rest := by
  rw [replaceTilde]
  rintro d more rfl
  exact absurd rfl h

theorem replaceTilde_escape (digit replacement : Char) (rest : List Char) :
    replaceTilde digit replacement ('~' :: digit :: rest) =
      replacement :: replaceTilde digit replacement rest := by
  rw [replaceTilde, if_pos rfl]

/-! ## Decoding -/

/-- The first replacement brings the slashes back and leaves the escaped tildes as they are. -/
theorem replaceTilde_escapeKey (key : List Char) :
    replaceTilde '1' '/' (escapeKey key) = substitute '~' ['~', '0'] key := by
  induction key with
  | nil => rfl
  | cons c rest ih =>
    by_cases htilde : c = '~'
    · have hzero : '0' ≠ '~' := by decide
      rw [htilde, escapeKey_tilde, replaceTilde, if_neg (by decide), replaceTilde_cons_of_ne hzero,
        ih, substitute_cons_self]
      rfl
    · rw [substitute_cons_of_ne htilde]
      by_cases hslash : c = '/'
      · rw [hslash, escapeKey_slash, replaceTilde_escape, ih]
      · rw [escapeKey_cons_of_ne htilde hslash, replaceTilde_cons_of_ne htilde, ih]

/-- The second replacement reads no digit of the key itself as part of an escape, since a tilde
stands right before its own zero. -/
theorem replaceTilde_substitute (key : List Char) :
    replaceTilde '0' '~' (substitute '~' ['~', '0'] key) = key := by
  induction key with
  | nil => rfl
  | cons c rest ih =>
    by_cases htilde : c = '~'
    · rw [htilde, substitute_cons_self, List.cons_append, List.singleton_append,
        replaceTilde_escape, ih]
    · rw [substitute_cons_of_ne htilde, replaceTilde_cons_of_ne htilde, ih]

/-- The section of a reference is cut off whichever it is. No section starts with the other one. -/
theorem definitionKey_of_start {start name : List Char} (h : start ∈ referenceStarts) :
    definitionKey (String.ofList (start ++ name)) =
      String.ofList (replaceTilde '0' '~' (replaceTilde '1' '/' name)) := by
  have hname : (referenceStarts.findSome? fun first => dropStart? first (start ++ name)) =
      some name := by
    rcases List.mem_pair.mp h with rfl | rfl
    · rw [referenceStarts, List.findSome?_cons, dropStart?_append]
    · have hother : dropStart? "#/components/schemas/".toList
          ("#/definitions/".toList ++ name) = none := rfl
      rw [referenceStarts, List.findSome?_cons, hother, List.findSome?_cons, dropStart?_append]
  rw [definitionKey, String.toList_ofList, hname, Option.getD_some]

end Escapes

/-- Every key can be referred to: an escaped key behind the start of either section is decoded to
the key itself, so that the reference is resolved to the schema that stands under the key, under
either policy. -/
theorem references_reach_keys (key : String) {start : List Char} (h : start ∈ referenceStarts) :
    definitionKey (String.ofList (start ++ escapeKey key.toList)) = key ∧
    ∀ (g : Glossary), g.resolve? (String.ofList (start ++ escapeKey key.toList)) =
        g.schemas.get? key ∧
      ∀ schema, g.schemas.get? key = some schema →
        g.target (String.ofList (start ++ escapeKey key.toList)) = .ok (some schema) := by
  have hkey : definitionKey (String.ofList (start ++ escapeKey key.toList)) = key := by
    rw [definitionKey_of_start h, replaceTilde_escapeKey, replaceTilde_substitute,
      String.ofList_toList]
  have hresolve : ∀ g : Glossary, g.resolve? (String.ofList (start ++ escapeKey key.toList)) =
      g.schemas.get? key := fun g => by rw [Glossary.resolve?, hkey]
  exact ⟨hkey, fun g => ⟨hresolve g, fun schema hschema =>
    target_eq_ok ((hresolve g).trans hschema)⟩⟩

/-- A key that would be mistaken for another one if the tildes were decoded first. -/
theorem references_reach_escaped_keys :
    definitionKey "#/definitions/a~1~01" = "a/~1" ∧
    ∀ policy, Glossary.target
        ⟨[("a//", { description := some "slashes" }), ("a/~1", { description := some "tilde" })],
          policy⟩ "#/components/schemas/a~1~01" =
      .ok (some { description := some "tilde" }) := by
  have hescaped : escapeKey "a/~1".toList = "a~1~01".toList := by decide
  have hswagger : "#/definitions/".toList ∈ referenceStarts :=
    List.mem_cons_of_mem _ List.mem_cons_self
  have hopenApi : "#/components/schemas/".toList ∈ referenceStarts := List.mem_cons_self
  obtain ⟨hkey, -⟩ := references_reach_keys "a/~1" hswagger
  obtain ⟨-, htarget⟩ := references_reach_keys "a/~1" hopenApi
  rw [hescaped] at hkey htarget
  exact ⟨hkey, fun policy => (htarget _).2 _ rfl⟩

end RestThrift.Convert
