import Mathlib
import RestThrift.Proofs.Progress

/-!
# What synthesis leaves as it is

Synthesis adds definitions under names that were free. So names that are taken keep what stands
under them, and a type that was found once keeps its meaning: it may have no name, or the name of a
definition that is there, of a named schema, or of a missing one. Only the last kind of name is not
taken, and what stands under it can change.
-/
namespace RestThrift.Convert

open Workspace Text

/-! ## Names that are taken -/

namespace Workspace

variable {w u : Workspace} {file base name : String}

theorem isPlain_claim (w : Workspace) (place : Place) :
    IsPlain (w.claim place.file place.base).1.toList := by
  obtain ⟨n, hn, -⟩ := freeName_eq (w.namesIn place.file) place.base
  have hname : (w.claim place.file place.base).1 = numbered place.base n := hn
  rw [hname]
  exact isPlain_numbered (Naming.isPlain_nestedName place.parent place.field) n

theorem claim_mem_namesIn (w : Workspace) (file base : String) :
    (w.claim file base).1 ∈ (w.claim file base).2.namesIn file := by
  rw [namesIn_claim, if_pos rfl]
  exact List.mem_append_right _ (List.mem_singleton_self _)

theorem Adds.inlineEnum?_eq (h : w.Adds u) (hname : w.inlineEnum? file base = some name) :
    u.inlineEnum? file base = some name := by
  cases h with
  | enumeration place schema hnew =>
    rw [inlineEnum?_newEnum]
    split
    · rename_i hplace
      obtain ⟨rfl, rfl⟩ := hplace
      rw [hnew] at hname
      cases hname
    · exact hname
  | struct place message hnew => exact hname

/-- A name that is taken keeps the message that it stands for. -/
theorem Adds.message?_eq (h : w.Adds u) (hname : name ∈ w.namesIn file) :
    (u.definitions file).message? name = (w.definitions file).message? name := by
  cases h with
  | enumeration place schema hnew =>
    rw [definitions_newEnum]
    split <;> rfl
  | struct place message hnew =>
    simp only [newStruct, definitions_addMessage, definitions_claim]
    split
    · rename_i hfile
      subst hfile
      have hne : (w.claim place.file place.base).1 ≠ name :=
        fun heq => freeName_not_mem _ _ (heq ▸ hname)
      simp [Definitions.message?, List.find?_append, hne]
    · rfl

/-- A name that is taken, or one with a dot, keeps the enumeration that it stands for. -/
theorem Adds.enum?_eq (h : w.Adds u) (hname : name ∈ w.namesIn file ∨ ¬ IsPlain name.toList) :
    (u.definitions file).enum? name = (w.definitions file).enum? name := by
  cases h with
  | enumeration place schema hnew =>
    rw [definitions_newEnum]
    split
    · rename_i hfile
      subst hfile
      have hne : (w.claim place.file place.base).1 ≠ name := by
        rintro rfl
        exact hname.elim (freeName_not_mem _ _) fun hplain => hplain (isPlain_claim w place)
      have hnot :
          (Convert.enumeration place.file (w.claim place.file place.base).1 schema).name ≠ name :=
        hne
      simp [Definitions.enum?, List.find?_append, hnot]
    · rfl
  | struct place message hnew =>
    simp only [newStruct, definitions_addMessage, definitions_claim]
    split <;> rfl

theorem Gains.inlineEnum?_eq (h : w.Gains u) (hname : w.inlineEnum? file base = some name) :
    u.inlineEnum? file base = some name := by
  induction h with
  | refl => exact hname
  | tail _ hstep ih => exact hstep.inlineEnum?_eq ih

theorem Gains.message?_eq (h : w.Gains u) (hname : name ∈ w.namesIn file) :
    (u.definitions file).message? name = (w.definitions file).message? name := by
  induction h with
  | refl => rfl
  | tail hsteps hstep ih =>
    exact (hstep.message?_eq ((Gains.le hsteps).names file |>.subset hname)).trans ih

theorem Gains.enum?_eq (h : w.Gains u) (hname : name ∈ w.namesIn file ∨ ¬ IsPlain name.toList) :
    (u.definitions file).enum? name = (w.definitions file).enum? name := by
  induction h with
  | refl => rfl
  | tail hsteps hstep ih =>
    have hkept := hname.imp_left fun hname => ((Gains.le hsteps).names file).subset hname
    exact (hstep.enum?_eq hkept).trans ih

/-- An enumeration that is there is found from then on. -/
theorem enum?_mono {e : Enumeration} (h : w ≤ u) (he : (w.definitions file).enum? name = some e) :
    (u.definitions file).enum? name = some e :=
  (h.enums file).find?_eq_some he

end Workspace

/-! ## Orderly workspaces -/

/-- Messages stand under names that are taken, enumerations are remembered under such names, and
those of named schemas are among them. -/
structure Plan.Orderly (p : Plan) (w : Workspace) : Prop where
  messages : ∀ file, ∀ m ∈ (w.definitions file).messages, m.name ∈ w.namesIn file
  remembered : ∀ file base name, w.inlineEnum? file base = some name → name ∈ w.namesIn file
  reserved : p.Reserved w

variable {plan : Plan} {w w₁ w' u : Workspace} {file name : String}

theorem Coherent.orderly {stated : Api.Schema → Prop} {owed : List (String × String)}
    (h : Coherent plan stated w owed) (hreserved : plan.Reserved w) : plan.Orderly w where
  messages file m hm := (h.borne file).subset
    (List.mem_append_left _ (List.mem_map_of_mem (Definitions.message_mem_types hm)))
  remembered file base name hname := by
    obtain ⟨e, he, rfl⟩ := h.remembers file base name hname
    exact (h.borne file).subset
      (List.mem_append_left _ (List.mem_map_of_mem (Definitions.enumeration_mem_types he)))
  reserved := hreserved

namespace Plan.Orderly

/-- New messages and remembered enumerations have names that are taken. -/
theorem extend (h : plan.Orderly w) (hle : w ≤ w')
    (hmessages : ∀ file, ∀ m ∈ (w'.definitions file).messages,
      m ∈ (w.definitions file).messages ∨ m.name ∈ w'.namesIn file)
    (hremembered : ∀ file base name, w'.inlineEnum? file base = some name →
      w.inlineEnum? file base = some name ∨ name ∈ w'.namesIn file) : plan.Orderly w' where
  messages file m hm := (hmessages file m hm).elim
    (fun hold => (hle.names file).subset (h.messages file m hold)) id
  remembered file base name hname := (hremembered file base name hname).elim
    (fun hold => (hle.names file).subset (h.remembered file base name hold)) id
  reserved := h.reserved.mono hle

theorem adds (h : plan.Orderly w) (hstep : w.Adds w') : plan.Orderly w' := by
  refine h.extend hstep.le (fun file m hm => ?_) fun file base name hname => ?_
  · cases hstep with
    | enumeration place schema hnew =>
      rw [definitions_newEnum] at hm
      split at hm <;> exact .inl hm
    | struct place message hnew =>
      simp only [newStruct, definitions_addMessage, definitions_claim] at hm
      split at hm
      · rename_i hfile
        subst hfile
        refine (List.mem_append.mp hm).imp_right fun hm => ?_
        rw [List.mem_singleton.mp hm]
        exact claim_mem_namesIn w place.file place.base
      · exact .inl hm
  · cases hstep with
    | enumeration place schema hnew =>
      rw [inlineEnum?_newEnum] at hname
      split at hname
      · rename_i hplace
        obtain ⟨rfl, rfl⟩ := hplace
        obtain rfl := Option.some.inj hname
        exact .inr (claim_mem_namesIn w place.file place.base)
      · exact .inl hname
    | struct place message hnew => exact .inl hname

theorem moves (h : plan.Orderly w) (hstep : plan.Moves w w') : plan.Orderly w' := by
  cases hstep with
  | adds hadds => exact h.adds hadds
  | request base =>
    exact h.extend (le_claim w _ _) (fun _ _ hm => .inl hm) fun _ _ _ hname => .inl hname
  | @enumeration key hkey schema =>
    have hle := (le_addEnum w (plan.fileOf key) (Convert.enumeration (plan.fileOf key)
      (plan.nameOf key) schema)).trans (le_rememberEnum _ (plan.fileOf key) (plan.nameOf key)
        (plan.nameOf key))
    refine h.extend hle (fun file m hm => ?_) fun file base name hname => ?_
    · simp only [definitions_rememberEnum, definitions_addEnum] at hm
      split at hm <;> exact .inl hm
    · rw [inlineEnum?_rememberEnum] at hname
      split at hname
      · rename_i hplace
        obtain ⟨rfl, rfl⟩ := hplace
        obtain rfl := Option.some.inj hname
        exact .inr ((hle.names _).subset (h.reserved key hkey))
      · exact .inl hname
  | @typedef key hkey t hname =>
    refine h.extend (le_addTypedef w (plan.fileOf key) t) (fun file m hm => ?_)
      fun _ _ _ hname => .inl hname
    rw [definitions_addTypedef] at hm
    split at hm <;> exact .inl hm
  | @message key hkey m hname =>
    refine h.extend (le_addMessage w (plan.fileOf key) m) (fun file other hm => ?_)
      fun _ _ _ hname => .inl hname
    rw [definitions_addMessage] at hm
    split at hm
    · rename_i hfile
      subst hfile
      refine (List.mem_append.mp hm).imp_right fun hm => ?_
      rw [List.mem_singleton.mp hm, hname]
      exact h.reserved key hkey
    · exact .inl hm

theorem gains (h : plan.Orderly w) (hsteps : w.Gains w') : plan.Orderly w' := by
  induction hsteps with
  | refl => exact h
  | tail _ hstep ih => exact ih.adds hstep

theorem proceeds (h : plan.Orderly w) (hsteps : plan.Proceeds w w') : plan.Orderly w' := by
  induction hsteps with
  | refl => exact h
  | tail _ hstep ih => exact ih.moves hstep

end Plan.Orderly

/-! ## Names that types stand for -/

/-- The schema stands for a reference to the key, which names no schema. -/
inductive Glossary.Misses (g : Glossary) : Api.Schema → String → Prop
  | dangling {s : Api.Schema} {reference : String} (hreference : s.reference = some reference)
      (htarget : g.resolve? reference = none) : Misses g s (definitionKey reference)
  | replaced {s target : Api.Schema} {reference key : String}
      (hreference : s.reference = some reference) (htarget : g.resolve? reference = some target)
      (halias : target.isAlias = true) (h : Misses g target key) : Misses g s key
  | sole {s part : Api.Schema} {key : String} (hreference : s.reference = none)
      (hsole : s.soleReference? = some part) (h : Misses g part key) : Misses g s key

/-- The types that a schema comes to, by what happens to their names later: a type may have no name,
stand for a name of the file that is taken, for a named schema, or for a missing one. -/
inductive Plan.Bears (p : Plan) (w : Workspace) (file : String) (s : Api.Schema) : TypeRef → Prop
  | unnamed {type : TypeRef} (h : ∀ name fqn, type ≠ .named name fqn) : Bears p w file s type
  | defined {name : String} (h : name ∈ w.namesIn file) : Bears p w file s (localType file name)
  | reference {key : String} (hkey : key ∈ p.glossary.schemas.keys) :
      Bears p w file s (p.typeFor key file)
  | missing {key : String} (hpolicy : p.glossary.policy = .lenient)
      (hmisses : p.glossary.Misses s key) : Bears p w file s (Plan.danglingType key)

section Bears

variable {place : Place} {s target : Api.Schema} {type : TypeRef} {inlining : List String}

/-- What stands for another schema, stands for the same names. -/
theorem Plan.Bears.imp (h : plan.Bears w file target type)
    (hmisses : ∀ key, plan.glossary.Misses target key → plan.glossary.Misses s key) :
    plan.Bears w file s type := by
  cases h with
  | unnamed h => exact .unnamed h
  | defined h => exact .defined h
  | reference hkey => exact .reference hkey
  | missing hpolicy h => exact .missing hpolicy (hmisses _ h)

theorem enumType_bears (hw : plan.Orderly w) (h : Runs (enumType place s) w type w') :
    plan.Bears w' place.file s type := by
  rcases enumType_runs h with ⟨name, hname, rfl, rfl⟩ | ⟨-, rfl, rfl⟩
  · exact .defined (hw.remembered _ _ _ hname)
  · exact .defined (claim_mem_namesIn w place.file place.base)

theorem structType_bears {typeOf : Place → Api.Schema → Build TypeRef} {object : Api.Schema}
    (h : Runs (structType typeOf place object) w type w') : plan.Bears w' place.file s type := by
  obtain ⟨message, w₁, -, ⟨name, hname, rfl, rfl⟩ | ⟨-, rfl, rfl⟩⟩ := structType_runs h
  · exact .defined (matchFrom_eq_some hname).1
  · exact .defined (claim_mem_namesIn w₁ place.file place.base)

theorem Branch.Chosen.bears (h : Branch.Chosen plan inlining file s (.done type)) :
    plan.Bears w file s type := by
  cases h with
  | dangling hreference htarget =>
    obtain ⟨hpolicy, hmissing⟩ := target_eq_none htarget
    exact .missing hpolicy (.dangling hreference hmissing)
  | named _ htarget _ => exact .reference (Table.mem_keys_of_get? htarget)
  | texts _ _ _ | anything _ _ _ _ => exact .unnamed (by simp)
  | @scalar kind _ _ _ => cases kind <;> exact .unnamed (by simp [scalarType, TypeRef.string])

/-- Where nothing goes wrong, the names of a type have a meaning afterwards. -/
theorem typeWithin_bears {steps : Nat} (hw : plan.Orderly w)
    (h : Runs (typeWithin plan steps inlining place s) w type w') :
    plan.Bears w' place.file s type := by
  induction steps generalizing inlining place s w type w' with
  | zero => exact absurd h runs_throw
  | succ steps ih =>
    obtain ⟨branch, hchosen, h⟩ := typeWithin_runs h
    cases branch with
    | failure cause => exact absurd h runs_throw
    | done type =>
      obtain ⟨rfl, rfl⟩ := runs_pure.mp h
      exact hchosen.bears
    | replaced key target =>
      cases hchosen with
      | replaced hreference htarget halias _ =>
        exact (ih hw h).imp fun _ hmisses => .replaced hreference htarget halias hmisses
    | sole part =>
      cases hchosen with
      | sole hreference _ hsole =>
        exact (ih hw h).imp fun _ hmisses => .sole hreference hsole hmisses
    | struct object => exact structType_bears h
    | listed => exact enumType_bears hw h
    | list items =>
      obtain ⟨element, rfl, -⟩ := Branch.list_runs.mp h
      exact .unnamed (by simp)
    | map value =>
      obtain ⟨type, rfl, -⟩ := Branch.map_runs.mp h
      exact .unnamed (by simp)

end Bears

end RestThrift.Convert
