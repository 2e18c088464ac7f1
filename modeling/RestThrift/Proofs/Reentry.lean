import Mathlib
import RestThrift.Proofs.Origins

/-!
# Aliases that come back to themselves

An alias is left as a name only inside of itself. From a schema there lead steps to those inside of
it, to the alias that it refers to, and from a composition to what its parts refer to. The schemas
whose properties are merged for a composition are reached by these steps, where a part is followed
through all references that stand one behind the other.
-/
namespace RestThrift.Convert

variable {g : Glossary} {follow : Api.Schema → Api.Schema → Prop} {key : String}
  {keys : List String} {s target part inner object : Api.Schema} {entry : String × Api.Schema}

/-- A step from a schema to one that it is made of; `follow` tells what a part of a composition
stands for. -/
inductive Glossary.Leads (g : Glossary) (follow : Api.Schema → Api.Schema → Prop) :
    Api.Schema → Api.Schema → Prop
  | property {s : Api.Schema} {entry : String × Api.Schema} (hentry : entry ∈ s.properties) :
      Leads g follow s entry.2
  | items {s inner : Api.Schema} (hitems : s.items = some inner) : Leads g follow s inner
  | value {s inner : Api.Schema} (hvalue : s.valueSchema? = some inner) : Leads g follow s inner
  | part {s part : Api.Schema} (hpart : part ∈ s.parts) : Leads g follow s part
  | target {s target : Api.Schema} (htarget : g.Targets s target) (halias : target.isAlias = true) :
      Leads g follow s target
  | member {s part target : Api.Schema} (hpart : part ∈ s.parts) (hfollow : follow part target) :
      Leads g follow s target

/-- The schema is reached from the named schema of a key. -/
def Glossary.Reaches (g : Glossary) (follow : Api.Schema → Api.Schema → Prop) (key : String)
    (s : Api.Schema) : Prop :=
  ∃ named, g.schemas.get? key = some named ∧ Relation.ReflTransGen (g.Leads follow) named s

/-- From the named schema of a key there is reached a reference to this key. -/
def Glossary.Reenters (g : Glossary) (follow : Api.Schema → Api.Schema → Prop) (key : String) :
    Prop :=
  ∃ s reference, g.Reaches follow key s ∧ s.reference = some reference ∧
    definitionKey reference = key

theorem Glossary.Reaches.refl (h : g.schemas.get? key = some s) : g.Reaches follow key s :=
  ⟨s, h, .refl⟩

theorem Glossary.Reaches.step (h : g.Reaches follow key s) (hstep : g.Leads follow s target) :
    g.Reaches follow key target := by
  obtain ⟨named, hnamed, hsteps⟩ := h
  exact ⟨named, hnamed, hsteps.tail hstep⟩

/-- What the named schema satisfies and every step keeps holds of all that is reached. -/
theorem Glossary.Reaches.keeps {P : Api.Schema → Prop} (h : g.Reaches follow key s)
    (hnamed : ∀ named, g.schemas.get? key = some named → P named)
    (hstep : ∀ s target, g.Leads follow s target → P s → P target) : P s := by
  obtain ⟨named, hget, hsteps⟩ := h
  induction hsteps with
  | refl => exact hnamed named hget
  | tail _ hlast ih => exact hstep _ _ hlast ih

/-- What a schema stands for along references, one behind the other. -/
def Glossary.Chain (g : Glossary) : Api.Schema → Api.Schema → Prop := Relation.TransGen g.Targets

/-- The schema is reached from each of the keys. -/
def Glossary.ReachedFrom (g : Glossary) (keys : List String) (s : Api.Schema) : Prop :=
  ∀ key ∈ keys, g.Reaches g.Chain key s

/-- The named schema of the key is an alias that comes back to itself. -/
def Glossary.Recurs (g : Glossary) (key : String) : Prop := g.Reenters g.Chain key

theorem Glossary.reachedFrom_nil (g : Glossary) (s : Api.Schema) : g.ReachedFrom [] s :=
  fun _ hkey => absurd hkey List.not_mem_nil

theorem Glossary.ReachedFrom.step (h : g.ReachedFrom keys s) (hstep : g.Leads g.Chain s target) :
    g.ReachedFrom keys target :=
  fun key hkey => (h key hkey).step hstep

/-- The target of a reference is reached from its own key and from those that the reference is
reached from. -/
theorem Glossary.ReachedFrom.cons {reference : String} (h : g.ReachedFrom keys s)
    (hreference : s.reference = some reference) (htarget : g.resolve? reference = some target)
    (halias : target.isAlias = true) :
    g.ReachedFrom (definitionKey reference :: keys) target :=
  List.forall_mem_cons.mpr
    ⟨.refl htarget, h.step (.target ⟨reference, hreference, htarget⟩ halias)⟩

/-- A reference to a key that it is reached from comes back to the key. -/
theorem Glossary.ReachedFrom.recurs {reference : String} (h : g.ReachedFrom keys s)
    (hreference : s.reference = some reference) (hkey : definitionKey reference ∈ keys) :
    g.Recurs (definitionKey reference) :=
  ⟨s, reference, h _ hkey, hreference, rfl⟩

theorem not_chain (h : s.reference = none) : ¬ g.Chain s target := by
  intro hchain
  obtain ⟨first, ⟨reference, hreference, -⟩, -⟩ := Relation.TransGen.head'_iff.mp hchain
  exact absurd (h.symm.trans hreference) (Option.some_ne_none reference).symm

/-- A schema leads to the properties of the object that is merged for it. -/
theorem Glossary.leads_composed (hreference : s.reference = none)
    (hobject : g.effectiveObject s = .ok object) (hentry : entry ∈ object.properties) :
    Relation.ReflTransGen (g.Leads g.Chain) s entry.2 := by
  -- A reference counts for what it stands for, as it is expanded and not looked at itself.
  let P (t : Api.Schema) : Prop :=
    (t.reference = none → Relation.ReflTransGen (g.Leads g.Chain) s t) ∧
      ∀ target, g.Chain t target → Relation.ReflTransGen (g.Leads g.Chain) s target
  have hpart : ∀ t part, t.reference = none → part ∈ t.parts → P t → P part :=
    fun t part hnone hpart ht => ⟨fun _ => (ht.1 hnone).tail (.part hpart),
      fun target hchain => (ht.1 hnone).tail (.member hpart hchain)⟩
  have htarget : ∀ t target, g.Targets t target → P t → P target :=
    fun t target htarget ht => ⟨fun _ => ht.2 target (.single htarget),
      fun other hchain => ht.2 other (.head htarget hchain)⟩
  have hs : P s := ⟨fun _ => .refl, fun target hchain => absurd hchain (not_chain hreference)⟩
  obtain ⟨leaf, hnone, hleaf, hentry⟩ :=
    exists_leaf_of_effectiveObject hpart htarget hobject hs hentry
  exact (hleaf.1 hnone).tail (.property hentry)

/-- The properties of a composed object are reached from its schema. -/
theorem Glossary.Reaches.composed (h : g.Reaches g.Chain key s) (hreference : s.reference = none)
    (hobject : g.effectiveObject s = .ok object) (hentry : entry ∈ object.properties) :
    g.Reaches g.Chain key entry.2 := by
  obtain ⟨named, hnamed, hsteps⟩ := h
  exact ⟨named, hnamed, hsteps.trans (g.leads_composed hreference hobject hentry)⟩

theorem Glossary.ReachedFrom.composed (h : g.ReachedFrom keys s) (hreference : s.reference = none)
    (hobject : g.effectiveObject s = .ok object) :
    ∀ entry ∈ object.properties, g.ReachedFrom keys entry.2 :=
  fun _ hentry key hkey => (h key hkey).composed hreference hobject hentry

end RestThrift.Convert
