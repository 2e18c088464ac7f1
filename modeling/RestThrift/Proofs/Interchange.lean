import Mathlib
import RestThrift.Proofs.Collisions
import RestThrift.Proofs.Numbering
import RestThrift.Proofs.Quoting
import RestThrift.Proofs.ReadSchemas
import RestThrift.Proofs.Storable

/-!
# Converted schemas in JSON

A converted schema is read back from JSON unless a default holds a double that is infinite or
undefined. Such a double is written as null: as a default itself it is lost, and inside of one it
makes reading fail. Besides, no list may be longer than its numbers reach.
-/
namespace RestThrift

open RestThrift.Yaml (Value)

/-! ## Doubles in values and literals -/

mutual
/-- The doubles of a literal, at any depth. -/
def Literal.doubles : Literal → List Float
  | .float x => [x]
  | .list items => Literal.doublesItems items
  | .map entries => Literal.doublesEntries entries
  | _ => []

def Literal.doublesItems : List Literal → List Float
  | [] => []
  | item :: rest => Literal.doubles item ++ Literal.doublesItems rest

def Literal.doublesEntries : List (Literal × Literal) → List Float
  | [] => []
  | (key, value) :: rest =>
    Literal.doubles key ++ Literal.doubles value ++ Literal.doublesEntries rest
end

mutual
/-- The doubles of a value, at any depth. -/
def Yaml.Value.doubles : Value → List Float
  | .number (.float x) => [x]
  | .sequence items => Yaml.Value.doublesItems items
  | .mapping entries => Yaml.Value.doublesEntries entries
  | .tagged _ value => Yaml.Value.doubles value
  | _ => []

def Yaml.Value.doublesItems : List Value → List Float
  | [] => []
  | item :: rest => Yaml.Value.doubles item ++ Yaml.Value.doublesItems rest

def Yaml.Value.doublesEntries : List (Value × Value) → List Float
  | [] => []
  | (key, value) :: rest =>
    Yaml.Value.doubles key ++ Yaml.Value.doubles value ++ Yaml.Value.doublesEntries rest
end

def IsFinite (x : Float) : Prop := (Decimal.Binary.ofFloat x).isFinite = true

/-- No double of the literal is infinite or undefined. -/
def Literal.Finite (l : Literal) : Prop := ∀ x ∈ l.doubles, IsFinite x

section Doubles

variable {x : Float} {items : List Literal} {entries : List (Literal × Literal)}

theorem Literal.mem_doublesItems : x ∈ Literal.doublesItems items ↔ ∃ l ∈ items, x ∈ l.doubles := by
  induction items with
  | nil => simp [doublesItems]
  | cons item rest ih => simp [doublesItems, ih]

theorem Literal.mem_doublesEntries : x ∈ Literal.doublesEntries entries ↔
    ∃ entry ∈ entries, x ∈ entry.1.doubles ∨ x ∈ entry.2.doubles := by
  induction entries with
  | nil => simp [doublesEntries]
  | cons entry rest ih =>
    obtain ⟨key, value⟩ := entry
    simp [doublesEntries, ih, or_assoc]

theorem Literal.storableItems_iff : Literal.StorableItems items ↔ ∀ l ∈ items, l.Storable := by
  induction items with
  | nil => simp [StorableItems]
  | cons item rest ih => simp [StorableItems, ih]

theorem Literal.storableEntries_iff : Literal.StorableEntries entries ↔
    ∀ entry ∈ entries, entry.1.Storable ∧ entry.2.Storable := by
  induction entries with
  | nil => simp [StorableEntries]
  | cons entry rest ih =>
    obtain ⟨key, value⟩ := entry
    simp [StorableEntries, ih, and_assoc]

end Doubles

/-! ## Integers in range -/

theorem pow_63 : ((Nat.pow 2 63 : Nat) : Int) = 2 ^ 63 := by
  rw [Nat.pow_eq, Nat.cast_pow, Nat.cast_ofNat]

theorem range_of_isSigned64 {n : Int} (h : Api.Choice.isSigned64 n = true) :
    -(2 : Int) ^ 63 ≤ n ∧ n < (2 : Int) ^ 63 := by
  simp only [Api.Choice.isSigned64, Api.Choice.least64, Api.Choice.greatest64, pow_63,
    Bool.and_eq_true, decide_eq_true_eq] at h
  omega

theorem range_floor64 (x : Float) :
    -(2 : Int) ^ 63 ≤ Api.Choice.floor64 x ∧ Api.Choice.floor64 x < (2 : Int) ^ 63 := by
  have hclamp : ∀ n, -(2 : Int) ^ 63 ≤ Api.Choice.clamp64 n ∧
      Api.Choice.clamp64 n < (2 : Int) ^ 63 := by
    intro n
    simp only [Api.Choice.clamp64, Api.Choice.least64, Api.Choice.greatest64, pow_63]
    omega
  rw [Api.Choice.floor64]
  split
  · decide
  · simp only [Api.Choice.least64, Api.Choice.greatest64, pow_63]
    split <;> omega
  · exact hclamp _

/-- The value of a member is in range where its position is. -/
theorem range_code {position : Nat} {choice : Api.Choice} (h : choice.Sized)
    (hposition : position < 2 ^ 63) :
    -(2 : Int) ^ 63 ≤ choice.code position ∧ choice.code position < (2 : Int) ^ 63 := by
  cases choice with
  | int n => exact range_of_isSigned64 h
  | float x => exact range_floor64 x
  | _ =>
    simp only [Api.Choice.code]
    omega

namespace Convert

/-! ## Literals of values -/

/-- What is known of a literal that is made of a value. -/
def Renders (l : Literal) (doubles : List Float) : Prop :=
  (l.Storable ↔ l.Finite) ∧ l.doubles ⊆ doubles

theorem renders_quoted (s : String) (doubles : List Float) :
    Renders (.quoted s) doubles := by
  simp [Renders, Literal.quoted, Literal.Storable, Literal.Finite, Literal.doubles]

theorem Renders.mono {l : Literal} {doubles others : List Float} (h : Renders l doubles)
    (hsub : doubles ⊆ others) : Renders l others :=
  ⟨h.1, List.Subset.trans h.2 hsub⟩

theorem renders_list {items : List Literal} {doubles : List Float}
    (h : ∀ l ∈ items, Renders l doubles) : Renders (.list items) doubles := by
  refine ⟨?_, fun x hx => ?_⟩
  · simp only [Literal.Storable, Literal.storableItems_iff, Literal.Finite, Literal.doubles,
      Literal.mem_doublesItems]
    constructor
    · rintro hall x ⟨l, hl, hx⟩
      exact (h l hl).1.mp (hall l hl) x hx
    · exact fun hall l hl => (h l hl).1.mpr fun x hx => hall x ⟨l, hl, hx⟩
  · obtain ⟨l, hl, hx⟩ := Literal.mem_doublesItems.mp hx
    exact (h l hl).2 hx

/-- The keys of a mapping are quoted, and a table has no other entries than those it is made of. -/
theorem renders_mapLiteral {entries : List (String × Literal)} {doubles : List Float}
    (h : ∀ entry ∈ entries, Renders entry.2 doubles) : Renders (mapLiteral entries) doubles := by
  have htable : ∀ entry ∈ (Table.ofList entries).map fun entry => (Literal.quoted entry.1, entry.2),
      Renders entry.1 doubles ∧ Renders entry.2 doubles := by
    refine List.forall_mem_map.mpr fun entry hentry => ⟨renders_quoted _ _, ?_⟩
    exact h entry (Table.mem_of_mem_ofList hentry)
  refine ⟨?_, fun x hx => ?_⟩
  · simp only [mapLiteral, Literal.Storable, Literal.storableEntries_iff, Literal.Finite,
      Literal.doubles, Literal.mem_doublesEntries]
    constructor
    · rintro hall x ⟨entry, hentry, hx | hx⟩
      · exact (htable entry hentry).1.1.mp (hall entry hentry).1 x hx
      · exact (htable entry hentry).2.1.mp (hall entry hentry).2 x hx
    · refine fun hall entry hentry => ⟨(htable entry hentry).1.1.mpr fun x hx => ?_,
        (htable entry hentry).2.1.mpr fun x hx => ?_⟩
      · exact hall x ⟨entry, hentry, .inl hx⟩
      · exact hall x ⟨entry, hentry, .inr hx⟩
  · obtain ⟨entry, hentry, hx | hx⟩ := Literal.mem_doublesEntries.mp hx
    · exact (htable entry hentry).1.2 hx
    · exact (htable entry hentry).2.2 hx

mutual
/-- A literal can be stored when it is finite: integers that do not fit are no literals. -/
theorem literal_renders : ∀ (v : Value) (l : Literal), literal v = .ok l → Renders l v.doubles
  | .null, _, h => nomatch h
  | .bool b, _, h => by
    obtain rfl := Except.ok.inj h
    simp [Renders, Literal.Storable, Literal.Finite, Literal.doubles]
  | .number (.int n), l, h => by
    rw [literal] at h
    split at h
    · rename_i hsigned
      obtain rfl := Except.ok.inj h
      have hrange := range_of_isSigned64 hsigned
      simpa [Renders, Literal.Storable, Literal.Finite, Literal.doubles] using hrange
    · cases h
  | .number (.float x), _, h => by
    obtain rfl := Except.ok.inj h
    simp [Renders, Literal.Storable, Literal.Finite, Literal.doubles, IsFinite,
      Yaml.Value.doubles]
  | .text s, _, h => by
    obtain rfl := Except.ok.inj h
    exact renders_quoted _ _
  | .sequence items, l, h => by
    obtain ⟨literals, hliterals, rfl⟩ := map_eq_ok.mp h
    exact renders_list (literalItems_render items literals hliterals)
  | .mapping entries, l, h => by
    obtain ⟨literals, hliterals, rfl⟩ := map_eq_ok.mp h
    exact renders_mapLiteral (literalEntries_render entries literals hliterals)
  | .tagged _ _, _, h => nomatch h

theorem literalItems_render : ∀ (items : List Value) (ls : List Literal),
    literalItems items = .ok ls → ∀ l ∈ ls, Renders l (Yaml.Value.doublesItems items)
  | [], _, h => by
    obtain rfl := Except.ok.inj h
    exact fun _ h => absurd h List.not_mem_nil
  | item :: rest, ls, h => by
    simp only [literalItems, bind_eq_ok] at h
    obtain ⟨first, hfirst, others, hothers, h⟩ := h
    obtain rfl := Except.ok.inj h
    refine List.forall_mem_cons.mpr ⟨?_, fun l hl => ?_⟩
    · exact (literal_renders item first hfirst).mono (List.subset_append_left _ _)
    · exact (literalItems_render rest others hothers l hl).mono (List.subset_append_right _ _)

theorem literalEntries_render : ∀ (entries : List (Value × Value)) (ls : List (String × Literal)),
    literalEntries entries = .ok ls →
      ∀ entry ∈ ls, Renders entry.2 (Yaml.Value.doublesEntries entries)
  | [], _, h => by
    obtain rfl := Except.ok.inj h
    exact fun _ h => absurd h List.not_mem_nil
  | (.text key, value) :: rest, ls, h => by
    simp only [literalEntries, bind_eq_ok] at h
    obtain ⟨first, hfirst, others, hothers, h⟩ := h
    obtain rfl := Except.ok.inj h
    refine List.forall_mem_cons.mpr ⟨?_, fun entry hentry => ?_⟩
    · refine (literal_renders value first hfirst).mono ?_
      exact List.Subset.trans (List.subset_append_right _ _) (List.subset_append_left _ _)
    · exact (literalEntries_render rest others hothers entry hentry).mono
        (List.subset_append_right _ _)
  | (.null, _) :: _, _, h => nomatch h
  | (.bool _, _) :: _, _, h => nomatch h
  | (.number _, _) :: _, _, h => nomatch h
  | (.sequence _, _) :: _, _, h => nomatch h
  | (.mapping _, _) :: _, _, h => nomatch h
  | (.tagged _ _, _) :: _, _, h => nomatch h
end

theorem defaultLiteral_renders {property : String} {value : Value} {l : Literal}
    (h : defaultLiteral property value = .ok (some l)) : Renders l value.doubles := by
  rw [defaultLiteral] at h
  split at h
  · cases h
  · split at h
    · rename_i hliteral
      obtain rfl := Option.some.inj (Except.ok.inj h)
      exact literal_renders value _ hliteral
    · cases h

/-! ## Defaults of fields -/

section Defaults

variable {plan : Plan} {stated : Api.Schema → Prop} {w : Workspace} {file : String} {m : Message}
  {field : Field} {l : Literal}

theorem propertyDefault_cases {property : String} {schema : Api.Schema} {type : TypeRef}
    (h : propertyDefault w file property schema type = .ok (some l)) : (∃ text, l = .text text) ∨
      ∃ value, schema.default = some value ∧ defaultLiteral property value = .ok (some l) := by
  rw [propertyDefault] at h
  split at h
  · cases h
  · rename_i value hvalue
    split at h
    · split at h
      · exact .inl ⟨_, (Option.some.inj (Except.ok.inj h)).symm⟩
      · exact .inr ⟨value, hvalue, h⟩
    · exact .inr ⟨value, hvalue, h⟩

/-- The doubles of a default stand in a default that the document states for a property. -/
theorem Made.renders (h : Made plan stated w file m) (hfield : field ∈ m.fields)
    (hl : l ∈ field.default) : (l.Storable ↔ l.Finite) ∧ ∀ x ∈ l.doubles, ∃ object entry value,
      plan.glossary.ObjectOf stated object ∧ entry ∈ object.properties ∧
        entry.2.default = some value ∧ x ∈ value.doubles := by
  cases h with
  | request _ hdefaults _ =>
    rw [hdefaults field hfield] at hl
    cases hl
  | @struct object hobject hformed =>
    obtain ⟨fields, hfields, heq⟩ := hformed
    rw [congrArg Message.fields heq] at hfield
    obtain ⟨plain, hplain, id, rfl⟩ := mem_renumberFrom hfield
    obtain ⟨entry, hentry, hmade⟩ := exists_left_of_forall₂ hfields hplain
    obtain ⟨w₀, -, -, hdefault⟩ := hmade.default
    rw [hl] at hdefault
    rcases propertyDefault_cases hdefault with ⟨text, rfl⟩ | ⟨value, hvalue, hliteral⟩
    · simp [Literal.Storable, Literal.Finite, Literal.doubles]
    · obtain ⟨hiff, hdoubles⟩ := defaultLiteral_renders hliteral
      exact ⟨hiff, fun x hx => ⟨object, entry, value, hobject, hentry, hvalue, hdoubles hx⟩⟩

end Defaults

end Convert

/-! ## Numbers of fields and members -/

theorem numbered_range_iff {fields : List Field} (h : Numbered fields) :
    (∀ f ∈ fields, -(2 : Int) ^ 31 ≤ f.id ∧ f.id < (2 : Int) ^ 31) ↔
      fields.length < 2 ^ 31 := by
  have hids : (∀ f ∈ fields, -(2 : Int) ^ 31 ≤ f.id ∧ f.id < (2 : Int) ^ 31) ↔
      ∀ id ∈ fields.map Field.id, -(2 : Int) ^ 31 ≤ id ∧ id < (2 : Int) ^ 31 := by
    rw [List.forall_mem_map]
  rw [hids, h, List.forall_mem_map]
  simp only [List.mem_range]
  constructor
  · intro hall
    by_contra hlong
    have hlast := hall (2 ^ 31 - 1) (by omega)
    omega
  · intro hlength i hi
    omega

/-- The numbers of fields and the values of members have the bits that JSON leaves them. -/
structure Definitions.Countable (d : Definitions) : Prop where
  fields : ∀ m ∈ d.messages, m.fields.length < 2 ^ 31
  throws : ∀ s ∈ d.services, ∀ function ∈ s.functions, function.throws.length < 2 ^ 31
  values : ∀ e ∈ d.enums, ∀ m ∈ e.members, -(2 : Int) ^ 63 ≤ m.value ∧ m.value < (2 : Int) ^ 63

/-- The values of an enumeration are in range where their positions are. -/
theorem Convert.range_enumeration {file name : String} {s : Api.Schema}
    (h : ∀ choice ∈ s.choices, choice.Sized)
    (hlength : (enumeration file name s).members.length ≤ 2 ^ 63) :
    ∀ m ∈ (enumeration file name s).members,
      -(2 : Int) ^ 63 ≤ m.value ∧ m.value < (2 : Int) ^ 63 := by
  intro m hm
  obtain ⟨i, hmember⟩ := List.mem_iff_getElem?.mp hm
  obtain ⟨hi, -⟩ := List.getElem?_eq_some_iff.mp hmember
  simp only [enumeration, getElem?_membersFrom, Option.map_eq_some_iff, Nat.zero_add] at hmember
  obtain ⟨choice, hchoice, rfl⟩ := hmember
  exact range_code (h choice (List.mem_of_getElem? hchoice)) (by omega)

theorem Annotation.Quotes.storable {a : Annotation} (h : a.Quotes) : a.Storable := by
  intro value hvalue
  obtain ⟨raw, rfl⟩ := h value hvalue
  trivial

namespace Convert.Finished

variable {plan : Plan} {stated : Api.Schema → Prop} {service : String} {answers : List Answer}
  {w : Workspace} {schema : Schema} {f : File} {s : Service} {m : Message} {e : Enumeration}

variable (h : Finished plan stated service answers w schema) (hf : f ∈ schema.files)
include h hf

/-- What is written besides numbers and defaults can be stored. -/
theorem quoting_file : (∀ m ∈ f.definitions.messages, Quoting m.attachments) ∧
    (∀ e ∈ f.definitions.enums, Quoting e.attachments) ∧
    (∀ t ∈ f.definitions.typedefs, Quoting t.attachments) ∧
    (∀ s ∈ f.definitions.services, Quoting s.attachments) := by
  have hall := (File.quoting_iff.mp (quoting_flatMap.mp h.quoting f hf)).2
  rw [Definitions.forall_mem_entries] at hall
  obtain ⟨hmessages, henums, htypedefs, -, hservices⟩ := hall
  exact ⟨hmessages, henums, htypedefs, hservices⟩

theorem storable_message (hm : m ∈ f.definitions.messages) : m.Storable ↔
    m.fields.length < 2 ^ 31 ∧ ∀ field ∈ m.fields, ∀ l ∈ field.default, l.Finite := by
  have hnumbered := numbered_range_iff (h.numbered_message hf hm)
  have hdefault : ∀ field ∈ m.fields, ∀ l ∈ field.default, (l.Storable ↔ l.Finite) :=
    fun field hfield l hl => ((h.made hf hm).renders hfield hl).1
  obtain ⟨hheader, hfields⟩ := Message.quoting_iff.mp ((h.quoting_file hf).1 m hm)
  constructor
  · intro hstorable
    exact ⟨hnumbered.mp fun field hfield => (hstorable.fields field hfield).id,
      fun field hfield l hl =>
        (hdefault field hfield l hl).mp ((hstorable.fields field hfield).default l hl)⟩
  · rintro ⟨hlength, hfinite⟩
    exact {
      fields := fun field hfield => {
        id := hnumbered.mpr hlength field hfield
        default := fun l hl => (hdefault field hfield l hl).mpr (hfinite field hfield l hl)
        annotations := fun a ha => (hfields field hfield a ha).storable }
      annotations := fun a ha => (hheader a ha).storable }

theorem storable_enumeration (he : e ∈ f.definitions.enums) : e.Storable ↔
    ∀ m ∈ e.members, -(2 : Int) ^ 63 ≤ m.value ∧ m.value < (2 : Int) ^ 63 := by
  have hquoting := (h.quoting_file hf).2.1 e he
  rw [Enumeration.attachments, quoting_append, quoting_attach, quoting_flatMap] at hquoting
  refine ⟨fun hstorable m hm => (hstorable.members m hm).value, fun hvalues => ?_⟩
  exact {
    members := fun m hm => {
      value := hvalues m hm
      annotations := fun a ha => (quoting_attach.mp (hquoting.2 m hm) a ha).storable }
    annotations := fun a ha => (hquoting.1 a ha).storable }

theorem storable_service (hs : s ∈ f.definitions.services) : s.Storable ↔
    ∀ function ∈ s.functions, function.throws.length < 2 ^ 31 := by
  have hquoting := (h.quoting_file hf).2.2.2 s hs
  rw [Service.attachments, quoting_append, quoting_attach, quoting_flatMap] at hquoting
  have hnumbered : ∀ function ∈ s.functions, _ := fun function hfunction =>
    let ⟨_, a, ha, heq⟩ := h.exists_answer hf hs hfunction
    numbered_range_iff (heq ▸ (h.holds a ha).thrownNumbers)
  refine ⟨fun hstorable function hfunction => ?_, fun hlength => ?_⟩
  · exact (hnumbered function hfunction).mp fun field hfield =>
      ((hstorable.functions function hfunction).throws field hfield).id
  · refine ⟨fun function hfunction => ?_, fun a ha => (hquoting.1 a ha).storable⟩
    obtain ⟨hparameters, hthrows, hannotations⟩ :=
      ServiceFunction.quoting_iff.mp (hquoting.2 function hfunction)
    obtain ⟨-, a, ha, rfl⟩ := h.exists_answer hf hs hfunction
    exact {
      parameters := by
        rw [(h.holds a ha).parameters]
        exact List.forall_mem_singleton.mpr ⟨by norm_num, nofun, nofun⟩
      throws := fun field hfield => by
        obtain ⟨entry, -, hthrown⟩ := exists_left_of_forall₂ (h.holds a ha).throws hfield
        refine ⟨(hnumbered _ hfunction).mpr (hlength _ hfunction) field hfield, ?_, ?_⟩
        · simp [hthrown.unset]
        · simp [hthrown.bare]
      annotations := fun a ha => (hannotations a ha).storable }

theorem storable_file : f.Storable ↔ f.definitions.Countable ∧
    ∀ m ∈ f.definitions.messages, ∀ field ∈ m.fields, ∀ l ∈ field.default, l.Finite := by
  have hconstants : f.definitions.constants = [] := by
    have hperm := (h.files f hf).constants
    rw [(h.coherent.sound f.path).constants] at hperm
    exact hperm.eq_nil
  constructor
  · rintro ⟨-, -, hservices, hmessages, henums, -, -⟩
    have hparts := fun m hm => (h.storable_message hf hm).mp (hmessages m hm)
    exact ⟨⟨fun m hm => (hparts m hm).1,
      fun s hs => (h.storable_service hf hs).mp (hservices s hs),
      fun e he => (h.storable_enumeration hf he).mp (henums e he)⟩, fun m hm => (hparts m hm).2⟩
  · rintro ⟨hcount, hfinite⟩
    exact {
      namespaces := fun n hn a ha => by simp [h.namespaces f hf n hn] at ha
      options := fun a ha => by simp [h.options f hf] at ha
      definitions := {
        services := fun s hs => (h.storable_service hf hs).mpr (hcount.throws s hs)
        messages := fun m hm =>
          (h.storable_message hf hm).mpr ⟨hcount.fields m hm, hfinite m hm⟩
        enums := fun e he => (h.storable_enumeration hf he).mpr (hcount.values e he)
        constants := by simp [hconstants]
        typedefs := fun t ht a ha =>
          (quoting_attach.mp ((h.quoting_file hf).2.2.1 t ht) a ha).storable } }

end Convert.Finished

/-- A converted schema is read back from JSON exactly when its numbers are in range and the defaults
of its fields are finite; the values of an enumeration are in range where their positions are. A
default by itself is read back exactly when it is finite, and what is not finite in it stands in a
default that the document states for a property. -/
theorem convertDocument_round_trips_iff {file : String} {bytes : List UInt8} {options : Options}
    {schema : Schema} (h : convertDocument file bytes options = .ok schema) :
    (RoundTrips Schema.toJson Schema.ofJson? schema ↔
      (∀ f ∈ schema.files, f.definitions.Countable) ∧
      ∀ f ∈ schema.files, ∀ m ∈ f.definitions.messages, ∀ field ∈ m.fields,
        ∀ l ∈ field.default, l.Finite) ∧
    (∀ f ∈ schema.files, ∀ e ∈ f.definitions.enums, e.members.length ≤ 2 ^ 63 →
      ∀ m ∈ e.members, -(2 : Int) ^ 63 ≤ m.value ∧ m.value < (2 : Int) ^ 63) ∧
    ∃ document, readDocument file bytes = .ok document ∧
      ∀ f ∈ schema.files, ∀ m ∈ f.definitions.messages, ∀ field ∈ m.fields,
        ∀ l ∈ field.default, (RoundTrips Literal.toJson Literal.ofJson? l ↔ l.Finite) ∧
          ∀ x ∈ l.doubles, ∃ object entry value,
            Convert.Glossary.ObjectOf ⟨document.schemas, options.policy⟩
              (Api.StatedIn document.paths) object ∧ entry ∈ object.properties ∧
            entry.2.default = some value ∧ x ∈ value.doubles := by
  obtain ⟨document, plan, answers, w, hread, -, hglossary, -, hfinished⟩ :=
    Convert.convertDocument_finished h
  have htidy := readDocument_tidy hread
  refine ⟨?_, fun f hf e he hlength m hm => ?_, document, hread,
    fun f hf m hm field hfield l hl => ?_⟩
  · rw [roundTrips_iff, Schema.ofJson?_toJson_iff]
    constructor
    · intro hstorable
      have hparts := fun f hf => (hfinished.storable_file hf).mp (hstorable f hf)
      exact ⟨fun f hf => (hparts f hf).1, fun f hf => (hparts f hf).2⟩
    · rintro ⟨hcount, hfinite⟩ f hf
      exact (hfinished.storable_file hf).mpr ⟨hcount f hf, hfinite f hf⟩
  · obtain ⟨source, hsource, heq⟩ := hfinished.listed hf he
    rw [Convert.Glossary.Holds, hglossary] at hsource
    have hsized := (Api.Held.tidy htidy.schemas (fun _ hs => htidy.statedIn hs) hsource).choices
    exact Convert.range_enumeration hsized (heq ▸ hlength) m (heq ▸ hm)
  · obtain ⟨hiff, hdoubles⟩ := (hfinished.made hf hm).renders hfield hl
    rw [hglossary] at hdoubles
    exact ⟨by rw [roundTrips_iff, Literal.ofJson?_toJson_iff, hiff], hdoubles⟩

/-- Which fields of a schema have a default. -/
def Schema.defaulted (s : Schema) : List Bool :=
  s.files.flatMap fun f => f.definitions.messages.flatMap fun m =>
    m.fields.map fun field => field.default.isSome

/-- A number has a default that JSON has no number for. -/
def boundlessDocument : List UInt8 :=
  ("swagger: \"2.0\"\npaths: {}\ndefinitions:\n  Pet:\n    properties:\n" ++
    "      weight:\n        type: number\n        default: .inf\n").toUTF8.data.toList

theorem boundlessDocument_defaulted :
    ∃ schema, convertDocument "pets.yaml" boundlessDocument {} = .ok schema ∧
      (schema.defaulted, (Schema.ofJson? schema.toJson).map Schema.defaulted) =
        ([true], some [false]) := by
  refine exists_of_toOption ?_
  decide +kernel

theorem boundlessDocument_round_trips_iff :
    ∃ schema, convertDocument "pets.yaml" boundlessDocument {} = .ok schema ∧
      (RoundTrips Schema.toJson Schema.ofJson? schema ↔
        (∀ f ∈ schema.files, f.definitions.Countable) ∧
        ∀ f ∈ schema.files, ∀ m ∈ f.definitions.messages, ∀ field ∈ m.fields,
          ∀ l ∈ field.default, l.Finite) := by
  obtain ⟨schema, h, -⟩ := boundlessDocument_defaulted
  exact ⟨schema, h, (convertDocument_round_trips_iff h).1⟩

/-- What is read back is another schema, in which the field has no default. -/
theorem boundlessDocument_loses_default :
    ∃ schema, convertDocument "pets.yaml" boundlessDocument {} = .ok schema ∧
      ¬ RoundTrips Schema.toJson Schema.ofJson? schema ∧
      ∃ back, Schema.ofJson? schema.toJson = some back ∧
        (∃ f ∈ schema.files, ∃ m ∈ f.definitions.messages, ∃ field ∈ m.fields,
          field.default ≠ none) ∧
        ∀ f ∈ back.files, ∀ m ∈ f.definitions.messages, ∀ field ∈ m.fields,
          field.default = none := by
  obtain ⟨schema, h, hdefaulted⟩ := boundlessDocument_defaulted
  obtain ⟨hbefore, hafter⟩ := Prod.mk.inj hdefaulted
  obtain ⟨back, hback, hnone⟩ := Option.map_eq_some_iff.mp hafter
  refine ⟨schema, h, fun hround => ?_, back, hback, ?_, fun f hf m hm field hfield => ?_⟩
  · rw [hround.1] at hback
    rw [← Option.some.inj hback, hbefore] at hnone
    cases hnone
  · have hfirst : true ∈ schema.defaulted := by simp [hbefore]
    simp only [Schema.defaulted, List.mem_flatMap, List.mem_map] at hfirst
    obtain ⟨f, hf, m, hm, field, hfield, hsome⟩ := hfirst
    exact ⟨f, hf, m, hm, field, hfield, Option.isSome_iff_ne_none.mp hsome⟩
  · have hmem : field.default.isSome ∈ back.defaulted := by
      simp only [Schema.defaulted, List.mem_flatMap, List.mem_map]
      exact ⟨f, hf, m, hm, field, hfield, rfl⟩
    rw [hnone, List.mem_singleton] at hmem
    simpa using hmem

end RestThrift
