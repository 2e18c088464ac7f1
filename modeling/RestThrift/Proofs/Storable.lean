import Mathlib
import RestThrift.Proofs.Reading
import RestThrift.Proofs.RoundTrip

/-!
# What JSON cannot hold

Only a value that JSON can hold is read back: an integer out of range is refused or becomes a
double, and a double that is no number is written as null. Each record gives back its parts, so
that a schema is read back exactly when all its parts are.
-/
namespace RestThrift

open Json

namespace Json

variable {α : Type} {name : String} {members : Members} {read : Json → Option α} {write : α → Json}
  {l : List α} {o : Option α}

/-- Items of a list that is read back are read back. -/
theorem forall_of_items? (h : items? read (.arr (l.map write)) = some l) :
    ∀ a ∈ l, read (write a) = some a := by
  rw [items?, Api.Reading.mapM_eq_some_iff, List.forall₂_map_left_iff, List.forall₂_same] at h
  exact h

theorem range_of_signed? {bits : Nat} {n m : Int} (h : signed? bits (.int n) = some m) :
    -(2 : Int) ^ (bits - 1) ≤ n ∧ n < (2 : Int) ^ (bits - 1) := by
  have hpow : ((Nat.pow 2 (bits - 1) : Nat) : Int) = 2 ^ (bits - 1) := by
    rw [Nat.pow_eq, Nat.cast_pow, Nat.cast_ofNat]
  simp only [signed?, hpow] at h
  split at h
  · assumption
  · cases h

theorem Members.forall_of_withDefault (h : members.withDefault name [] (items? read) = some l)
    (hmember : member? name members =
      if (l.map write).isEmpty then none else some (.arr (l.map write))) :
    ∀ a ∈ l, read (write a) = some a := by
  cases l with
  | nil => exact fun _ h => absurd h List.not_mem_nil
  | cons a rest =>
    rw [withDefault, hmember, if_neg (by simp)] at h
    exact forall_of_items? h

theorem Members.forall_of_optional (h : members.optional name read = some o)
    (hmember : member? name members = o.map write) : ∀ a ∈ o, read (write a) = some a := by
  rintro a ⟨⟩
  rw [optional, hmember, Option.map_some] at h
  split at h
  · cases h
  · cases h
  · rename_i hvalue
    obtain ⟨b, hb, heq⟩ := Option.map_eq_some_iff.mp h
    rw [Option.some.inj hvalue, hb, Option.some.inj heq]

end Json

/-! ## Literals -/

/-- An integer that is read as such has 64 bits. -/
theorem Literal.range_of_ofInt {n m : Int} (h : ofInt n = .int m) :
    -(2 : Int) ^ 63 ≤ n ∧ n < (2 : Int) ^ 63 := by
  rw [ofInt] at h
  split at h
  · rename_i hsigned
    obtain ⟨k, hk⟩ := Option.isSome_iff_exists.mp hsigned
    exact range_of_signed? hk
  · cases h

mutual
theorem Literal.storable_of_ofJsonWithin : ∀ (l : Literal) (depth : Nat),
    ofJsonWithin depth l.toJson = some l → l.Storable
  | _, 0, h => nomatch h
  | .bool _, _ + 1, _ => trivial
  | .int _, _ + 1, h => range_of_ofInt (Option.some.inj h)
  | .float x, depth + 1, h => by
    rw [Storable]
    by_contra hnot
    simp [toJson, hnot, ofJsonWithin] at h
  | .text _, _ + 1, _ => trivial
  | .list items, depth + 1, h => by
    rw [toJson, ofJsonWithin, Option.map_eq_some_iff] at h
    obtain ⟨others, hothers, heq⟩ := h
    rw [Literal.list.inj heq] at hothers
    exact Literal.storable_of_toJsonItems items depth hothers
  | .map entries, depth + 1, h => by
    rw [toJson, ofJsonWithin_obj, Option.bind_eq_some_iff] at h
    obtain ⟨others, hothers, heq⟩ := h
    rw [Literal.map.inj (Option.some.inj heq)] at hothers
    exact Literal.storable_of_toJsonEntries entries depth hothers

theorem Literal.storable_of_toJsonItems : ∀ (items : List Literal) (depth : Nat),
    (toJsonItems items).mapM (ofJsonWithin depth) = some items → Literal.StorableItems items
  | [], _, _ => trivial
  | item :: rest, depth, h => by
    simp only [toJsonItems, List.mapM_cons, Convert.bind_eq_some, Option.pure_def] at h
    obtain ⟨first, hfirst, others, hothers, heq⟩ := h
    obtain ⟨hitem, hrest⟩ := List.cons.inj (Option.some.inj heq)
    rw [hitem] at hfirst
    rw [hrest] at hothers
    exact ⟨Literal.storable_of_ofJsonWithin item depth hfirst,
      Literal.storable_of_toJsonItems rest depth hothers⟩

theorem Literal.storable_of_toJsonEntries : ∀ (entries : List (Literal × Literal)) (depth : Nat),
    (toJsonEntries entries).mapM (readEntry depth) = some entries →
      Literal.StorableEntries entries
  | [], _, _ => trivial
  | (key, value) :: rest, depth, h => by
    simp only [toJsonEntries, List.mapM_cons, Convert.bind_eq_some, Option.pure_def] at h
    obtain ⟨⟨first, second⟩, hentry, others, hothers, heq⟩ := h
    obtain ⟨hpair, hrest⟩ := List.cons.inj (Option.some.inj heq)
    rw [hpair] at hentry
    rw [hrest] at hothers
    simp [readEntry, record?, Members.required, Option.bind_eq_some_iff] at hentry
    exact ⟨Literal.storable_of_ofJsonWithin key depth hentry.1,
      Literal.storable_of_ofJsonWithin value depth hentry.2,
      Literal.storable_of_toJsonEntries rest depth hothers⟩
end

theorem Literal.ofJson?_toJson_iff {l : Literal} : ofJson? l.toJson = some l ↔ l.Storable :=
  ⟨l.storable_of_ofJsonWithin _, Literal.ofJson?_toJson⟩

/-! ## Records -/

section Readers

variable {members : Members} {annotations : List Annotation} {default : Option Literal}

theorem storable_of_optional {name : String}
    (h : members.optional name Literal.ofJson? = some default)
    (hmember : member? name members = default.map Literal.toJson) :
    ∀ value ∈ default, value.Storable :=
  fun value hvalue =>
    Literal.ofJson?_toJson_iff.mp (Members.forall_of_optional h hmember value hvalue)

theorem Annotation.ofJson?_toJson_iff {a : Annotation} :
    ofJson? a.toJson = some a ↔ a.Storable := by
  refine ⟨fun h => ?_, Annotation.ofJson?_toJson⟩
  simp only [ofJson?, toJson, record?, Convert.bind_eq_some, Option.pure_def, Option.some.injEq,
    exists_eq_left'] at h
  obtain ⟨name, -, value, hvalue, heq⟩ := h
  obtain rfl : value = a.value := congrArg Annotation.value heq
  exact storable_of_optional hvalue (by simp)

theorem storable_of_readAnnotations (h : readAnnotations members = some annotations)
    (hmember : member? "annotations" members =
      if (annotations.map Annotation.toJson).isEmpty then none
      else some (.arr (annotations.map Annotation.toJson))) :
    ∀ a ∈ annotations, a.Storable :=
  fun a ha => Annotation.ofJson?_toJson_iff.mp (Members.forall_of_withDefault h hmember a ha)

end Readers

theorem Field.ofJson?_toJson_iff {f : Field} : ofJson? f.toJson = some f ↔ f.Storable := by
  refine ⟨fun h => ?_, Field.ofJson?_toJson⟩
  simp only [ofJson?, toJson, record?, annotationsMember, commentsMember, locationMember,
    Convert.bind_eq_some, Option.pure_def, Option.some.injEq, exists_eq_left'] at h
  obtain ⟨id, hid, _, -, _, -, _, -, default, hdefault, annotations, hannotations, _, -, _, -,
    heq⟩ := h
  obtain rfl : id = f.id := congrArg Field.id heq
  obtain rfl : default = f.default := congrArg Field.default heq
  obtain rfl : annotations = f.annotations := congrArg Field.annotations heq
  have hnumber : signed? 32 (.int f.id) = some f.id := by simpa [Members.required] using hid
  exact {
    id := range_of_signed? hnumber
    default := storable_of_optional hdefault (by simp)
    annotations := storable_of_readAnnotations hannotations (by simp) }

theorem Message.ofJson?_toJson_iff {m : Message} : ofJson? m.toJson = some m ↔ m.Storable := by
  refine ⟨fun h => ?_, Message.ofJson?_toJson⟩
  simp only [ofJson?, toJson, record?, annotationsMember, commentsMember, locationMember,
    contentMember, Convert.bind_eq_some, Option.pure_def, Option.some.injEq, exists_eq_left'] at h
  obtain ⟨_, -, _, -, _, -, fields, hfields, annotations, hannotations, _, -, _, -, _, -, heq⟩ := h
  obtain rfl : fields = m.fields := congrArg Message.fields heq
  obtain rfl : annotations = m.annotations := congrArg Message.annotations heq
  have hitems : items? Field.ofJson? (.arr (m.fields.map Field.toJson)) = some m.fields := by
    simpa [Members.withDefault] using hfields
  exact {
    fields := fun f hf => Field.ofJson?_toJson_iff.mp (forall_of_items? hitems f hf)
    annotations := storable_of_readAnnotations hannotations (by simp) }

theorem EnumMember.ofJson?_toJson_iff {m : EnumMember} :
    ofJson? m.toJson = some m ↔ m.Storable := by
  refine ⟨fun h => ?_, EnumMember.ofJson?_toJson⟩
  simp only [ofJson?, toJson, record?, annotationsMember, commentsMember, Convert.bind_eq_some,
    Option.pure_def, Option.some.injEq, exists_eq_left'] at h
  obtain ⟨_, -, value, hvalue, annotations, hannotations, _, -, heq⟩ := h
  obtain rfl : value = m.value := congrArg EnumMember.value heq
  obtain rfl : annotations = m.annotations := congrArg EnumMember.annotations heq
  have hnumber : signed? 64 (.int m.value) = some m.value := by
    simpa [Members.required] using hvalue
  exact {
    value := range_of_signed? hnumber
    annotations := storable_of_readAnnotations hannotations (by simp) }

theorem Enumeration.ofJson?_toJson_iff {e : Enumeration} :
    ofJson? e.toJson = some e ↔ e.Storable := by
  refine ⟨fun h => ?_, Enumeration.ofJson?_toJson⟩
  simp only [ofJson?, toJson, record?, annotationsMember, commentsMember, locationMember,
    contentMember, Convert.bind_eq_some, Option.pure_def, Option.some.injEq, exists_eq_left'] at h
  obtain ⟨_, -, _, -, members, hmembers, annotations, hannotations, _, -, _, -, _, -, heq⟩ := h
  obtain rfl : members = e.members := congrArg Enumeration.members heq
  obtain rfl : annotations = e.annotations := congrArg Enumeration.annotations heq
  have hitems : items? EnumMember.ofJson? (.arr (e.members.map EnumMember.toJson)) =
      some e.members := by
    simpa [Members.withDefault] using hmembers
  exact {
    members := fun m hm => EnumMember.ofJson?_toJson_iff.mp (forall_of_items? hitems m hm)
    annotations := storable_of_readAnnotations hannotations (by simp) }

theorem Constant.ofJson?_toJson_iff {c : Constant} : ofJson? c.toJson = some c ↔ c.Storable := by
  refine ⟨fun h => ?_, Constant.ofJson?_toJson⟩
  simp only [ofJson?, toJson, record?, Convert.bind_eq_some, Option.pure_def, Option.some.injEq,
    exists_eq_left'] at h
  obtain ⟨_, -, _, -, _, -, value, hvalue, _, -, _, -, _, -, heq⟩ := h
  obtain rfl : value = c.value := congrArg Constant.value heq
  exact Literal.ofJson?_toJson_iff.mp (by simpa [Members.required] using hvalue)

theorem Typedef.ofJson?_toJson_iff {t : Typedef} : ofJson? t.toJson = some t ↔ t.Storable := by
  refine ⟨fun h => ?_, Typedef.ofJson?_toJson⟩
  simp only [ofJson?, toJson, record?, annotationsMember, commentsMember, locationMember,
    contentMember, Convert.bind_eq_some, Option.pure_def, Option.some.injEq, exists_eq_left'] at h
  obtain ⟨_, -, _, -, _, -, annotations, hannotations, _, -, _, -, _, -, heq⟩ := h
  obtain rfl : annotations = t.annotations := congrArg Typedef.annotations heq
  exact storable_of_readAnnotations hannotations (by simp)

theorem ServiceFunction.ofJson?_toJson_iff {f : ServiceFunction} :
    ofJson? f.toJson = some f ↔ f.Storable := by
  refine ⟨fun h => ?_, ServiceFunction.ofJson?_toJson⟩
  simp only [ofJson?, toJson, record?, annotationsMember, commentsMember, locationMember,
    Convert.bind_eq_some, Option.pure_def, Option.some.injEq, exists_eq_left'] at h
  obtain ⟨_, -, _, -, _, -, _, -, parameters, hparameters, throws, hthrows, annotations,
    hannotations, _, -, _, -, heq⟩ := h
  obtain rfl : parameters = f.parameters := congrArg ServiceFunction.parameters heq
  obtain rfl : throws = f.throws := congrArg ServiceFunction.throws heq
  obtain rfl : annotations = f.annotations := congrArg ServiceFunction.annotations heq
  have hfirst : items? Field.ofJson? (.arr (f.parameters.map Field.toJson)) =
      some f.parameters := by
    simpa [Members.withDefault] using hparameters
  have hsecond : items? Field.ofJson? (.arr (f.throws.map Field.toJson)) = some f.throws := by
    simpa [Members.withDefault] using hthrows
  exact {
    parameters := fun p hp => Field.ofJson?_toJson_iff.mp (forall_of_items? hfirst p hp)
    throws := fun t ht => Field.ofJson?_toJson_iff.mp (forall_of_items? hsecond t ht)
    annotations := storable_of_readAnnotations hannotations (by simp) }

theorem Service.ofJson?_toJson_iff {s : Service} : ofJson? s.toJson = some s ↔ s.Storable := by
  refine ⟨fun h => ?_, Service.ofJson?_toJson⟩
  simp only [ofJson?, toJson, record?, annotationsMember, commentsMember, locationMember,
    contentMember, Convert.bind_eq_some, Option.pure_def, Option.some.injEq, exists_eq_left'] at h
  obtain ⟨_, -, _, -, _, -, functions, hfunctions, annotations, hannotations, _, -, _, -, _, -,
    heq⟩ := h
  obtain rfl : functions = s.functions := congrArg Service.functions heq
  obtain rfl : annotations = s.annotations := congrArg Service.annotations heq
  have hitems : items? ServiceFunction.ofJson? (.arr (s.functions.map ServiceFunction.toJson)) =
      some s.functions := by
    simpa [Members.withDefault] using hfunctions
  exact {
    functions := fun f hf => ServiceFunction.ofJson?_toJson_iff.mp (forall_of_items? hitems f hf)
    annotations := storable_of_readAnnotations hannotations (by simp) }

theorem Definitions.ofJson?_toJson_iff {d : Definitions} :
    ofJson? d.toJson = some d ↔ d.Storable := by
  refine ⟨fun h => ?_, Definitions.ofJson?_toJson⟩
  simp only [ofJson?, toJson, record?, Convert.bind_eq_some, Option.pure_def, Option.some.injEq,
    exists_eq_left'] at h
  obtain ⟨services, hservices, messages, hmessages, enums, henums, constants, hconstants, typedefs,
    htypedefs, heq⟩ := h
  obtain rfl := heq
  simp only [Members.withDefault, member?_cons, if_true] at hservices
  simp [Members.withDefault] at hmessages henums hconstants htypedefs
  exact {
    services := fun s hs => Service.ofJson?_toJson_iff.mp (forall_of_items? hservices s hs)
    messages := fun m hm => Message.ofJson?_toJson_iff.mp (forall_of_items? hmessages m hm)
    enums := fun e he => Enumeration.ofJson?_toJson_iff.mp (forall_of_items? henums e he)
    constants := fun c hc => Constant.ofJson?_toJson_iff.mp (forall_of_items? hconstants c hc)
    typedefs := fun t ht => Typedef.ofJson?_toJson_iff.mp (forall_of_items? htypedefs t ht) }

theorem Namespace.ofJson?_toJson_iff {n : Namespace} :
    ofJson? n.toJson = some n ↔ n.Storable := by
  refine ⟨fun h => ?_, Namespace.ofJson?_toJson⟩
  simp only [ofJson?, toJson, record?, annotationsMember, commentsMember, locationMember,
    Convert.bind_eq_some, Option.pure_def, Option.some.injEq, exists_eq_left'] at h
  obtain ⟨_, -, _, -, annotations, hannotations, _, -, _, -, heq⟩ := h
  obtain rfl : annotations = n.annotations := congrArg Namespace.annotations heq
  exact storable_of_readAnnotations hannotations (by simp)

theorem File.ofJson?_toJson_iff {f : File} : ofJson? f.toJson = some f ↔ f.Storable := by
  refine ⟨fun h => ?_, File.ofJson?_toJson⟩
  simp only [ofJson?, toJson, record?, Convert.bind_eq_some, Option.pure_def, Option.some.injEq,
    exists_eq_left'] at h
  obtain ⟨_, -, _, -, _, -, _, -, namespaces, hnamespaces, options, hoptions, definitions,
    hdefinitions, heq⟩ := h
  obtain rfl : namespaces = f.namespaces := congrArg File.namespaces heq
  obtain rfl : options = f.options := congrArg File.options heq
  obtain rfl : definitions = f.definitions := congrArg File.definitions heq
  have hfirst : items? Namespace.ofJson? (.arr (f.namespaces.map Namespace.toJson)) =
      some f.namespaces := by
    simpa [Members.withDefault, locationMember] using hnamespaces
  have hsecond : items? Annotation.ofJson? (.arr (f.options.map Annotation.toJson)) =
      some f.options := by
    simpa [Members.withDefault, locationMember] using hoptions
  exact {
    namespaces := fun n hn => Namespace.ofJson?_toJson_iff.mp (forall_of_items? hfirst n hn)
    options := fun a ha => Annotation.ofJson?_toJson_iff.mp (forall_of_items? hsecond a ha)
    definitions := Definitions.ofJson?_toJson_iff.mp
      (by simpa [Members.withDefault, locationMember] using hdefinitions) }

/-- Exactly the schemas whose integers are in range and whose doubles are finite are read back. -/
theorem Schema.ofJson?_toJson_iff {s : Schema} : ofJson? s.toJson = some s ↔ s.Storable := by
  refine ⟨fun h f hf => ?_, Schema.ofJson?_toJson⟩
  simp only [ofJson?, toJson, record?, Convert.bind_eq_some, Option.pure_def, Option.some.injEq,
    exists_eq_left'] at h
  obtain ⟨_, -, _, -, files, hfiles, heq⟩ := h
  obtain rfl : files = s.files := congrArg Schema.files heq
  have hitems : items? File.ofJson? (.arr (s.files.map File.toJson)) = some s.files := by
    simpa [Members.required] using hfiles
  exact File.ofJson?_toJson_iff.mp (forall_of_items? hitems f hf)

/-- Whatever is read back is written the same again. -/
theorem roundTrips_iff {α : Type} {write : α → Json} {read : Json → Option α} {a : α} :
    RoundTrips write read a ↔ read (write a) = some a :=
  ⟨And.left, roundTrips_of_eq⟩

end RestThrift
