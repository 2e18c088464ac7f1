import Mathlib
import RestThrift.Proofs.Records
import RestThrift.Thrift.Codec

/-!
# Schemas read back from JSON

A value whose integers are in range and whose doubles are finite is read back from its JSON form.
Types and literals nest, so that for them the depth of the form is enough; all other parts are
records, which are read member by member.
-/
namespace RestThrift

open Json

/-! ## Values that JSON can hold -/

mutual
/-- Integers have 64 bits, and doubles are finite, at any depth. -/
def Literal.Storable : Literal → Prop
  | .int n => -(2 : Int) ^ 63 ≤ n ∧ n < (2 : Int) ^ 63
  | .float x => (Decimal.Binary.ofFloat x).isFinite = true
  | .list items => Literal.StorableItems items
  | .map entries => Literal.StorableEntries entries
  | .bool _ => True
  | .text _ => True

def Literal.StorableItems : List Literal → Prop
  | [] => True
  | item :: rest => Literal.Storable item ∧ Literal.StorableItems rest

def Literal.StorableEntries : List (Literal × Literal) → Prop
  | [] => True
  | (key, value) :: rest =>
    Literal.Storable key ∧ Literal.Storable value ∧ Literal.StorableEntries rest
end

def Annotation.Storable (a : Annotation) : Prop := ∀ value ∈ a.value, value.Storable

/-- Numbers of fields have 32 bits. -/
structure Field.Storable (f : Field) : Prop where
  id : -(2 : Int) ^ 31 ≤ f.id ∧ f.id < (2 : Int) ^ 31
  default : ∀ value ∈ f.default, value.Storable
  annotations : ∀ a ∈ f.annotations, a.Storable

structure Message.Storable (m : Message) : Prop where
  fields : ∀ f ∈ m.fields, f.Storable
  annotations : ∀ a ∈ m.annotations, a.Storable

/-- Values of members have 64 bits. -/
structure EnumMember.Storable (m : EnumMember) : Prop where
  value : -(2 : Int) ^ 63 ≤ m.value ∧ m.value < (2 : Int) ^ 63
  annotations : ∀ a ∈ m.annotations, a.Storable

structure Enumeration.Storable (e : Enumeration) : Prop where
  members : ∀ m ∈ e.members, m.Storable
  annotations : ∀ a ∈ e.annotations, a.Storable

def Constant.Storable (c : Constant) : Prop := c.value.Storable

def Typedef.Storable (t : Typedef) : Prop := ∀ a ∈ t.annotations, a.Storable

structure ServiceFunction.Storable (f : ServiceFunction) : Prop where
  parameters : ∀ field ∈ f.parameters, field.Storable
  throws : ∀ field ∈ f.throws, field.Storable
  annotations : ∀ a ∈ f.annotations, a.Storable

structure Service.Storable (s : Service) : Prop where
  functions : ∀ f ∈ s.functions, f.Storable
  annotations : ∀ a ∈ s.annotations, a.Storable

structure Definitions.Storable (d : Definitions) : Prop where
  services : ∀ s ∈ d.services, s.Storable
  messages : ∀ m ∈ d.messages, m.Storable
  enums : ∀ e ∈ d.enums, e.Storable
  constants : ∀ c ∈ d.constants, c.Storable
  typedefs : ∀ t ∈ d.typedefs, t.Storable

def Namespace.Storable (n : Namespace) : Prop := ∀ a ∈ n.annotations, a.Storable

structure File.Storable (f : File) : Prop where
  namespaces : ∀ n ∈ f.namespaces, n.Storable
  options : ∀ a ∈ f.options, a.Storable
  definitions : f.definitions.Storable

def Schema.Storable (s : Schema) : Prop := ∀ f ∈ s.files, f.Storable

/-! ## Types -/

theorem Primitive.ofJson?_toJson (p : Primitive) : ofJson? p.toJson = some p := by
  cases p <;> decide

theorem TypeRef.ofJsonWithin_toJson (t : TypeRef) {inside : Bool} {depth : Nat}
    (h : t.toJson.depth ≤ depth) : ofJsonWithin inside depth t.toJson = some t := by
  induction t generalizing inside depth with
  | primitive p =>
    obtain ⟨depth, rfl⟩ := exists_eq_succ_of_depth_le h
    simp [toJson, ofJsonWithin, kindOf?, kindName?, record?, Members.required,
      Primitive.ofJson?_toJson]
  | named name fqn =>
    obtain ⟨depth, rfl⟩ := exists_eq_succ_of_depth_le h
    have hfqn : Members.optional (("kind", .str "named") :: ("name", .str name) ::
        optionMember "fqn" (fqn.map .str)) "fqn" text? = some fqn :=
      Members.optional_optionMember .str (fun _ _ => ⟨nofun, rfl⟩) (by simp)
    simp [toJson, ofJsonWithin, kindOf?, kindName?, record?, Members.required, text?, hfqn]
  | list element ih =>
    obtain ⟨depth, rfl⟩ := exists_eq_succ_of_depth_le h
    have helement : element.toJson.depth ≤ depth := by
      simp only [toJson, Json.depth, depthMembers] at h
      omega
    simp [toJson, ofJsonWithin, kindOf?, kindName?, record?, Members.required, ih helement]
  | set element ih =>
    obtain ⟨depth, rfl⟩ := exists_eq_succ_of_depth_le h
    have helement : element.toJson.depth ≤ depth := by
      simp only [toJson, Json.depth, depthMembers] at h
      omega
    simp [toJson, ofJsonWithin, kindOf?, kindName?, record?, Members.required, ih helement]
  | map key value ihKey ihValue =>
    obtain ⟨depth, rfl⟩ := exists_eq_succ_of_depth_le h
    simp only [toJson, Json.depth, depthMembers] at h
    have hkey : key.toJson.depth ≤ depth := by omega
    have hvalue : value.toJson.depth ≤ depth := by omega
    simp [toJson, ofJsonWithin, kindOf?, kindName?, record?, Members.required, ihKey hkey,
      ihValue hvalue]

theorem TypeRef.ofJson?_toJson (t : TypeRef) : ofJson? t.toJson = some t :=
  t.ofJsonWithin_toJson le_rfl

/-! ## Literals -/

theorem Literal.toJson_ne_null {l : Literal} (h : l.Storable) : l.toJson ≠ .null := by
  cases l with
  | float x =>
    rw [Storable] at h
    simp [toJson, h]
  | _ => simp [toJson]

/-- An entry of a map whose parts are nested at most `depth` deep. -/
def Literal.readEntry (depth : Nat) (entry : Json) : Option (Literal × Literal) := do
  let parts ← entry.record? ["key", "value"]
  return (← parts.required "key" (ofJsonWithin depth),
    ← parts.required "value" (ofJsonWithin depth))

theorem Literal.ofJsonWithin_obj (depth : Nat) (members : Members) :
    ofJsonWithin (depth + 1) (.obj members) =
      (members.required "entries" (items? (readEntry depth))).bind fun entries =>
        some (.map entries) := by
  rw [ofJsonWithin]
  rfl

mutual
theorem Literal.ofJsonWithin_toJson : ∀ (l : Literal) (depth : Nat), l.Storable →
    l.toJson.depth ≤ depth → ofJsonWithin depth l.toJson = some l
  | l, 0, _, h => absurd (depth_pos l.toJson) (by omega)
  | .bool b, depth + 1, _, _ => rfl
  | .int n, depth + 1, hl, _ => by
    have hn : signed? 64 (.int n) = some n := signed?_int hl
    simp [toJson, ofJsonWithin, ofInt, hn]
  | .float x, depth + 1, hl, _ => by
    rw [Storable] at hl
    simp [toJson, ofJsonWithin, hl]
  | .text written, depth + 1, _, _ => rfl
  | .list items, depth + 1, hl, h => by
    have hitems : depthItems (toJsonItems items) ≤ depth := by
      simp only [toJson, Json.depth] at h
      omega
    simp [toJson, ofJsonWithin, Literal.ofJsonWithin_toJsonItems items depth hl hitems]
  | .map entries, depth + 1, hl, h => by
    have hentries : depthItems (toJsonEntries entries) ≤ depth := by
      simp only [toJson, Json.depth, depthMembers] at h
      omega
    have hread := Literal.readEntry_toJsonEntries entries depth hl hentries
    simp [toJson, ofJsonWithin_obj, Members.required, items?, hread]

theorem Literal.ofJsonWithin_toJsonItems : ∀ (items : List Literal) (depth : Nat),
    Literal.StorableItems items → depthItems (toJsonItems items) ≤ depth →
      (toJsonItems items).mapM (ofJsonWithin depth) = some items
  | [], _, _, _ => rfl
  | item :: rest, depth, hl, h => by
    obtain ⟨hitem, hrest⟩ := hl
    simp only [toJsonItems, depthItems, max_le_iff] at h
    have hfirst := Literal.ofJsonWithin_toJson item depth hitem h.1
    have hothers := Literal.ofJsonWithin_toJsonItems rest depth hrest h.2
    simp [toJsonItems, hfirst, hothers]

theorem Literal.readEntry_toJsonEntries : ∀ (entries : List (Literal × Literal)) (depth : Nat),
    Literal.StorableEntries entries → depthItems (toJsonEntries entries) ≤ depth →
      (toJsonEntries entries).mapM (readEntry depth) = some entries
  | [], _, _, _ => rfl
  | (key, value) :: rest, depth, hl, h => by
    obtain ⟨hkey, hvalue, hrest⟩ := hl
    simp only [toJsonEntries, depthItems, Json.depth, depthMembers] at h
    have hfirst := Literal.ofJsonWithin_toJson key depth hkey (by omega)
    have hsecond := Literal.ofJsonWithin_toJson value depth hvalue (by omega)
    have hothers := Literal.readEntry_toJsonEntries rest depth hrest (by omega)
    simp [toJsonEntries, readEntry, record?, Members.required, hfirst, hsecond, hothers]
end

theorem Literal.ofJson?_toJson {l : Literal} (h : l.Storable) : ofJson? l.toJson = some l :=
  l.ofJsonWithin_toJson _ h le_rfl

/-! ## Parts that many records have -/

theorem Position.ofJson?_toJson (p : Position) : ofJson? p.toJson = some p := by
  simp [toJson, ofJson?, record?, Members.required]

theorem Location.ofJson?_toJson (l : Location) : ofJson? l.toJson = some l := by
  simp [toJson, ofJson?, record?, Members.required, Position.ofJson?_toJson]

section Readers

variable {members : Members} {annotations : List Annotation} {default : Option Literal}

theorem readLocation_eq (location : Option Location)
    (h : member? "location" members = location.map Location.toJson) :
    readLocation members = some location :=
  Members.optional_optionMember Location.toJson
    (fun l _ => ⟨nofun, l.ofJson?_toJson⟩) h

theorem readContent_eq (content : Option String)
    (h : member? "content" members = content.map .str) :
    readContent members = some content :=
  Members.optional_optionMember .str (fun _ _ => ⟨nofun, rfl⟩) h

theorem Comment.ofJson?_toJson (c : Comment) : ofJson? c.toJson = some c := by
  have hlocation : Members.optional (("text", .str c.text) ::
      optionMember "location" (c.location.map Location.toJson)) "location" Location.ofJson? =
        some c.location := readLocation_eq c.location (by simp)
  simp [toJson, ofJson?, record?, locationMember, Members.required, text?, hlocation]

theorem readComments_eq (comments : List Comment) (h : member? "comments" members =
      if (comments.map Comment.toJson).isEmpty then none
      else some (.arr (comments.map Comment.toJson))) :
    readComments members = some comments :=
  Members.withDefault_listMember (fun c _ => c.ofJson?_toJson) h

theorem optional_literal {name : String} (hl : ∀ value ∈ default, value.Storable)
    (h : member? name members = default.map Literal.toJson) :
    members.optional name Literal.ofJson? = some default :=
  Members.optional_optionMember Literal.toJson
    (fun l hmem => ⟨Literal.toJson_ne_null (hl l hmem), Literal.ofJson?_toJson (hl l hmem)⟩) h

theorem Annotation.ofJson?_toJson {a : Annotation} (h : a.Storable) :
    ofJson? a.toJson = some a := by
  have hvalue : Members.optional (("name", .str a.name) ::
      optionMember "value" (a.value.map Literal.toJson)) "value" Literal.ofJson? = some a.value :=
    optional_literal h (by simp)
  simp [toJson, ofJson?, record?, Members.required, text?, hvalue]

theorem readAnnotations_eq (ha : ∀ a ∈ annotations, a.Storable)
    (h : member? "annotations" members =
      if (annotations.map Annotation.toJson).isEmpty then none
      else some (.arr (annotations.map Annotation.toJson))) :
    readAnnotations members = some annotations :=
  Members.withDefault_listMember (fun a hmem => Annotation.ofJson?_toJson (ha a hmem)) h

end Readers

theorem Requiredness.ofJson?_name (r : Requiredness) : ofJson? (.str r.name) = some r := by
  cases r <;> decide

theorem MessageKind.ofJson?_keyword (k : MessageKind) : ofJson? (.str k.keyword) = some k := by
  cases k <;> decide

/-! ## Definitions -/

theorem Field.ofJson?_toJson {f : Field} (h : f.Storable) : ofJson? f.toJson = some f := by
  have hid : signed? 32 (.int f.id) = some f.id := signed?_int h.id
  simp only [toJson, ofJson?, record?, annotationsMember, commentsMember, locationMember,
    Option.bind_eq_bind, Option.bind_some]
  rw [optional_literal h.default (by simp), readAnnotations_eq h.annotations (by simp),
    readComments_eq f.comments (by simp), readLocation_eq f.location (by simp)]
  simp [Members.required, Members.withDefault, text?, hid, TypeRef.ofJson?_toJson,
    Requiredness.ofJson?_name]

theorem Message.ofJson?_toJson {m : Message} (h : m.Storable) : ofJson? m.toJson = some m := by
  have hfields := items?_map fun f hf => Field.ofJson?_toJson (h.fields f hf)
  simp only [toJson, ofJson?, record?, annotationsMember, commentsMember, locationMember,
    contentMember, Option.bind_eq_bind, Option.bind_some]
  rw [readAnnotations_eq h.annotations (by simp), readComments_eq m.comments (by simp),
    readLocation_eq m.location (by simp), readContent_eq m.content (by simp)]
  simp [Members.required, Members.withDefault, text?, hfields, MessageKind.ofJson?_keyword]

theorem EnumMember.ofJson?_toJson {m : EnumMember} (h : m.Storable) :
    ofJson? m.toJson = some m := by
  have hvalue : signed? 64 (.int m.value) = some m.value := signed?_int h.value
  simp only [toJson, ofJson?, record?, annotationsMember, commentsMember, Option.bind_eq_bind,
    Option.bind_some]
  rw [readAnnotations_eq h.annotations (by simp), readComments_eq m.comments (by simp)]
  simp [Members.required, text?, hvalue]

theorem Enumeration.ofJson?_toJson {e : Enumeration} (h : e.Storable) :
    ofJson? e.toJson = some e := by
  have hmembers := items?_map fun m hm => EnumMember.ofJson?_toJson (h.members m hm)
  simp only [toJson, ofJson?, record?, annotationsMember, commentsMember, locationMember,
    contentMember, Option.bind_eq_bind, Option.bind_some]
  rw [readAnnotations_eq h.annotations (by simp), readComments_eq e.comments (by simp),
    readLocation_eq e.location (by simp), readContent_eq e.content (by simp)]
  simp [Members.required, Members.withDefault, text?, hmembers]

theorem Constant.ofJson?_toJson {c : Constant} (h : c.Storable) : ofJson? c.toJson = some c := by
  simp only [toJson, ofJson?, record?, commentsMember, locationMember, contentMember,
    Option.bind_eq_bind, Option.bind_some]
  rw [readComments_eq c.comments (by simp), readLocation_eq c.location (by simp),
    readContent_eq c.content (by simp)]
  simp [Members.required, text?, TypeRef.ofJson?_toJson, Literal.ofJson?_toJson h]

theorem Typedef.ofJson?_toJson {t : Typedef} (h : t.Storable) : ofJson? t.toJson = some t := by
  simp only [toJson, ofJson?, record?, annotationsMember, commentsMember, locationMember,
    contentMember, Option.bind_eq_bind, Option.bind_some]
  rw [readAnnotations_eq h (by simp), readComments_eq t.comments (by simp),
    readLocation_eq t.location (by simp), readContent_eq t.content (by simp)]
  simp [Members.required, text?, TypeRef.ofJson?_toJson]

theorem ServiceFunction.ofJson?_toJson {f : ServiceFunction} (h : f.Storable) :
    ofJson? f.toJson = some f := by
  have hparameters := items?_map fun p hp => Field.ofJson?_toJson (h.parameters p hp)
  have hthrows := items?_map fun t ht => Field.ofJson?_toJson (h.throws t ht)
  simp only [toJson, ofJson?, record?, annotationsMember, commentsMember, locationMember,
    Option.bind_eq_bind, Option.bind_some]
  rw [readAnnotations_eq h.annotations (by simp), readComments_eq f.comments (by simp),
    readLocation_eq f.location (by simp)]
  simp [Members.required, Members.withDefault, text?, bool?, hparameters, hthrows,
    TypeRef.ofJson?_toJson]

theorem Service.ofJson?_toJson {s : Service} (h : s.Storable) : ofJson? s.toJson = some s := by
  have hfunctions := items?_map fun f hf => ServiceFunction.ofJson?_toJson (h.functions f hf)
  have hparent : ∀ members : Members, member? "extends" members = s.parent.map .str →
      members.optional "extends" text? = some s.parent :=
    fun _ => Members.optional_optionMember .str fun _ _ => ⟨nofun, rfl⟩
  simp only [toJson, ofJson?, record?, annotationsMember, commentsMember, locationMember,
    contentMember, Option.bind_eq_bind, Option.bind_some]
  rw [hparent _ (by simp), readAnnotations_eq h.annotations (by simp),
    readComments_eq s.comments (by simp), readLocation_eq s.location (by simp),
    readContent_eq s.content (by simp)]
  simp [Members.required, Members.withDefault, text?, hfunctions]

/-! ## Files and schemas -/

theorem Definitions.ofJson?_toJson {d : Definitions} (h : d.Storable) :
    ofJson? d.toJson = some d := by
  have hservices := items?_map fun s hs => Service.ofJson?_toJson (h.services s hs)
  have hmessages := items?_map fun m hm => Message.ofJson?_toJson (h.messages m hm)
  have henums := items?_map fun e he => Enumeration.ofJson?_toJson (h.enums e he)
  have hconstants := items?_map fun c hc => Constant.ofJson?_toJson (h.constants c hc)
  have htypedefs := items?_map fun t ht => Typedef.ofJson?_toJson (h.typedefs t ht)
  simp [toJson, ofJson?, record?, Members.withDefault, hservices, hmessages, henums, hconstants,
    htypedefs]

theorem Import.ofJson?_toJson (i : Import) : ofJson? i.toJson = some i := by
  simp only [toJson, ofJson?, record?, commentsMember, locationMember, Option.bind_eq_bind,
    Option.bind_some]
  rw [readComments_eq i.comments (by simp), readLocation_eq i.location (by simp)]
  simp [Members.required, text?]

theorem Namespace.ofJson?_toJson {n : Namespace} (h : n.Storable) :
    ofJson? n.toJson = some n := by
  simp only [toJson, ofJson?, record?, annotationsMember, commentsMember, locationMember,
    Option.bind_eq_bind, Option.bind_some]
  rw [readAnnotations_eq h (by simp), readComments_eq n.comments (by simp),
    readLocation_eq n.location (by simp)]
  simp [Members.required, text?]

theorem File.ofJson?_toJson {f : File} (h : f.Storable) : ofJson? f.toJson = some f := by
  have himports := items?_map fun i (_ : i ∈ f.imports) => i.ofJson?_toJson
  have hnamespaces := items?_map fun n hn => Namespace.ofJson?_toJson (h.namespaces n hn)
  have hoptions := items?_map fun a ha => Annotation.ofJson?_toJson (h.options a ha)
  simp only [toJson, ofJson?, record?, locationMember, Option.bind_eq_bind, Option.bind_some]
  rw [readLocation_eq f.location (by simp)]
  simp [Members.required, Members.withDefault, text?, himports, hnamespaces, hoptions,
    Definitions.ofJson?_toJson h.definitions]

theorem Schema.ofJson?_toJson {s : Schema} (h : s.Storable) : ofJson? s.toJson = some s := by
  have hfiles := items?_map fun f hf => File.ofJson?_toJson (h f hf)
  simp [toJson, ofJson?, record?, Members.required, text?, hfiles]

/-! ## Round trips -/

/-- What is written is read back, so that it is written the same again. -/
def RoundTrips {α : Type} (write : α → Json) (read : Json → Option α) (a : α) : Prop :=
  read (write a) = some a ∧ ∀ b, read (write a) = some b → write b = write a

theorem roundTrips_of_eq {α : Type} {write : α → Json} {read : Json → Option α} {a : α}
    (h : read (write a) = some a) : RoundTrips write read a :=
  ⟨h, fun _ hb => congrArg write (Option.some.inj (hb.symm.trans h))⟩

/-- Schemas and all their parts are read back from their JSON forms, however deep types and
literals are nested. -/
theorem json_round_trip :
    (∀ s : Schema, s.Storable → RoundTrips Schema.toJson Schema.ofJson? s) ∧
    (∀ f : File, f.Storable → RoundTrips File.toJson File.ofJson? f) ∧
    (∀ m : Message, m.Storable → RoundTrips Message.toJson Message.ofJson? m) ∧
    (∀ s : Service, s.Storable → RoundTrips Service.toJson Service.ofJson? s) ∧
    (∀ e : Enumeration, e.Storable → RoundTrips Enumeration.toJson Enumeration.ofJson? e) ∧
    (∀ c : Constant, c.Storable → RoundTrips Constant.toJson Constant.ofJson? c) ∧
    (∀ t : Typedef, t.Storable → RoundTrips Typedef.toJson Typedef.ofJson? t) ∧
    (∀ t : TypeRef, RoundTrips TypeRef.toJson TypeRef.ofJson? t) ∧
    ∀ l : Literal, l.Storable → RoundTrips Literal.toJson Literal.ofJson? l :=
  ⟨fun _ h => roundTrips_of_eq (Schema.ofJson?_toJson h),
    fun _ h => roundTrips_of_eq (File.ofJson?_toJson h),
    fun _ h => roundTrips_of_eq (Message.ofJson?_toJson h),
    fun _ h => roundTrips_of_eq (Service.ofJson?_toJson h),
    fun _ h => roundTrips_of_eq (Enumeration.ofJson?_toJson h),
    fun _ h => roundTrips_of_eq (Constant.ofJson?_toJson h),
    fun _ h => roundTrips_of_eq (Typedef.ofJson?_toJson h),
    fun t => roundTrips_of_eq t.ofJson?_toJson,
    fun _ h => roundTrips_of_eq (Literal.ofJson?_toJson h)⟩

/-- A map with a list, an empty map, an integer and an integral double in it. -/
def mixedLiteral : Literal :=
  .map [(.text "\"all\"", .list [.map [], .int 2, .float 2.0]), (.int (-1), .bool true)]

/-- One definition of each kind, with defaults and annotations. -/
def mixedFile : File :=
  { path := "pets.thrift", edition := "3.0", location := some {}
    imports := [{ path := "base.thrift", written := "\"base.thrift\"" }]
    namespaces := [{ scope := "*", name := "pets", annotations := [.quoted "since" "1.2"] }]
    options := [{ name := "draft" }]
    definitions := {
      messages := [{ name := "Pet", fqn := "pets.thrift#Pet", kind := .union, fields := [
        { id := -1, name := "tags", type := .map .string (.list (.set (.named "Tag" none)))
          default := some mixedLiteral, annotations := [.quoted "api.body" "tags"] }] }]
      enums := [{ name := "Kind", fqn := "pets.thrift#Kind", members := [
        { name := "CAT", value := -7, comments := [{ text := "// c" }] }] }]
      constants := [{ name := "ALL", fqn := "pets.thrift#ALL", type := .list .string
                      value := mixedLiteral, content := some "const" }]
      typedefs := [{ name := "Tag", fqn := "pets.thrift#Tag", target := .string }]
      services := [{ name := "Pets", fqn := "pets.thrift#Pets", parent := some "base.Base"
                     functions := [{ name := "all", fqn := "pets.thrift#Pets.all"
                                     returnType := .list (.named "Pet" (some "pets.thrift#Pet")) }]
                   }] } }

theorem mixedLiteral_storable : mixedLiteral.Storable := by
  have hfinite : (Decimal.Binary.ofFloat 2.0).isFinite = true := by decide +kernel
  simp [mixedLiteral, Literal.Storable, Literal.StorableItems, Literal.StorableEntries, hfinite]

theorem Annotation.storable_quoted (name text : String) :
    Annotation.Storable (.quoted name text) := by
  rintro _ ⟨⟩
  trivial

theorem mixedFile_storable : mixedFile.Storable := by
  have hfield : Field.Storable
      { id := -1, name := "tags", type := .map .string (.list (.set (.named "Tag" none)))
        default := some mixedLiteral, annotations := [.quoted "api.body" "tags"] } :=
    { id := by decide
      default := by
        rintro _ ⟨⟩
        exact mixedLiteral_storable
      annotations := List.forall_mem_singleton.mpr <| Annotation.storable_quoted _ _ }
  exact {
    namespaces := List.forall_mem_singleton.mpr
      (List.forall_mem_singleton.mpr <| Annotation.storable_quoted _ _)
    options := List.forall_mem_singleton.mpr nofun
    definitions := {
      services := List.forall_mem_singleton.mpr
        ⟨List.forall_mem_singleton.mpr ⟨nofun, nofun, nofun⟩, nofun⟩
      messages := List.forall_mem_singleton.mpr ⟨List.forall_mem_singleton.mpr hfield, nofun⟩
      enums := List.forall_mem_singleton.mpr
        ⟨List.forall_mem_singleton.mpr ⟨by decide, nofun⟩, nofun⟩
      constants := List.forall_mem_singleton.mpr mixedLiteral_storable
      typedefs := List.forall_mem_singleton.mpr nofun } }

theorem mixedFile_round_trips :
    RoundTrips Schema.toJson Schema.ofJson? { files := [mixedFile] } ∧
      RoundTrips File.toJson File.ofJson? mixedFile ∧
      (∀ m ∈ mixedFile.definitions.messages, RoundTrips Message.toJson Message.ofJson? m) ∧
      (∀ s ∈ mixedFile.definitions.services, RoundTrips Service.toJson Service.ofJson? s) ∧
      (∀ e ∈ mixedFile.definitions.enums, RoundTrips Enumeration.toJson Enumeration.ofJson? e) ∧
      (∀ c ∈ mixedFile.definitions.constants, RoundTrips Constant.toJson Constant.ofJson? c) ∧
      (∀ t ∈ mixedFile.definitions.typedefs, RoundTrips Typedef.toJson Typedef.ofJson? t) ∧
      RoundTrips Literal.toJson Literal.ofJson? mixedLiteral := by
  have h := mixedFile_storable
  obtain ⟨hschema, hfile, hmessage, hservice, henum, hconstant, htypedef, -, hliteral⟩ :=
    json_round_trip
  exact ⟨hschema _ (List.forall_mem_singleton.mpr h), hfile _ h,
    fun m hm => hmessage m (h.definitions.messages m hm),
    fun s hs => hservice s (h.definitions.services s hs),
    fun e he => henum e (h.definitions.enums e he),
    fun c hc => hconstant c (h.definitions.constants c hc),
    fun t ht => htypedef t (h.definitions.typedefs t ht), hliteral _ mixedLiteral_storable⟩

end RestThrift
