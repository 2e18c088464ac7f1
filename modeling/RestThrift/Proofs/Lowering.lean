import Mathlib
import RestThrift.Proofs.Interchange
import RestThrift.Proofs.Sorting
import RestThrift.Source.Lower

/-!
# Lowered sources

Lowering stops at the first fault of a source: a definition whose span does not lie in the bytes,
or a double that is infinite or undefined. The faults are told in the order of the source, and a
source without one gives each definition with all that is written in it.
-/
namespace RestThrift.Source

/-! ## Computations that stop at a fault -/

section Settles

variable {ε α β : Type} {x : Except ε α} {faults others : List ε} {P : α → Prop} {Q : β → Prop}

/-- A computation fails with the first of some faults; where there is none, it has a result as
described. -/
def Settles (x : Except ε α) (faults : List ε) (P : α → Prop) : Prop :=
  match faults with
  | [] => ∃ a, x = .ok a ∧ P a
  | fault :: _ => x = .error fault

theorem settles_ok {a : α} (h : P a) : Settles (.ok a : Except ε α) [] P :=
  ⟨a, rfl, h⟩

theorem Settles.bind {f : α → Except ε β} (hx : Settles x faults P)
    (hf : ∀ a, P a → Settles (f a) others Q) : Settles (x >>= f) (faults ++ others) Q := by
  cases faults with
  | nil =>
    obtain ⟨a, rfl, ha⟩ := hx
    exact hf a ha
  | cons fault rest =>
    obtain rfl := hx
    rfl

/-- What is made of a result does not fail. -/
theorem Settles.map {f : α → Except ε β} (hx : Settles x faults P)
    (hf : ∀ a, P a → Settles (f a) [] Q) : Settles (x >>= f) faults Q := by
  have h := hx.bind hf
  rwa [List.append_nil] at h

theorem Settles.mono {P' : α → Prop} (hx : Settles x faults P) (hP : ∀ a, P a → P' a) :
    Settles x faults P' := by
  cases faults with
  | nil =>
    obtain ⟨a, rfl, ha⟩ := hx
    exact settles_ok (hP a ha)
  | cons fault rest => exact hx

theorem settles_mapM {f : α → Except ε β} {g : α → List ε} {R : α → β → Prop} {l : List α}
    (h : ∀ a ∈ l, Settles (f a) (g a) (R a)) :
    Settles (l.mapM f) (l.flatMap g) (List.Forall₂ R l) := by
  induction l with
  | nil => exact settles_ok .nil
  | cons a rest ih =>
    obtain ⟨ha, hrest⟩ := List.forall_mem_cons.mp h
    rw [List.mapM_cons, List.flatMap_cons]
    exact ha.bind fun b hb => (ih hrest).map fun bs hbs => settles_ok (.cons hb hbs)

theorem Settles.exists_ok_iff (h : Settles x faults P) : (∃ a, x = .ok a) ↔ faults = [] := by
  cases faults with
  | nil =>
    obtain ⟨a, rfl, -⟩ := h
    simp
  | cons fault rest =>
    obtain rfl := h
    simp

/-- Whatever is known of the results is known of the one that there is. -/
theorem Settles.with_eq (h : Settles x faults P) :
    Settles x faults fun a => x = .ok a ∧ P a := by
  cases faults with
  | nil =>
    obtain ⟨a, rfl, ha⟩ := h
    exact settles_ok ⟨rfl, ha⟩
  | cons fault rest => exact h

theorem Settles.of_eq_ok {a : α} (h : Settles x faults P) (ha : x = .ok a) : P a := by
  obtain rfl := h.exists_ok_iff.mp ⟨a, ha⟩
  obtain ⟨b, hb, hP⟩ := h
  obtain rfl := Except.ok.inj (ha.symm.trans hb)
  exact hP

end Settles

/-! ## Faults -/

mutual
/-- The doubles of a literal, at any depth. -/
def LiteralNode.doubles : LiteralNode → List Float
  | .double x => [x]
  | .list items => LiteralNode.doublesItems items
  | .map entries => LiteralNode.doublesEntries entries
  | _ => []

def LiteralNode.doublesItems : List LiteralNode → List Float
  | [] => []
  | item :: rest => LiteralNode.doubles item ++ LiteralNode.doublesItems rest

def LiteralNode.doublesEntries : List (LiteralNode × LiteralNode) → List Float
  | [] => []
  | (key, value) :: rest =>
    LiteralNode.doubles key ++ LiteralNode.doubles value ++ LiteralNode.doublesEntries rest
end

/-- The doubles in the default of a field. -/
def FieldNode.doubles (node : FieldNode) : List Float :=
  node.default.toList.flatMap LiteralNode.doubles

def DefinitionNode.span : DefinitionNode → Location
  | .message _ node => node.span
  | .enumeration node => node.span
  | .constant node => node.span
  | .typedef node => node.span
  | .service node => node.span

/-- The doubles in the value of a constant and in the defaults of fields, parameters and thrown
exceptions. -/
def DefinitionNode.doubles : DefinitionNode → List Float
  | .message _ node => node.fields.flatMap FieldNode.doubles
  | .constant node => node.value.doubles
  | .service node => node.functions.flatMap fun function =>
      (function.parameters ++ function.throws).flatMap FieldNode.doubles
  | .enumeration _ => []
  | .typedef _ => []

def DefinitionNode.message? : DefinitionNode → Option (MessageKind × StructNode)
  | .message kind node => some (kind, node)
  | _ => none

def DefinitionNode.enumeration? : DefinitionNode → Option EnumNode
  | .enumeration node => some node
  | _ => none

def DefinitionNode.constant? : DefinitionNode → Option ConstNode
  | .constant node => some node
  | _ => none

def DefinitionNode.typedef? : DefinitionNode → Option TypedefNode
  | .typedef node => some node
  | _ => none

def DefinitionNode.service? : DefinitionNode → Option ServiceNode
  | .service node => some node
  | _ => none

/-- The span lies in the bytes of the source. -/
def Fits (source : List UInt8) (span : Location) : Prop :=
  span.start.offset ≤ span.stop.offset ∧ span.stop.offset ≤ source.length

instance (source : List UInt8) (span : Location) : Decidable (Fits source span) :=
  inferInstanceAs (Decidable (_ ∧ _))

instance (x : Float) : Decidable (IsFinite x) := inferInstanceAs (Decidable (_ = true))

namespace Site

variable (site : Site)

/-- The faults of doubles that belong to a constant or a field. -/
def doubleFaults (owner : String) (doubles : List Float) : List LowerError :=
  (doubles.filter fun x => ¬ IsFinite x).map fun x =>
    .constant site.path owner (.unsupported (Decimal.plain.text x))

def spanFaults (node : String) (span : Location) : List LowerError :=
  if Fits site.source span then []
  else [.spanOutOfRange site.path node span.start.offset span.stop.offset site.source.length]

def fieldFaults (nodes : List FieldNode) : List LowerError :=
  nodes.flatMap fun node => site.doubleFaults node.name node.doubles

/-- The faults of a definition, those of its span behind all others. -/
def faults : DefinitionNode → List LowerError
  | .message _ node => site.fieldFaults node.fields ++ site.spanFaults node.name node.span
  | .enumeration node => site.spanFaults node.name node.span
  | .constant node =>
    site.doubleFaults node.name node.value.doubles ++ site.spanFaults node.name node.span
  | .typedef node => site.spanFaults node.name node.span
  | .service node =>
    node.functions.flatMap (fun function =>
      site.fieldFaults function.parameters ++ site.fieldFaults function.throws) ++
        site.spanFaults node.name node.span

variable {site} {owner : String} {doubles : List Float}

@[simp] theorem doubleFaults_eq_nil :
    site.doubleFaults owner doubles = [] ↔ ∀ x ∈ doubles, IsFinite x := by
  simp [doubleFaults]

@[simp] theorem doubleFaults_append (others : List Float) :
    site.doubleFaults owner (doubles ++ others) =
      site.doubleFaults owner doubles ++ site.doubleFaults owner others := by
  simp [doubleFaults]

@[simp] theorem spanFaults_eq_nil {node : String} {span : Location} :
    site.spanFaults node span = [] ↔ Fits site.source span := by
  simp [spanFaults]

@[simp] theorem fieldFaults_eq_nil {nodes : List FieldNode} :
    site.fieldFaults nodes = [] ↔ ∀ x ∈ nodes.flatMap FieldNode.doubles, IsFinite x := by
  simp only [fieldFaults, List.flatMap_eq_nil_iff, doubleFaults_eq_nil, List.mem_flatMap]
  grind

theorem faults_eq_nil {node : DefinitionNode} : site.faults node = [] ↔
    Fits site.source node.span ∧ ∀ x ∈ node.doubles, IsFinite x := by
  cases node with
  | service node =>
    simp only [faults, DefinitionNode.span, DefinitionNode.doubles, List.append_eq_nil_iff,
      List.flatMap_eq_nil_iff, fieldFaults_eq_nil, spanFaults_eq_nil, List.mem_flatMap,
      List.mem_append]
    grind
  | _ => simp [faults, DefinitionNode.span, DefinitionNode.doubles, and_comm]

end Site

/-! ## What is kept of a source -/

/-- The text of a span of the source, faulty bytes replaced. -/
def excerpt (source : List UInt8) (span : Location) : String :=
  String.ofList (Text.Utf8.lossy
    ((source.drop span.start.offset).take (span.stop.offset - span.start.offset)))

/-- What a literal of a source stands for. -/
inductive Means : LiteralNode → Literal → Prop
  | text (raw : String) : Means (.text raw) (.quoted raw)
  | int (n : Int) : Means (.int n) (.int n)
  | double {x : Float} (hfinite : IsFinite x) : Means (.double x) (.float x)
  | true : Means (.identifier "true") (.bool true)
  | false : Means (.identifier "false") (.bool false)
  | identifier {name : String} (htrue : name ≠ "true") (hfalse : name ≠ "false") :
      Means (.identifier name) (.text name)
  | list {items : List LiteralNode} {literals : List Literal}
      (hitems : List.Forall₂ Means items literals) : Means (.list items) (.list literals)
  | map {entries : List (LiteralNode × LiteralNode)} {literals : List (Literal × Literal)}
      (hkeys : List.Forall₂ Means (entries.map Prod.fst) (literals.map Prod.fst))
      (hvalues : List.Forall₂ Means (entries.map Prod.snd) (literals.map Prod.snd)) :
      Means (.map entries) (.map literals)

namespace Site

variable (site : Site)

structure IsField (node : FieldNode) (field : Field) : Prop where
  id : ∀ id, node.id = some id → field.id = id
  name : field.name = node.name
  type : field.type = site.typeRef node.type
  requiredness : field.requiredness = node.requiredness.getD .unmarked
  default : Option.Rel Means node.default field.default
  annotations : field.annotations = annotationsOf node.annotations
  comments : field.comments = commentsOf node.comments
  location : field.location = some node.span

/-- The ids of the fields that are written without an id. -/
def givenIds (nodes : List FieldNode) (fields : List Field) : List Int :=
  ((nodes.zip fields).filter fun pair => pair.1.id.isNone).map fun pair => pair.2.id

/-- The fields of a list, those without an id numbered `-1`, `-2` and so on. -/
structure IsFields (nodes : List FieldNode) (fields : List Field) : Prop where
  each : List.Forall₂ site.IsField nodes fields
  given : ∃ count, givenIds nodes fields = (List.range count).map fun i : Nat => -((i : Int) + 1)

structure IsMessage (source : MessageKind × StructNode) (m : Message) : Prop where
  name : m.name = source.2.name
  fqn : m.fqn = site.path ++ "#" ++ source.2.name
  kind : m.kind = source.1
  fields : site.IsFields source.2.fields m.fields
  annotations : m.annotations = annotationsOf source.2.annotations
  comments : m.comments = commentsOf source.2.comments
  location : m.location = some source.2.span
  content : m.content = some (excerpt site.source source.2.span)

structure IsMember (node : EnumValueNode) (member : EnumMember) : Prop where
  name : member.name = node.name
  annotations : member.annotations = annotationsOf node.annotations
  comments : member.comments = commentsOf node.comments

/-- The members of an enumeration, each with its value or one more than the member before it. -/
structure IsMembers (nodes : List EnumValueNode) (members : List EnumMember) : Prop where
  each : List.Forall₂ IsMember nodes members
  first : ∀ node ∈ nodes.head?, ∀ member ∈ members.head?, member.value = node.value.getD 0
  next : ∀ i node previous member, nodes[i + 1]? = some node → members[i]? = some previous →
    members[i + 1]? = some member → member.value = node.value.getD (previous.value + 1)

structure IsEnumeration (node : EnumNode) (e : Enumeration) : Prop where
  name : e.name = node.name
  fqn : e.fqn = site.path ++ "#" ++ node.name
  members : IsMembers node.values e.members
  annotations : e.annotations = annotationsOf node.annotations
  comments : e.comments = commentsOf node.comments
  location : e.location = some node.span
  content : e.content = some (excerpt site.source node.span)

structure IsConstant (node : ConstNode) (c : Constant) : Prop where
  name : c.name = node.name
  fqn : c.fqn = site.path ++ "#" ++ node.name
  type : c.type = site.typeRef node.type
  value : Means node.value c.value
  comments : c.comments = commentsOf node.comments
  location : c.location = some node.span
  content : c.content = some (excerpt site.source node.span)

structure IsTypedef (node : TypedefNode) (t : Typedef) : Prop where
  name : t.name = node.name
  fqn : t.fqn = site.path ++ "#" ++ node.name
  target : t.target = site.typeRef node.target
  annotations : t.annotations = annotationsOf node.annotations
  comments : t.comments = commentsOf node.comments
  location : t.location = some node.span
  content : t.content = some (excerpt site.source node.span)

structure IsFunction (service : String) (node : FunctionNode) (f : ServiceFunction) : Prop where
  name : f.name = node.name
  fqn : f.fqn = site.path ++ "#" ++ (service ++ "." ++ node.name)
  returnType : f.returnType = (node.returnType.map site.typeRef).getD .void
  oneway : f.oneway = node.oneway
  parameters : site.IsFields node.parameters f.parameters
  throws : site.IsFields node.throws f.throws
  annotations : f.annotations = annotationsOf node.annotations
  comments : f.comments = commentsOf node.comments
  location : f.location = some node.span

structure IsService (node : ServiceNode) (s : Service) : Prop where
  name : s.name = node.name
  fqn : s.fqn = site.path ++ "#" ++ node.name
  parent : s.parent = node.parent
  functions : List.Forall₂ (site.IsFunction node.name) node.functions s.functions
  annotations : s.annotations = annotationsOf node.annotations
  comments : s.comments = commentsOf node.comments
  location : s.location = some node.span
  content : s.content = some (excerpt site.source node.span)

/-- The definitions of each kind in source order, and nothing else. -/
structure IsFile (document : Document) (file : File) : Prop where
  path : file.path = site.path
  edition : file.edition = "thrift"
  location : file.location = none
  options : file.options = []
  imports : file.imports = document.includes.map site.importOf
  namespaces : file.namespaces = document.namespaces.map namespaceOf
  messages : List.Forall₂ site.IsMessage (document.definitions.filterMap DefinitionNode.message?)
    file.definitions.messages
  enums : List.Forall₂ site.IsEnumeration
    (document.definitions.filterMap DefinitionNode.enumeration?) file.definitions.enums
  constants : List.Forall₂ site.IsConstant
    (document.definitions.filterMap DefinitionNode.constant?) file.definitions.constants
  typedefs : List.Forall₂ site.IsTypedef
    (document.definitions.filterMap DefinitionNode.typedef?) file.definitions.typedefs
  services : List.Forall₂ site.IsService
    (document.definitions.filterMap DefinitionNode.service?) file.definitions.services

/-- A definition and what is kept of it. -/
inductive IsDefinition : DefinitionNode → Definition → Prop
  | message {kind : MessageKind} {node : StructNode} {m : Message}
      (h : site.IsMessage (kind, node) m) : IsDefinition (.message kind node) (.message m)
  | enumeration {node : EnumNode} {e : Enumeration} (h : site.IsEnumeration node e) :
      IsDefinition (.enumeration node) (.enumeration e)
  | constant {node : ConstNode} {c : Constant} (h : site.IsConstant node c) :
      IsDefinition (.constant node) (.constant c)
  | typedef {node : TypedefNode} {t : Typedef} (h : site.IsTypedef node t) :
      IsDefinition (.typedef node) (.typedef t)
  | service {node : ServiceNode} {s : Service} (h : site.IsService node s) :
      IsDefinition (.service node) (.service s)

end Site

/-! ## One lemma for each part of a source -/

namespace Site

variable {site : Site}

theorem content_settles (node : String) (span : Location) :
    Settles (site.content node span) (site.spanFaults node span)
      (· = excerpt site.source span) := by
  rw [spanFaults, content]
  by_cases hfits : Fits site.source span
  · simp only [if_pos hfits]
    exact ⟨_, if_pos hfits, rfl⟩
  · simp only [if_neg hfits]
    exact if_neg hfits

mutual
theorem literal_settles (owner : String) (node : LiteralNode) :
    Settles (site.literal owner node) (site.doubleFaults owner node.doubles) (Means node) := by
  match node with
  | .text raw => exact settles_ok (.text raw)
  | .int n => exact settles_ok (.int n)
  | .double x =>
    rw [literal, LiteralNode.doubles]
    split
    · rename_i hfinite
      rw [doubleFaults_eq_nil.mpr (List.forall_mem_singleton.mpr hfinite)]
      exact settles_ok (.double hfinite)
    · rename_i hfinite
      have hfaults : site.doubleFaults owner [x] =
          [.constant site.path owner (.unsupported (Decimal.plain.text x))] := by
        simp [doubleFaults, IsFinite, hfinite]
      rw [hfaults]
      rfl
  | .identifier name =>
    rw [literal]
    split
    · rename_i htrue
      exact settles_ok (htrue ▸ .true)
    · rename_i htrue
      split
      · rename_i hfalse
        exact settles_ok (hfalse ▸ .false)
      · rename_i hfalse
        exact settles_ok (.identifier htrue hfalse)
  | .list items =>
    rw [literal, LiteralNode.doubles]
    exact (literalItems_settles owner items).map fun _ h => settles_ok (.list h)
  | .map entries =>
    rw [literal, LiteralNode.doubles]
    exact (literalEntries_settles owner entries).map fun _ h => settles_ok (.map h.1 h.2)

theorem literalItems_settles (owner : String) (items : List LiteralNode) :
    Settles (site.literalItems owner items)
      (site.doubleFaults owner (LiteralNode.doublesItems items)) (List.Forall₂ Means items) := by
  match items with
  | [] => exact settles_ok .nil
  | item :: rest =>
    rw [literalItems, LiteralNode.doublesItems, doubleFaults_append]
    refine (literal_settles owner item).bind fun l hl => ?_
    exact (literalItems_settles owner rest).map fun ls hls => settles_ok (.cons hl hls)

theorem literalEntries_settles (owner : String) (entries : List (LiteralNode × LiteralNode)) :
    Settles (site.literalEntries owner entries)
      (site.doubleFaults owner (LiteralNode.doublesEntries entries))
      fun literals =>
        List.Forall₂ Means (entries.map Prod.fst) (literals.map Prod.fst) ∧
          List.Forall₂ Means (entries.map Prod.snd) (literals.map Prod.snd) := by
  match entries with
  | [] => exact settles_ok ⟨.nil, .nil⟩
  | (key, value) :: rest =>
    rw [literalEntries, LiteralNode.doublesEntries, doubleFaults_append, doubleFaults_append,
      List.append_assoc]
    refine (literal_settles owner key).bind fun k hk => ?_
    refine (literal_settles owner value).bind fun v hv => ?_
    exact (literalEntries_settles owner rest).map fun ls hls =>
      settles_ok ⟨.cons hk hls.1, .cons hv hls.2⟩
end

theorem field_settles (id : Int) (node : FieldNode)
    (hid : ∀ given, node.id = some given → id = given) :
    Settles (site.field id node) (site.doubleFaults node.name node.doubles)
      fun field => site.IsField node field ∧ field.id = id := by
  rw [field]
  cases hdefault : node.default with
  | none =>
    have hfaults : site.doubleFaults node.name node.doubles = [] := by
      simp [FieldNode.doubles, hdefault]
    rw [hfaults]
    refine settles_ok ⟨⟨hid, rfl, rfl, rfl, ?_, rfl, rfl, rfl⟩, rfl⟩
    rw [hdefault]
    exact .none
  | some value =>
    have hdoubles : node.doubles = value.doubles := by simp [FieldNode.doubles, hdefault]
    have hvalue : Settles ((site.literal node.name value).map some)
        (site.doubleFaults node.name value.doubles) (Option.Rel Means node.default) :=
      (literal_settles node.name value).map fun l hl => settles_ok (hdefault ▸ .some hl)
    rw [hdoubles]
    exact hvalue.map fun default h => settles_ok ⟨⟨hid, rfl, rfl, rfl, h, rfl, rfl, rfl⟩, rfl⟩

/-- Fields are numbered down from the last id that was given out. -/
theorem fieldsFrom_settles (last : Int) (nodes : List FieldNode) :
    Settles (site.fieldsFrom last nodes) (site.fieldFaults nodes) fun fields =>
      List.Forall₂ site.IsField nodes fields ∧
        ∃ count, givenIds nodes fields =
          (List.range count).map fun i : Nat => last - ((i : Int) + 1) := by
  induction nodes generalizing last with
  | nil => exact settles_ok ⟨.nil, 0, rfl⟩
  | cons node rest ih =>
    rw [fieldsFrom, fieldFaults, List.flatMap_cons]
    cases hid : node.id with
    | some id =>
      refine (field_settles id node fun given h => ?_).bind fun field hfield => ?_
      · exact Option.some.inj (hid.symm.trans h)
      · refine (ih last).map fun others hothers => settles_ok ⟨.cons hfield.1 hothers.1, ?_⟩
        obtain ⟨count, hcount⟩ := hothers.2
        exact ⟨count, by simpa [givenIds, hid] using hcount⟩
    | none =>
      refine (field_settles (last - 1) node fun given h => ?_).bind fun field hfield => ?_
      · exact absurd (hid.symm.trans h) (Option.some_ne_none _).symm
      · refine (ih (last - 1)).map fun others hothers => settles_ok ⟨.cons hfield.1 hothers.1, ?_⟩
        obtain ⟨count, hcount⟩ := hothers.2
        refine ⟨count + 1, ?_⟩
        have hgiven : givenIds (node :: rest) (field :: others) =
            (last - 1) :: givenIds rest others := by
          simp [givenIds, hid, hfield.2]
        rw [hgiven, hcount, List.range_succ_eq_map, List.map_cons, List.map_map]
        congr 1
        refine List.map_congr_left fun i _ => ?_
        simp only [Function.comp_apply, Nat.succ_eq_add_one]
        omega

theorem fields_settles (nodes : List FieldNode) :
    Settles (site.fields nodes) (site.fieldFaults nodes) (site.IsFields nodes) := by
  refine (fieldsFrom_settles 0 nodes).mono fun fields h => ⟨h.1, ?_⟩
  simpa only [zero_sub] using h.2

theorem message_settles (kind : MessageKind) (node : StructNode) :
    Settles (site.message kind node) (site.faults (.message kind node))
      (site.IsMessage (kind, node)) := by
  refine (fields_settles node.fields).bind fun fields hfields => ?_
  refine (content_settles node.name node.span).map fun content hcontent => ?_
  exact settles_ok ⟨rfl, rfl, rfl, hfields, rfl, rfl, rfl, congrArg some hcontent⟩

theorem forall₂_members (next : Int) (nodes : List EnumValueNode) :
    List.Forall₂ IsMember nodes (members next nodes) := by
  induction nodes generalizing next with
  | nil => exact .nil
  | cons node rest ih => exact .cons ⟨rfl, rfl, rfl⟩ (ih _)

theorem value_members_head {next : Int} {nodes : List EnumValueNode} :
    ∀ node ∈ nodes.head?, ∀ member ∈ (members next nodes).head?,
      member.value = node.value.getD next := by
  cases nodes with
  | nil => simp
  | cons node rest => simp [members]

theorem value_members_next {next : Int} {nodes : List EnumValueNode} {i : Nat}
    {node : EnumValueNode} {previous member : EnumMember} (hnode : nodes[i + 1]? = some node)
    (hprevious : (members next nodes)[i]? = some previous)
    (hmember : (members next nodes)[i + 1]? = some member) :
    member.value = node.value.getD (previous.value + 1) := by
  induction nodes generalizing next i with
  | nil => simp at hnode
  | cons head rest ih =>
    rw [members, List.getElem?_cons_succ] at hmember
    rw [List.getElem?_cons_succ] at hnode
    cases i with
    | zero =>
      obtain rfl := Option.some.inj hprevious
      rw [← List.head?_eq_getElem?] at hnode hmember
      exact value_members_head _ hnode _ hmember
    | succ i => exact ih hnode hprevious hmember

theorem isMembers_members (nodes : List EnumValueNode) : IsMembers nodes (members 0 nodes) :=
  ⟨forall₂_members 0 nodes, value_members_head, fun _ _ _ _ => value_members_next⟩

theorem enumeration_settles (node : EnumNode) :
    Settles (site.enumeration node) (site.faults (.enumeration node))
      (site.IsEnumeration node) := by
  refine (content_settles node.name node.span).map fun content hcontent => ?_
  exact settles_ok ⟨rfl, rfl, isMembers_members _, rfl, rfl, rfl, congrArg some hcontent⟩

theorem constant_settles (node : ConstNode) :
    Settles (site.constant node) (site.faults (.constant node)) (site.IsConstant node) := by
  refine (literal_settles node.name node.value).bind fun value hvalue => ?_
  refine (content_settles node.name node.span).map fun content hcontent => ?_
  exact settles_ok ⟨rfl, rfl, rfl, hvalue, rfl, rfl, congrArg some hcontent⟩

theorem typedef_settles (node : TypedefNode) :
    Settles (site.typedef node) (site.faults (.typedef node)) (site.IsTypedef node) := by
  refine (content_settles node.name node.span).map fun content hcontent => ?_
  exact settles_ok ⟨rfl, rfl, rfl, rfl, rfl, rfl, congrArg some hcontent⟩

theorem function_settles (service : String) (node : FunctionNode) :
    Settles (site.function service node)
      (site.fieldFaults node.parameters ++ site.fieldFaults node.throws)
      (site.IsFunction service node) := by
  refine (fields_settles node.parameters).bind fun parameters hparameters => ?_
  refine (fields_settles node.throws).map fun throws hthrows => ?_
  refine settles_ok ⟨rfl, rfl, ?_, rfl, hparameters, hthrows, rfl, rfl, rfl⟩
  cases node.returnType <;> rfl

theorem service_settles (node : ServiceNode) :
    Settles (site.service node) (site.faults (.service node)) (site.IsService node) := by
  refine (settles_mapM fun f _ => function_settles node.name f).bind fun functions hfunctions => ?_
  refine (content_settles node.name node.span).map fun content hcontent => ?_
  exact settles_ok ⟨rfl, rfl, rfl, hfunctions, rfl, rfl, rfl, congrArg some hcontent⟩

theorem definition_settles (node : DefinitionNode) :
    Settles (site.definition node) (site.faults node) (site.IsDefinition node) := by
  cases node with
  | message kind node => exact (message_settles kind node).map fun _ h => settles_ok (.message h)
  | enumeration node => exact (enumeration_settles node).map fun _ h => settles_ok (.enumeration h)
  | constant node => exact (constant_settles node).map fun _ h => settles_ok (.constant h)
  | typedef node => exact (typedef_settles node).map fun _ h => settles_ok (.typedef h)
  | service node => exact (service_settles node).map fun _ h => settles_ok (.service h)

/-- Definitions of one kind go with the definitions of that kind. -/
theorem forall₂_filterMap {α β γ δ : Type} {R : α → β → Prop} {S : γ → δ → Prop}
    {f : α → Option γ} {g : β → Option δ} {l : List α} {l' : List β} (h : List.Forall₂ R l l')
    (hR : ∀ a b, R a b → Option.Rel S (f a) (g b)) :
    List.Forall₂ S (l.filterMap f) (l'.filterMap g) := by
  induction h with
  | nil => exact .nil
  | @cons a b _ _ hab _ ih =>
    have hrel := hR a b hab
    rw [List.filterMap_cons, List.filterMap_cons]
    generalize f a = c, g b = d at hrel
    cases hrel with
    | none => exact ih
    | some hs => exact .cons hs ih

theorem file_settles (document : Document) :
    Settles (site.file document) (document.definitions.flatMap site.faults)
      (site.IsFile document) := by
  refine (settles_mapM fun node _ => definition_settles node).map fun definitions h => ?_
  refine settles_ok ⟨rfl, rfl, rfl, rfl, rfl, rfl, ?_, ?_, ?_, ?_, ?_⟩
  all_goals
    refine forall₂_filterMap h fun node d hd => ?_
    cases hd <;> first | exact .none | (constructor; assumption)

end Site

/-! ## Documents and projects -/

section Lowered

variable {locate : Locator} {path : String} {parsed : ParsedFile} {project : Project} {sort : Bool}

/-- The place of a file of a project. -/
def ParsedFile.site (parsed : ParsedFile) (locate : Locator) (path : String) : Site :=
  { path, source := parsed.source, locate }

/-- The faults of a file in source order. -/
def ParsedFile.faults (parsed : ParsedFile) (locate : Locator) (path : String) : List LowerError :=
  parsed.document.definitions.flatMap (parsed.site locate path).faults

theorem lowerDocument_settles (locate : Locator) (path : String) (parsed : ParsedFile) :
    Settles (lowerDocument locate path parsed) (parsed.faults locate path)
      ((parsed.site locate path).IsFile parsed.document) :=
  Site.file_settles parsed.document

theorem exists_lowerDocument_iff : (∃ file, lowerDocument locate path parsed = .ok file) ↔
    ∀ node ∈ parsed.document.definitions,
      Fits parsed.source node.span ∧ ∀ x ∈ node.doubles, IsFinite x := by
  rw [(lowerDocument_settles locate path parsed).exists_ok_iff, ParsedFile.faults,
    List.flatMap_eq_nil_iff]
  exact forall₂_congr fun _ _ => Site.faults_eq_nil

/-- A file of a lowered project is the lowered file of the same path, sorted if that is asked
for. -/
def IsLowered (locate : Locator) (sort : Bool) (entry : String × ParsedFile) (file : File) : Prop :=
  ∃ lowered, lowerDocument locate entry.1 entry.2 = .ok lowered ∧
    file = if sort then lowered.sorted else lowered

theorem lowerProject_settles (locate : Locator) (project : Project) (sort : Bool) :
    Settles (lowerProject locate project sort)
      (project.flatMap fun entry => entry.2.faults locate entry.1)
      fun schema => List.Forall₂ (IsLowered locate sort) project schema.files := by
  refine (settles_mapM fun entry _ =>
    (lowerDocument_settles locate entry.1 entry.2).with_eq).map fun files hfiles => settles_ok ?_
  cases sort with
  | false => exact hfiles.imp fun _ file h => ⟨file, h.1, rfl⟩
  | true =>
    rw [if_pos rfl, Schema.sorted, List.forall₂_map_right_iff]
    exact hfiles.imp fun _ file h => ⟨file, h.1, rfl⟩

theorem IsLowered.path_eq {entry : String × ParsedFile} {file : File}
    (h : IsLowered locate sort entry file) : file.path = entry.1 := by
  obtain ⟨lowered, hlowered, rfl⟩ := h
  have hpath : lowered.path = entry.1 :=
    ((lowerDocument_settles locate entry.1 entry.2).of_eq_ok hlowered).path
  cases sort with
  | false => exact hpath
  | true => exact hpath

/-- A member without a value follows the one before it. -/
example : (Site.members 0 [{ name := "RED" }, { name := "GREEN", value := some 5 },
    { name := "BLUE" }]).map EnumMember.value = [0, 5, 6] := by
  decide

end Lowered

end RestThrift.Source
