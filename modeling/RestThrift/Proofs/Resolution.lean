import Mathlib
import RestThrift.Proofs.IncludePaths
import RestThrift.Proofs.Lowering
import RestThrift.Proofs.Shadowing
import RestThrift.Source.Project

/-!
# Names across files

A name in a type of a lowered project has a full name just where the rules for includes lead to a
definition of the project, and a look-up by this full name finds one definition. A lowered file has
the names that are written in its source and no others.
-/
namespace RestThrift.Source

/-! ## Where a name leads -/

section Resolves

variable {project : Project} {path name fqn : String}

/-- Some file of the project has a definition of this full name. -/
def Project.Defines (project : Project) (fqn : String) : Prop :=
  ∃ entry ∈ project, ∃ node ∈ entry.2.document.definitions, fqn = fqnOf entry.1 node.name

/-- What a name in a file stands for: a name without a dot for a definition of the file itself, and
any other, cut at its last dot, for a definition of the first included file with that stem. -/
inductive Project.Resolves (project : Project) (path : String) : String → String → Prop
  | own {name : String} (hname : '.' ∉ name.toList)
      (hdefined : project.Defines (fqnOf path name)) : Resolves project path name (fqnOf path name)
  | included {parsed : ParsedFile} {before after : List IncludeNode} {node : IncludeNode}
      {stem short : String} (hparsed : project.get? path = some parsed)
      (hincludes : parsed.document.includes = before ++ node :: after)
      (hbefore : ∀ earlier ∈ before, Path.stem (Path.resolveInclude path earlier.path) ≠ stem)
      (hstem : Path.stem (Path.resolveInclude path node.path) = stem)
      (hshort : '.' ∉ short.toList)
      (hdefined : project.Defines (fqnOf (Path.resolveInclude path node.path) short)) :
      Resolves project path (stem ++ "." ++ short)
        (fqnOf (Path.resolveInclude path node.path) short)

theorem mem_defined_iff : fqn ∈ project.defined ↔ project.Defines fqn := by
  simp only [Project.defined, Project.Defines, List.mem_flatMap, List.mem_map, eq_comm]

theorem locate_eq_some_iff : project.locate path name = some fqn ↔
    project.candidate? path name = some fqn ∧ project.Defines fqn := by
  rw [Project.locate, ← mem_defined_iff]
  cases project.candidate? path name with
  | none => simp
  | some candidate =>
    simp only [List.contains_iff_mem, Option.ite_none_right_eq_some, Option.some.injEq]
    constructor
    · rintro ⟨hmem, rfl⟩
      exact ⟨rfl, hmem⟩
    · rintro ⟨rfl, hmem⟩
      exact ⟨hmem, rfl⟩

theorem candidate?_of_not_mem (h : '.' ∉ name.toList) :
    project.candidate? path name = some (fqnOf path name) := by
  rw [Project.candidate?, Text.splitLast, if_neg (by simpa using h)]

/-- The include that decides is the first one with the stem. -/
theorem find?_include_eq_some_iff {includes : List IncludeNode} {stem target : String} :
    ((includes.map fun node => Path.resolveInclude path node.path).find?
        fun target => Path.stemChars target.toList == stem.toList) = some target ↔
      ∃ before node after, includes = before ++ node :: after ∧
        (∀ earlier ∈ before, Path.stem (Path.resolveInclude path earlier.path) ≠ stem) ∧
        Path.stem (Path.resolveInclude path node.path) = stem ∧
        Path.resolveInclude path node.path = target := by
  have hstem : ∀ target : String,
      (Path.stemChars target.toList == stem.toList) = true ↔ Path.stem target = stem := by
    intro target
    rw [beq_iff_eq, Path.stem, ← String.toList_inj, String.toList_ofList]
  simp only [List.find?_map, Option.map_eq_some_iff, List.find?_eq_some_iff_append,
    Function.comp_apply, hstem, Bool.not_eq_true', ← Bool.not_eq_true]
  constructor
  · rintro ⟨node, ⟨hnode, before, after, rfl, hbefore⟩, rfl⟩
    exact ⟨before, node, after, rfl, hbefore, hnode, rfl⟩
  · rintro ⟨before, node, after, rfl, hbefore, hnode, rfl⟩
    exact ⟨node, ⟨hnode, before, after, rfl, hbefore⟩, rfl⟩

theorem candidate?_qualified {stem short : String} (hshort : '.' ∉ short.toList) :
    project.candidate? path (stem ++ "." ++ short) = some fqn ↔
      ∃ parsed before node after, project.get? path = some parsed ∧
        parsed.document.includes = before ++ node :: after ∧
        (∀ earlier ∈ before, Path.stem (Path.resolveInclude path earlier.path) ≠ stem) ∧
        Path.stem (Path.resolveInclude path node.path) = stem ∧
        fqnOf (Path.resolveInclude path node.path) short = fqn := by
  have hsplit : Text.splitLast '.' (stem ++ "." ++ short).toList =
      some (stem.toList, short.toList) := by
    rw [String.toList_append, String.toList_append, List.append_assoc]
    exact splitLast_append_cons hshort
  simp only [Project.candidate?, hsplit, String.ofList_toList, Project.includes?,
    Option.bind_eq_bind, Option.bind_eq_some_iff, Option.map_eq_some_iff, Option.pure_def,
    Option.some.injEq]
  constructor
  · rintro ⟨_, ⟨parsed, hparsed, rfl⟩, target, hfind, rfl⟩
    obtain ⟨before, node, after, hincludes, hbefore, hstem, rfl⟩ :=
      find?_include_eq_some_iff.mp hfind
    exact ⟨parsed, before, node, after, hparsed, hincludes, hbefore, hstem, rfl⟩
  · rintro ⟨parsed, before, node, after, hparsed, hincludes, hbefore, hstem, rfl⟩
    exact ⟨_, ⟨parsed, hparsed, rfl⟩, _, find?_include_eq_some_iff.mpr
      ⟨before, node, after, hincludes, hbefore, hstem, rfl⟩, rfl⟩

/-- A name is located where the rules lead to a definition. -/
theorem locate_iff_resolves :
    project.locate path name = some fqn ↔ project.Resolves path name fqn := by
  rw [locate_eq_some_iff]
  constructor
  · rintro ⟨hcandidate, hdefined⟩
    by_cases hdot : '.' ∈ name.toList
    · obtain ⟨stem, short, hname, hshort⟩ := exists_last_split hdot
      obtain rfl : name = String.ofList stem ++ "." ++ String.ofList short := by
        rw [← String.toList_inj, hname]
        simp
      have hdotless : '.' ∉ (String.ofList short).toList := by rwa [String.toList_ofList]
      obtain ⟨parsed, before, node, after, hparsed, hincludes, hbefore, hstem, rfl⟩ :=
        (candidate?_qualified hdotless).mp hcandidate
      exact .included hparsed hincludes hbefore hstem hdotless hdefined
    · rw [candidate?_of_not_mem hdot] at hcandidate
      obtain rfl := Option.some.inj hcandidate
      exact .own hdot hdefined
  · rintro (⟨hname, hdefined⟩ | ⟨hparsed, hincludes, hbefore, hstem, hshort, hdefined⟩)
    · exact ⟨candidate?_of_not_mem hname, hdefined⟩
    · exact ⟨(candidate?_qualified hshort).mpr
        ⟨_, _, _, _, hparsed, hincludes, hbefore, hstem, rfl⟩, hdefined⟩

end Resolves

/-! ## Names that are written -/

/-- The names in a type as it is written. -/
def TypeNode.names : TypeNode → List String
  | .name written => [written]
  | .list element => element.names
  | .set element => element.names
  | .map key value => key.names ++ value.names

def FunctionNode.types (node : FunctionNode) : List TypeNode :=
  node.returnType.toList ++ (node.parameters ++ node.throws).map FieldNode.type

/-- The types that are written in a definition. -/
def DefinitionNode.types : DefinitionNode → List TypeNode
  | .message _ node => node.fields.map FieldNode.type
  | .enumeration _ => []
  | .constant node => [node.type]
  | .typedef node => [node.target]
  | .service node => node.functions.flatMap FunctionNode.types

/-- A name is written in some type of a file, at any depth. -/
def ParsedFile.Writes (parsed : ParsedFile) (name : String) : Prop :=
  ∃ node ∈ parsed.document.definitions, ∃ t ∈ node.types, name ∈ t.names

end RestThrift.Source

namespace RestThrift

theorem File.uses_sorted {file : File} {name : String} {fqn : Option String} :
    file.sorted.Uses name fqn ↔ file.Uses name fqn := by
  simp only [Uses, sorted, file.definitions.sorted_rearranges.mem_entries]

/-- A definition of a file can be found by its name. -/
theorem Definitions.mem_named_of_mem_entries {d : Definitions} :
    ∀ definition ∈ d.entries, definition ∈ d.named := by
  refine forall_mem_entries.mpr ⟨?_, ?_, ?_, ?_, ?_⟩ <;> intro inner hinner <;>
    simp [named, hinner]

end RestThrift

namespace RestThrift.Source

namespace Site

variable {site : Site} {name : String} {fqn : Option String} {nodes others : List TypeNode}
  {types more : List TypeRef} {document : Document} {file : File}

theorem named_mem_walk_typeRef {node : TypeNode} :
    .named name fqn ∈ (site.typeRef node).walk ↔
      name ∈ node.names ∧ Primitive.ofName? name = none ∧ fqn = site.locate site.path name := by
  induction node with
  | name written =>
    rw [typeRef, TypeNode.names, List.mem_singleton]
    cases hprimitive : Primitive.ofName? written with
    | some p =>
      refine ⟨fun h => by simp [TypeRef.walk] at h, ?_⟩
      rintro ⟨rfl, hnone, -⟩
      exact absurd (hnone.symm.trans hprimitive) (Option.some_ne_none p).symm
    | none =>
      simp only [TypeRef.walk, List.mem_singleton, TypeRef.named.injEq]
      constructor
      · rintro ⟨rfl, rfl⟩
        exact ⟨rfl, hprimitive, rfl⟩
      · rintro ⟨rfl, -, rfl⟩
        exact ⟨rfl, rfl⟩
  | list element ih => simp [typeRef, TypeRef.walk, TypeNode.names, ih]
  | set element ih => simp [typeRef, TypeRef.walk, TypeNode.names, ih]
  | map key value ihkey ihvalue =>
    simp only [typeRef, TypeRef.walk, TypeNode.names, List.mem_cons, List.mem_append, ihkey,
      ihvalue, reduceCtorEq, false_or, or_and_right]

/-- The names in some types are those that are written, each with the full name that is located. -/
def Spells (site : Site) (nodes : List TypeNode) (types : List TypeRef) : Prop :=
  ∀ name fqn, (∃ t ∈ types, .named name fqn ∈ t.walk) ↔ (∃ node ∈ nodes, name ∈ node.names) ∧
    Primitive.ofName? name = none ∧ fqn = site.locate site.path name

theorem spells_map (site : Site) (nodes : List TypeNode) :
    site.Spells nodes (nodes.map site.typeRef) := by
  intro name fqn
  simp only [List.mem_map, exists_exists_and_eq_and, named_mem_walk_typeRef]
  constructor
  · rintro ⟨node, hnode, hname, hrest⟩
    exact ⟨⟨node, hnode, hname⟩, hrest⟩
  · rintro ⟨⟨node, hnode, hname⟩, hrest⟩
    exact ⟨node, hnode, hname, hrest⟩

theorem Spells.append (h : site.Spells nodes types) (hmore : site.Spells others more) :
    site.Spells (nodes ++ others) (types ++ more) := by
  intro name fqn
  simp only [List.mem_append, or_and_right, exists_or, h name fqn, hmore name fqn]

theorem spells_flatMap {α β : Type} {R : α → β → Prop} {f : α → List TypeNode}
    {g : β → List TypeRef} {l : List α} {l' : List β} (h : List.Forall₂ R l l')
    (hR : ∀ a b, R a b → site.Spells (f a) (g b)) : site.Spells (l.flatMap f) (l'.flatMap g) := by
  induction h with
  | nil => exact spells_map site []
  | cons hab _ ih => exact (hR _ _ hab).append ih

theorem IsFields.spells {fieldNodes : List FieldNode} {fields : List Field}
    (h : site.IsFields fieldNodes fields) :
    site.Spells (fieldNodes.map FieldNode.type) (fields.map Field.type) := by
  have htypes : fields.map Field.type = fieldNodes.map fun node => site.typeRef node.type :=
    Convert.map_eq_of_forall₂ h.each fun _ _ hfield => hfield.type
  rw [htypes]
  simpa only [List.map_map, Function.comp_def] using
    spells_map site (fieldNodes.map FieldNode.type)

theorem IsFunction.spells {service : String} {node : FunctionNode} {f : ServiceFunction}
    (h : site.IsFunction service node f) : site.Spells node.types f.types := by
  have hreturn : site.Spells node.returnType.toList [f.returnType] := by
    rw [h.returnType]
    cases node.returnType with
    | none =>
      intro name fqn
      simp [TypeRef.void, TypeRef.walk]
    | some t => exact spells_map site [t]
  have hfields := h.parameters.spells.append h.throws.spells
  rw [← List.map_append, ← List.map_append] at hfields
  exact hreturn.append hfields

theorem IsDefinition.spells {node : DefinitionNode} {d : Definition}
    (h : site.IsDefinition node d) : site.Spells node.types d.typeRefs := by
  cases h with
  | message h => exact h.fields.spells
  | enumeration h => exact spells_map site []
  | constant h =>
    rw [Definition.typeRefs, h.type]
    exact spells_map site [_]
  | typedef h =>
    rw [Definition.typeRefs, h.target]
    exact spells_map site [_]
  | service h => exact spells_flatMap h.functions fun _ _ hf => hf.spells

theorem IsDefinition.fqn_eq {node : DefinitionNode} {d : Definition}
    (h : site.IsDefinition node d) : d.fqn = fqnOf site.path node.name := by
  cases h with
  | message h => exact h.fqn
  | enumeration h => exact h.fqn
  | constant h => exact h.fqn
  | typedef h => exact h.fqn
  | service h => exact h.fqn

section Kinds

variable {α β : Type} {kind? : DefinitionNode → Option α} {R : α → β → Prop} {kept : List β}

theorem exists_node_of_kind (h : List.Forall₂ R (document.definitions.filterMap kind?) kept) {b : β}
    (hb : b ∈ kept) : ∃ node ∈ document.definitions, ∃ a, kind? node = some a ∧ R a b := by
  obtain ⟨a, ha, hR⟩ := Convert.exists_left_of_forall₂ h hb
  obtain ⟨node, hnode, hkind⟩ := List.mem_filterMap.mp ha
  exact ⟨node, hnode, a, hkind, hR⟩

theorem exists_kept_of_kind (h : List.Forall₂ R (document.definitions.filterMap kind?) kept)
    {node : DefinitionNode} (hnode : node ∈ document.definitions) {a : α}
    (hkind : kind? node = some a) : ∃ b ∈ kept, R a b :=
  Convert.exists_right_of_forall₂ h (List.mem_filterMap.mpr ⟨node, hnode, hkind⟩)

end Kinds

/-- Each definition of a lowered file is that of a definition of the source. -/
theorem IsFile.exists_node (h : site.IsFile document file) :
    ∀ d ∈ file.definitions.entries, ∃ node ∈ document.definitions, site.IsDefinition node d := by
  refine Definitions.forall_mem_entries.mpr ⟨fun m hm => ?_, fun e he => ?_, fun t ht => ?_,
    fun c hc => ?_, fun s hs => ?_⟩
  · obtain ⟨node, hnode, a, hkind, hR⟩ := exists_node_of_kind h.messages hm
    cases node <;> cases hkind
    exact ⟨_, hnode, .message hR⟩
  · obtain ⟨node, hnode, a, hkind, hR⟩ := exists_node_of_kind h.enums he
    cases node <;> cases hkind
    exact ⟨_, hnode, .enumeration hR⟩
  · obtain ⟨node, hnode, a, hkind, hR⟩ := exists_node_of_kind h.typedefs ht
    cases node <;> cases hkind
    exact ⟨_, hnode, .typedef hR⟩
  · obtain ⟨node, hnode, a, hkind, hR⟩ := exists_node_of_kind h.constants hc
    cases node <;> cases hkind
    exact ⟨_, hnode, .constant hR⟩
  · obtain ⟨node, hnode, a, hkind, hR⟩ := exists_node_of_kind h.services hs
    cases node <;> cases hkind
    exact ⟨_, hnode, .service hR⟩

/-- Each definition of the source has one in the lowered file. -/
theorem IsFile.exists_definition (h : site.IsFile document file) {node : DefinitionNode}
    (hnode : node ∈ document.definitions) :
    ∃ d ∈ file.definitions.entries, site.IsDefinition node d := by
  cases node with
  | message kind node =>
    obtain ⟨m, hm, hR⟩ := exists_kept_of_kind h.messages hnode rfl
    exact ⟨.message m, by simp [Definitions.entries, hm], .message hR⟩
  | enumeration node =>
    obtain ⟨e, he, hR⟩ := exists_kept_of_kind h.enums hnode rfl
    exact ⟨.enumeration e, by simp [Definitions.entries, he], .enumeration hR⟩
  | constant node =>
    obtain ⟨c, hc, hR⟩ := exists_kept_of_kind h.constants hnode rfl
    exact ⟨.constant c, by simp [Definitions.entries, hc], .constant hR⟩
  | typedef node =>
    obtain ⟨t, ht, hR⟩ := exists_kept_of_kind h.typedefs hnode rfl
    exact ⟨.typedef t, by simp [Definitions.entries, ht], .typedef hR⟩
  | service node =>
    obtain ⟨s, hs, hR⟩ := exists_kept_of_kind h.services hnode rfl
    exact ⟨.service s, by simp [Definitions.entries, hs], .service hR⟩

theorem IsFile.uses_iff (h : site.IsFile document file) :
    file.Uses name fqn ↔ (∃ node ∈ document.definitions, ∃ t ∈ node.types, name ∈ t.names) ∧
      Primitive.ofName? name = none ∧ fqn = site.locate site.path name := by
  constructor
  · rintro ⟨d, hd, huses⟩
    obtain ⟨node, hnode, hdefinition⟩ := h.exists_node d hd
    obtain ⟨hwritten, hrest⟩ := (hdefinition.spells name fqn).mp huses
    exact ⟨⟨node, hnode, hwritten⟩, hrest⟩
  · rintro ⟨⟨node, hnode, hwritten⟩, hrest⟩
    obtain ⟨d, hd, hdefinition⟩ := h.exists_definition hnode
    exact ⟨d, hd, (hdefinition.spells name fqn).mpr ⟨hwritten, hrest⟩⟩

end Site

/-! ## Lowered projects -/

section Projects

variable {project : Project} {locate : Locator} {sort : Bool} {schema : Schema}
  {entry : String × ParsedFile} {file : File} {name fqn : String}

theorem IsLowered.uses_iff {fqn : Option String} (h : IsLowered locate sort entry file) :
    file.Uses name fqn ↔ entry.2.Writes name ∧ Primitive.ofName? name = none ∧
      fqn = locate entry.1 name := by
  obtain ⟨lowered, hlowered, rfl⟩ := h
  have hfile := (lowerDocument_settles locate entry.1 entry.2).of_eq_ok hlowered
  cases sort with
  | false => exact hfile.uses_iff
  | true => exact File.uses_sorted.trans hfile.uses_iff

theorem IsLowered.exists_definition (h : IsLowered locate sort entry file) {node : DefinitionNode}
    (hnode : node ∈ entry.2.document.definitions) :
    ∃ d ∈ file.definitions.named, d.fqn = fqnOf entry.1 node.name := by
  obtain ⟨lowered, hlowered, rfl⟩ := h
  have hfile := (lowerDocument_settles locate entry.1 entry.2).of_eq_ok hlowered
  obtain ⟨d, hd, hdefinition⟩ := hfile.exists_definition hnode
  refine ⟨d, Definitions.mem_named_of_mem_entries d ?_, hdefinition.fqn_eq⟩
  cases sort with
  | false => exact hd
  | true => exact lowered.definitions.sorted_rearranges.mem_entries.mpr hd

/-- What a project defines is found in its schema, one definition for a full name. -/
theorem find_of_defines (h : lowerProject locate project sort = .ok schema)
    (hdefined : project.Defines fqn) :
    ∃ d, ((Catalog.ofSchema schema).find fqn).1 = [d] ∧ d.fqn = fqn := by
  obtain ⟨entry, hentry, node, hnode, rfl⟩ := hdefined
  have hfiles := (lowerProject_settles locate project sort).of_eq_ok h
  obtain ⟨file, hfile, hlowered⟩ := Convert.exists_right_of_forall₂ hfiles hentry
  obtain ⟨d, hd, hfqn⟩ := hlowered.exists_definition hnode
  obtain ⟨-, -, e, he, -, hfind⟩ := exists_first hfile hd
  rw [hfqn] at he hfind
  exact ⟨e, find_ofSchema (fqnOf_ne_empty _ _) hfind, he⟩

/-- In each file of a lowered project there stand the names that are written in its source, but for
those of scalars. A name has the full name that the rules lead to and none where they lead to no
definition, and a look-up by a full name finds one definition, which bears it. -/
theorem lowered_names_resolve (h : lowerProject project.locate project sort = .ok schema) :
    List.Forall₂ (fun entry file => file.path = entry.1 ∧
      (∀ name fqn?, file.Uses name fqn? ↔ entry.2.Writes name ∧ Primitive.ofName? name = none ∧
        ∀ fqn, fqn? = some fqn ↔ project.Resolves entry.1 name fqn) ∧
      ∀ name fqn, file.Uses name (some fqn) →
        ∃ d, ((Catalog.ofSchema schema).find fqn).1 = [d] ∧ d.fqn = fqn) project schema.files := by
  have hfiles := (lowerProject_settles project.locate project sort).of_eq_ok h
  refine hfiles.imp fun entry file hfile => ⟨hfile.path_eq, fun name fqn? => ?_,
    fun name fqn huses => ?_⟩
  · have hlocate : fqn? = project.locate entry.1 name ↔
        ∀ fqn, fqn? = some fqn ↔ project.Resolves entry.1 name fqn := by
      rw [Option.ext_iff]
      simp only [locate_iff_resolves]
    rw [hfile.uses_iff, hlocate]
  · obtain ⟨-, -, hlocate⟩ := hfile.uses_iff.mp huses
    exact find_of_defines h (locate_eq_some_iff.mp hlocate.symm).2

/-- A file with an alias for a list of what another file defines. -/
def aliasSource : ParsedFile :=
  { document := {
      includes := [{ path := "user.thrift" }]
      definitions := [.typedef { name := "Users", target := .list (.name "user.User") }] } }

def shopSources : Project :=
  [("idl/api.thrift", aliasSource),
    ("idl/user.thrift", { document := { definitions := [.message .struct { name := "User" }] } })]

theorem shopSources_lower :
    ∃ schema, lowerProject shopSources.locate shopSources true = .ok schema := by
  refine exists_of_isOk ?_
  decide +kernel

theorem shopSources_names_resolve :
    ∃ schema, lowerProject shopSources.locate shopSources true = .ok schema ∧
      ∃ file ∈ schema.files, file.path = "idl/api.thrift" ∧
        file.Uses "user.User" (some "idl/user.thrift#User") ∧
        ∃ d, ((Catalog.ofSchema schema).find "idl/user.thrift#User").1 = [d] ∧
          d.fqn = "idl/user.thrift#User" := by
  obtain ⟨schema, h⟩ := shopSources_lower
  have hwrites : aliasSource.Writes "user.User" :=
    ⟨_, List.mem_singleton.mpr rfl, _, List.mem_singleton.mpr rfl, List.mem_singleton.mpr rfl⟩
  have hlocate : shopSources.locate "idl/api.thrift" "user.User" = some "idl/user.thrift#User" := by
    decide +kernel
  obtain ⟨file, hfile, hpath, huses, hfind⟩ :=
    Convert.exists_right_of_forall₂ (lowered_names_resolve h) List.mem_cons_self
  have huser : file.Uses "user.User" (some "idl/user.thrift#User") := by
    refine (huses _ _).mpr ⟨hwrites, by decide, fun fqn => ?_⟩
    rw [← locate_iff_resolves, ← hlocate]
  exact ⟨schema, h, file, hfile, hpath, huser, hfind _ _ huser⟩

end Projects

end RestThrift.Source
