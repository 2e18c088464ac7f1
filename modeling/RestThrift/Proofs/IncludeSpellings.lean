import Mathlib
import RestThrift.Proofs.Lowering
import RestThrift.Proofs.Splitting

/-!
# Spellings of an include path

An include path leads from directory to directory. A dot, an empty segment, and a directory that is
left again at once lead back to where they were written, so that no spelling of a path makes a
difference to what a lowered file imports or to where a name is located. What a path leads to has
none of these segments itself.
-/
namespace RestThrift

open Text

/-! ## Walks through directories -/

/-- A segment that names a directory or a file. -/
def IsOrdinary (segment : List Char) : Prop :=
  segment ≠ [] ∧ segment ≠ ['.'] ∧ segment ≠ ['.', '.']

instance (segment : List Char) : Decidable (IsOrdinary segment) :=
  inferInstanceAs (Decidable (_ ∧ _))

/-- What leads back to where it begins: a dot, an empty segment, or a directory that is left again
at once. -/
inductive Detour : List Char → Prop
  | dot : Detour ['.', '/']
  | slash : Detour ['/']
  | back {segment : List Char} (h : IsOrdinary segment) (hslash : '/' ∉ segment) :
      Detour (segment ++ ['/', '.', '.', '/'])

/-- A segment begins at the start of a path and behind each slash. -/
def BeginsSegment (before : List Char) : Prop := ∀ c ∈ before.getLast?, c = '/'

/-- A detour is inserted where a segment begins, or a slash at the end. -/
inductive Inserts : List Char → List Char → Prop
  | detour {before text after : List Char} (hbefore : BeginsSegment before) (h : Detour text) :
      Inserts (before ++ after) (before ++ (text ++ after))
  | slash (path : List Char) : Inserts path (path ++ ['/'])

/-- Two spellings of a path, which differ by any number of insertions. -/
def SpelledAlike (target other : String) : Prop :=
  Relation.EqvGen Inserts target.toList other.toList

namespace Path

/-- The place that a path leads to from a directory. -/
def walk (directory : List (List Char)) (path : List Char) : List (List Char) :=
  (splitAt '/' path).foldl enter directory

section Walks

variable {directory segments : List (List Char)} {segment before text after path other : List Char}

theorem resolveInclude_eq (path target : String) : resolveInclude path target =
    String.ofList (join ['/'] (walk (Path.directory path.toList) target.toList)) := rfl

theorem walk_append_slash (directory : List (List Char)) (before after : List Char) :
    walk directory (before ++ '/' :: after) = walk (walk directory before) after := by
  rw [walk, splitAt_append_sep, List.foldl_append, walk, walk]

theorem walk_ordinary (h : IsOrdinary segment) (hslash : '/' ∉ segment) :
    walk directory segment = directory ++ [segment] := by
  obtain ⟨hempty, hdot, hparent⟩ := h
  have hblank : ¬ (segment = [] ∨ segment = ['.']) := not_or.mpr ⟨hempty, hdot⟩
  rw [walk, splitAt_of_not_mem hslash, List.foldl_cons, List.foldl_nil, enter, if_neg hblank,
    if_neg hparent]

theorem walk_nil (directory : List (List Char)) : walk directory [] = directory := rfl

theorem walk_dot (directory : List (List Char)) : walk directory ['.'] = directory := rfl

theorem walk_parent (directory : List (List Char)) :
    walk directory ['.', '.'] = directory.dropLast := rfl

theorem walk_detour (h : Detour text) : walk directory (text ++ after) = walk directory after := by
  cases h with
  | dot => exact (walk_append_slash directory ['.'] after).trans (by rw [walk_dot])
  | slash => exact (walk_append_slash directory [] after).trans (by rw [walk_nil])
  | @back segment h hslash =>
    have htext : segment ++ ['/', '.', '.', '/'] ++ after =
        segment ++ '/' :: (['.', '.'] ++ '/' :: after) := by simp
    rw [htext, walk_append_slash, walk_append_slash, walk_ordinary h hslash, walk_parent,
      List.dropLast_concat]

/-- What is inserted changes nothing wherever the path has led to before. -/
theorem walk_inserts (h : Inserts path other) : walk directory other = walk directory path := by
  cases h with
  | @detour before text after hbefore h =>
    rcases List.eq_nil_or_concat' before with rfl | ⟨start, c, rfl⟩
    · exact walk_detour h
    · obtain rfl : c = '/' := hbefore c (by simp)
      simp only [List.append_assoc, List.singleton_append, walk_append_slash, walk_detour h]
  | slash => rw [walk_append_slash, walk_nil]

theorem resolveInclude_spelledAlike {target other : String} (h : SpelledAlike target other)
    (path : String) : resolveInclude path other = resolveInclude path target := by
  have hwalk : ∀ {a b : List Char}, Relation.EqvGen Inserts a b →
      walk (Path.directory path.toList) b = walk (Path.directory path.toList) a := by
    intro a b h
    induction h with
    | rel a b h => exact walk_inserts h
    | refl a => rfl
    | symm a b _ ih => exact ih.symm
    | trans a b c _ _ ihfirst ihsecond => exact ihsecond.trans ihfirst
  rw [resolveInclude_eq, resolveInclude_eq, hwalk h]

/-! ## Where a walk ends -/

theorem mem_enter (h : segment ∈ enter directory text) :
    segment ∈ directory ∨ segment = text ∧ IsOrdinary text := by
  rw [enter] at h
  split at h
  · exact .inl h
  · split at h
    · exact .inl (List.mem_of_mem_dropLast h)
    · rename_i hblank hparent
      obtain ⟨hempty, hdot⟩ := not_or.mp hblank
      exact (List.mem_append.mp h).imp_right fun h =>
        ⟨List.mem_singleton.mp h, hempty, hdot, hparent⟩

/-- A place is named by segments of the directory where the walk begins and by ordinary ones of the
path. -/
theorem mem_foldl_enter (h : segment ∈ segments.foldl enter directory) :
    segment ∈ directory ∨ segment ∈ segments ∧ IsOrdinary segment := by
  induction segments generalizing directory with
  | nil => exact .inl h
  | cons first rest ih =>
    rcases ih h with h | ⟨hmem, hordinary⟩
    · rcases mem_enter h with h | ⟨rfl, hordinary⟩
      · exact .inl h
      · exact .inr ⟨List.mem_cons_self, hordinary⟩
    · exact .inr ⟨List.mem_cons_of_mem _ hmem, hordinary⟩

theorem slash_not_mem_directory (h : segment ∈ Path.directory path) : '/' ∉ segment := by
  rw [Path.directory] at h
  split at h
  · exact not_mem_of_mem_splitAt h
  · cases h

/-- A resolved path is empty or has ordinary segments only. -/
theorem resolveInclude_ordinary {path : String}
    (hpath : ∀ segment ∈ Path.directory path.toList, IsOrdinary segment) (target : String) :
    resolveInclude path target = "" ∨
      ∀ segment ∈ splitAt '/' (resolveInclude path target).toList, IsOrdinary segment := by
  rw [resolveInclude_eq, String.toList_ofList]
  by_cases hempty : walk (Path.directory path.toList) target.toList = []
  · rw [hempty]
    exact .inl rfl
  · have hslash : ∀ segment ∈ walk (Path.directory path.toList) target.toList, '/' ∉ segment := by
      intro segment h
      rcases mem_foldl_enter h with h | ⟨h, -⟩
      · exact slash_not_mem_directory h
      · exact not_mem_of_mem_splitAt h
    rw [splitAt_join hempty hslash]
    refine .inr fun segment h => ?_
    rcases mem_foldl_enter h with h | ⟨-, hordinary⟩
    · exact hpath segment h
    · exact hordinary

end Walks

end Path

namespace Source

/-! ## Files and projects -/

/-- The same include paths in other spellings. -/
def Document.SpelledAlike (document other : Document) : Prop :=
  List.Forall₂ (fun node other => RestThrift.SpelledAlike node.path other.path) document.includes
    other.includes

/-- The same files with their includes spelled in another way. -/
def Project.SpelledAlike (project other : Project) : Prop :=
  List.Forall₂ (fun entry other => entry.1 = other.1 ∧
    entry.2.document.definitions.map DefinitionNode.name =
      other.2.document.definitions.map DefinitionNode.name ∧
    entry.2.document.SpelledAlike other.2.document) project other

section Spellings

variable {locate locate' : Locator} {path : String} {document other : Document}
  {file spelled : ParsedFile} {lowered respelled : File}

/-- Paths that a document includes, seen from its own one. -/
def Document.includePaths (document : Document) (path : String) : List String :=
  document.includes.map fun node => Path.resolveInclude path node.path

theorem Document.SpelledAlike.includePaths_eq (h : document.SpelledAlike other) (path : String) :
    other.includePaths path = document.includePaths path :=
  Convert.map_eq_of_forall₂ h fun _ _ hnode => Path.resolveInclude_spelledAlike hnode path

theorem importPaths_of_lowerDocument (h : lowerDocument locate path file = .ok lowered) :
    lowered.imports.map Import.path = file.document.includePaths path := by
  rw [((lowerDocument_settles locate path file).of_eq_ok h).imports, List.map_map]
  rfl

end Spellings

section Projects

variable {project other : Project} {path name : String}

theorem Project.SpelledAlike.defined_eq (h : project.SpelledAlike other) :
    other.defined = project.defined := by
  rw [defined, defined]
  induction h with
  | nil => rfl
  | @cons entry respelled _ _ hentry _ ih =>
    obtain ⟨hkey, hnames, -⟩ := hentry
    have hfqns : ∀ file : String × ParsedFile,
        (file.2.document.definitions.map fun node => fqnOf file.1 node.name) =
          (file.2.document.definitions.map DefinitionNode.name).map (fqnOf file.1) := by
      intro file
      rw [List.map_map]
      rfl
    rw [List.flatMap_cons, List.flatMap_cons, ih, hfqns, hfqns entry, hkey, hnames]

theorem Project.SpelledAlike.includes?_eq (h : project.SpelledAlike other) (path : String) :
    other.includes? path = project.includes? path := by
  rw [includes?, includes?]
  induction h with
  | nil => rfl
  | @cons entry respelled _ _ hentry _ ih =>
    obtain ⟨hkey, -, hincludes⟩ := hentry
    rw [Table.get?, Table.get?, hkey]
    split
    · exact congrArg some (hincludes.includePaths_eq path)
    · exact ih

theorem Project.SpelledAlike.locate_eq (h : project.SpelledAlike other) :
    other.locate = project.locate := by
  funext path name
  have hcandidate : other.candidate? path name = project.candidate? path name := by
    rw [candidate?, candidate?, h.includes?_eq]
  rw [locate, locate, hcandidate, h.defined_eq]

end Projects

/-- A resolved path is empty or has ordinary segments only, if the including file stands in such a
directory. However an include is spelled, it is resolved to the same path, so that lowered files
have the same import paths and every name is located alike; whether a file can be lowered does not
depend on its includes. -/
theorem include_spellings_agree :
    (∀ path : String, (∀ segment ∈ Path.directory path.toList, IsOrdinary segment) → ∀ target,
      Path.resolveInclude path target = "" ∨
        ∀ segment ∈ splitAt '/' (Path.resolveInclude path target).toList, IsOrdinary segment) ∧
    (∀ path target other, SpelledAlike target other →
      Path.resolveInclude path other = Path.resolveInclude path target) ∧
    (∀ path (file other : ParsedFile), file.document.SpelledAlike other.document →
      (∀ locate locate' lowered respelled, lowerDocument locate path file = .ok lowered →
        lowerDocument locate' path other = .ok respelled →
        respelled.imports.map Import.path = lowered.imports.map Import.path) ∧
      (other.document.definitions = file.document.definitions → other.source = file.source →
        ∀ locate locate', (∃ respelled, lowerDocument locate' path other = .ok respelled) ↔
          ∃ lowered, lowerDocument locate path file = .ok lowered)) ∧
    ∀ project other : Project, project.SpelledAlike other → other.locate = project.locate := by
  refine ⟨fun path hpath => Path.resolveInclude_ordinary hpath,
    fun path target other h => Path.resolveInclude_spelledAlike h path,
    fun path file other h => ⟨fun locate locate' lowered respelled hlowered hrespelled => ?_,
      fun hdefinitions hsource locate locate' => ?_⟩,
    fun project other h => h.locate_eq⟩
  · rw [importPaths_of_lowerDocument hlowered, importPaths_of_lowerDocument hrespelled,
      h.includePaths_eq]
  · rw [exists_lowerDocument_iff, exists_lowerDocument_iff, hdefinitions, hsource]

/-- A file with an alias for a list of what the included file defines. -/
def includingFile (target : String) : ParsedFile :=
  { document := {
      includes := [{ path := target }]
      definitions := [.typedef { name := "Users", target := .list (.name "user.User") }] } }

def includingSources (target : String) : Project :=
  [("idl/api/shop.thrift", includingFile target),
    ("idl/user.thrift", { document := { definitions := [.message .struct { name := "User" }] } })]

theorem spelledAlike_user : SpelledAlike "../user.thrift" "..//old/.././user.thrift" := by
  have hbegins : BeginsSegment "../".toList := by
    rintro c ⟨⟩
    rfl
  have hold : Detour ("old".toList ++ ['/', '.', '.', '/']) := .back (by decide) (by decide)
  have hdot : Inserts "../user.thrift".toList ".././user.thrift".toList :=
    @Inserts.detour "../".toList ['.', '/'] "user.thrift".toList hbegins .dot
  have hback : Inserts ".././user.thrift".toList "../old/.././user.thrift".toList :=
    @Inserts.detour "../".toList ("old".toList ++ ['/', '.', '.', '/']) "./user.thrift".toList
      hbegins hold
  have hslash : Inserts "../old/.././user.thrift".toList "..//old/.././user.thrift".toList :=
    @Inserts.detour "../".toList ['/'] "old/.././user.thrift".toList hbegins .slash
  exact ((Relation.EqvGen.rel _ _ hdot).trans _ _ _ (.rel _ _ hback)).trans _ _ _ (.rel _ _ hslash)

theorem includingSources_spellings_agree :
    Path.resolveInclude "idl/api/shop.thrift" "..//old/.././user.thrift" = "idl/user.thrift" ∧
    (∀ segment ∈ splitAt '/' (Path.resolveInclude "idl/api/shop.thrift" "../user.thrift").toList,
      IsOrdinary segment) ∧
    (∀ locate, ∃ lowered, lowerDocument locate "idl/api/shop.thrift"
        (includingFile "..//old/.././user.thrift") = .ok lowered ∧
      lowered.imports.map Import.path = ["idl/user.thrift"]) ∧
    (includingSources "..//old/.././user.thrift").locate "idl/api/shop.thrift" "user.User" =
      some "idl/user.thrift#User" := by
  obtain ⟨hordinary, hresolve, hlower, hlocate⟩ := include_spellings_agree
  have htarget : Path.resolveInclude "idl/api/shop.thrift" "../user.thrift" = "idl/user.thrift" := by
    decide +kernel
  have hfile : (includingFile "../user.thrift").document.SpelledAlike
      (includingFile "..//old/.././user.thrift").document := .cons spelledAlike_user .nil
  refine ⟨(hresolve _ _ _ spelledAlike_user).trans htarget, ?_, fun locate => ?_, ?_⟩
  · refine (hordinary "idl/api/shop.thrift" ?_ "../user.thrift").resolve_left ?_
    · decide +kernel
    · rw [htarget]
      decide
  · obtain ⟨himports, hlowers⟩ := hlower "idl/api/shop.thrift" _ _ hfile
    obtain ⟨lowered, hlowered⟩ : ∃ lowered, lowerDocument locate "idl/api/shop.thrift"
        (includingFile "../user.thrift") = .ok lowered := exists_of_isOk rfl
    obtain ⟨respelled, hrespelled⟩ := (hlowers rfl rfl locate locate).mpr ⟨lowered, hlowered⟩
    have hpaths : lowered.imports.map Import.path =
        [Path.resolveInclude "idl/api/shop.thrift" "../user.thrift"] :=
      importPaths_of_lowerDocument hlowered
    exact ⟨respelled, hrespelled,
      (himports _ _ _ _ hlowered hrespelled).trans (by rw [hpaths, htarget])⟩
  · have hproject : (includingSources "../user.thrift").SpelledAlike
        (includingSources "..//old/.././user.thrift") :=
      .cons ⟨rfl, rfl, hfile⟩ (.cons ⟨rfl, rfl, .nil⟩ .nil)
    rw [hlocate _ _ hproject]
    decide +kernel

end Source

end RestThrift
