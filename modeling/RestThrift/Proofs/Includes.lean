import Mathlib
import RestThrift.Proofs.References

/-!
# Includes of a finished schema

A file includes what the full names in its types say: the part of each name before its first `#`,
other than the file's own path. The path of an output file may hold a `#` itself, from the name of
the input or from a namespace. Its part before the `#` is then no path of the schema, since it has
lost its extension.
-/
namespace RestThrift

/-! ## Sorted lists of texts -/

section Insertion

variable {text other : String} {texts list : List String}

theorem mem_insertSorted : other ∈ insertSorted text list ↔ other = text ∨ other ∈ list := by
  induction list with
  | nil => simp [insertSorted]
  | cons head rest ih =>
    rw [insertSorted]
    split
    · rename_i heq
      simp [heq]
    · split
      · simp
      · rw [List.mem_cons, ih, List.mem_cons, or_left_comm]

theorem pairwise_insertSorted (h : list.Pairwise (· < ·)) :
    (insertSorted text list).Pairwise (· < ·) := by
  induction list with
  | nil => exact List.pairwise_singleton _ _
  | cons head rest ih =>
    obtain ⟨hhead, hrest⟩ := List.pairwise_cons.mp h
    rw [insertSorted]
    split
    · exact h
    · split
      · rename_i hlt
        refine List.pairwise_cons.mpr ⟨fun other hother => ?_, h⟩
        rcases List.mem_cons.mp hother with rfl | hother
        · exact hlt
        · exact hlt.trans (hhead other hother)
      · rename_i hne hnot
        refine List.pairwise_cons.mpr ⟨fun other hother => ?_, ih hrest⟩
        rcases mem_insertSorted.mp hother with rfl | hother
        · exact lt_of_le_of_ne (not_lt.mp hnot) (Ne.symm hne)
        · exact hhead other hother

/-- Insert texts in turn. -/
def insertTexts (texts list : List String) : List String :=
  texts.foldl (fun list text => insertSorted text list) list

theorem mem_insertTexts : other ∈ insertTexts texts list ↔ other ∈ texts ∨ other ∈ list := by
  induction texts generalizing list with
  | nil => simp [insertTexts]
  | cons text rest ih =>
    have hstep : insertTexts (text :: rest) list = insertTexts rest (insertSorted text list) := rfl
    rw [hstep, ih, mem_insertSorted, List.mem_cons, or_left_comm, or_assoc]

theorem pairwise_insertTexts (h : list.Pairwise (· < ·)) :
    (insertTexts texts list).Pairwise (· < ·) := by
  induction texts generalizing list with
  | nil => exact h
  | cons text rest ih => exact ih (pairwise_insertSorted h)

end Insertion

/-! ## Files of full names -/

section Files

variable {sep : Char} {a b : List Char} {path name : String}

theorem takeWhile_append_cons : (a ++ sep :: b).takeWhile (· ≠ sep) = a.takeWhile (· ≠ sep) := by
  induction a with
  | nil => simp
  | cons c rest ih => simp only [List.cons_append, List.takeWhile_cons, ih]

theorem takeWhile_append_of_mem (h : sep ∈ a) :
    (a ++ b).takeWhile (· ≠ sep) = a.takeWhile (· ≠ sep) := by
  obtain ⟨before, after, rfl⟩ := List.append_of_mem h
  rw [List.append_assoc, List.cons_append, takeWhile_append_cons, takeWhile_append_cons]

/-- The part of a path before its first `#`. -/
def beforeHash (path : String) : String := String.ofList (path.toList.takeWhile (· ≠ '#'))

/-- The file that is read off the full name of a definition. -/
theorem splitFqn_fqnOf : (splitFqn (fqnOf path name)).map (·.1) = some (beforeHash path) := by
  have hlist : (fqnOf path name).toList = path.toList ++ '#' :: name.toList := by simp [fqnOf]
  rw [splitFqn, Text.splitFirst, hlist, if_pos (by simp), Option.map_some, Option.map_some,
    takeWhile_append_cons, beforeHash]

theorem beforeHash_eq_self (h : '#' ∉ path.toList) : beforeHash path = path := by
  have hall : path.toList.takeWhile (· ≠ '#') = path.toList := by
    refine List.takeWhile_eq_self_iff.mpr fun c hc => ?_
    simpa using fun heq : c = '#' => h (heq ▸ hc)
  rw [beforeHash, hall, String.ofList_toList]

theorem hash_not_mem_beforeHash (path : String) : '#' ∉ (beforeHash path).toList := by
  intro h
  rw [beforeHash, String.toList_ofList] at h
  simpa using List.mem_takeWhile_imp h

end Files

/-! ## Paths of output files -/

section Paths

open Text

variable {name space stem file : String}

theorem mem_splitLast_fst {sep c : Char} {text head tail : List Char}
    (h : splitLast sep text = some (head, tail)) (hc : c ∈ head) : c ∈ text := by
  rw [splitLast] at h
  split at h
  · obtain ⟨rfl, -⟩ := Prod.mk.inj (Option.some.inj h)
    rw [List.mem_reverse] at hc
    exact List.mem_reverse.mp ((List.dropWhile_subset _) (List.mem_of_mem_drop hc))
  · cases h

theorem not_mem_namespaceName {c : Char} {name : List Char} (h : c ∈ Naming.namespaceName name) :
    c ≠ '.' ∧ (c ∈ name ∨ c = '_') := by
  obtain ⟨d, hd, rfl⟩ := List.mem_map.mp h
  split
  · exact ⟨by decide, .inr rfl⟩
  · rename_i hd'
    simp only [Bool.or_eq_true, decide_eq_true_eq, not_or] at hd'
    exact ⟨hd'.1.2, .inl hd⟩

/-- A stem lies within the last segment of a path. -/
theorem not_isSeparator_of_mem_stemChars {c : Char} {path : List Char}
    (h : c ∈ Path.stemChars path) : Path.isSeparator c = false := by
  have hlast : c ∈ Path.lastSegment path := by
    rw [Path.stemChars, Path.dropExtension] at h
    split at h
    · rename_i hsplit
      exact mem_splitLast_fst hsplit h
    · exact h
  rw [Path.lastSegment, List.mem_reverse] at hlast
  simpa using List.mem_takeWhile_imp hlast

/-- A text without dots and separators. -/
def IsSegment (text : List Char) : Prop := ∀ c ∈ text, c ≠ '.' ∧ c ≠ '/' ∧ c ≠ '\\'

theorem isSegment_outputStem (file : String) : IsSegment (Convert.outputStem file).toList := by
  intro c hc
  rw [Convert.outputStem] at hc
  split at hc
  · have hidl : c = 'i' ∨ c = 'd' ∨ c = 'l' := by simpa using hc
    rcases hidl with rfl | rfl | rfl <;> decide
  · rw [String.toList_ofList] at hc
    obtain ⟨hdot, hc | rfl⟩ := not_mem_namespaceName hc
    · have hsep := not_isSeparator_of_mem_stemChars hc
      simp only [Path.isSeparator, Bool.or_eq_false_iff, decide_eq_false_iff_not] at hsep
      exact ⟨hdot, hsep⟩
    · decide

theorem dot_not_mem_splitDefinition (key : String) :
    '.' ∉ (Naming.splitDefinition key).1.toList := by
  rw [Naming.splitDefinition]
  split
  · rw [String.toList_ofList]
    exact fun h => (not_mem_namespaceName h).1 rfl
  · change '.' ∉ Naming.mainNamespace.toList
    decide

namespace Convert

variable {plan : Plan}

theorem dot_not_mem_spaceStem (hstem : IsSegment stem.toList) (hspace : '.' ∉ space.toList) :
    '.' ∉ (spaceStem stem space).toList := by
  rw [spaceStem]
  split
  · exact fun h => (hstem _ h).1 rfl
  · exact hspace

theorem toList_spaceFile : (spaceFile stem space).toList =
    stem.toList ++ '/' :: ((spaceStem stem space).toList ++ ".thrift".toList) := by
  simp [spaceFile]

/-- A home is the file of a namespace without dots. -/
theorem Plan.IsHome.exists_space (h : plan.IsHome file) :
    ∃ space, '.' ∉ space.toList ∧ file = spaceFile plan.stem space := by
  rcases h with rfl | ⟨key, -, rfl⟩
  · exact ⟨Naming.mainNamespace, by decide, rfl⟩
  · exact ⟨_, dot_not_mem_splitDefinition key, rfl⟩

/-- What stands before a `#` of an output path has no extension. -/
theorem dot_not_mem_beforeHash (hstem : IsSegment stem.toList) (hspace : '.' ∉ space.toList)
    (hash : '#' ∈ (spaceFile stem space).toList) :
    '.' ∉ (beforeHash (spaceFile stem space)).toList := by
  have hname := dot_not_mem_spaceStem hstem hspace
  rw [toList_spaceFile, ← List.cons_append, ← List.append_assoc] at hash
  have hfront : '#' ∈ stem.toList ++ '/' :: (spaceStem stem space).toList :=
    (List.mem_append.mp hash).resolve_right (by decide)
  intro hdot
  rw [beforeHash, String.toList_ofList, toList_spaceFile, ← List.cons_append, ← List.append_assoc,
    takeWhile_append_of_mem hfront] at hdot
  rcases List.mem_append.mp (List.takeWhile_subset _ hdot) with hdot | hdot
  · exact (hstem _ hdot).1 rfl
  · exact hname ((List.mem_cons.mp hdot).resolve_left (by decide))

theorem dot_mem_spaceFile : '.' ∈ (spaceFile stem space).toList := by
  rw [toList_spaceFile]
  simp

end Convert

end Paths

/-! ## References between files -/

/-- A type of the file, at any depth, stands for a message, an enumeration or a typedef of the
other one. -/
def File.RefersTo (f g : File) : Prop :=
  ∃ t ∈ Convert.mentioned f.definitions, ∃ written, ∃ d ∈ g.definitions.types,
    .named written (some d.fqn) ∈ t.walk

/-- The paths that a file includes are, in strictly ascending order, those of the other files that
it refers to. -/
def IncludesExactly (schema : Schema) (f : File) : Prop :=
  (f.imports.map Import.path).Pairwise (· < ·) ∧
    ∀ path, path ∈ f.imports.map Import.path ↔
      ∃ g ∈ schema.files, g.path = path ∧ g.path ≠ f.path ∧ f.RefersTo g

namespace Convert

variable {plan : Plan} {stated : Api.Schema → Prop} {service : String} {answers : List Answer}
  {w : Workspace} {schema : Schema} {f g : File} {d d' : Definitions} {path file fqn : String}
  {types : List TypeRef} {t : TypeRef}

theorem mem_mentionedFiles : path ∈ mentionedFiles types ↔ ∃ t ∈ types, ∃ written fqn,
    .named written (some fqn) ∈ t.walk ∧ (splitFqn fqn).map (·.1) = some path := by
  simp only [mentionedFiles, List.mem_filterMap, List.mem_flatMap, Option.map_bind,
    Option.bind_eq_some_iff]
  constructor
  · rintro ⟨inner, ⟨t, ht, hinner⟩, fqn, hfqn, hpath⟩
    cases inner with
    | named written fqn? =>
      obtain rfl : fqn? = some fqn := hfqn
      exact ⟨t, ht, written, fqn, hinner, hpath⟩
    | _ => cases hfqn
  · rintro ⟨t, ht, written, fqn, hinner, hpath⟩
    exact ⟨_, ⟨t, ht, hinner⟩, fqn, rfl, hpath⟩

theorem mem_mentioned_of_rearranges (h : d'.Rearranges d) :
    t ∈ mentioned d' ↔ t ∈ mentioned d := by
  simp only [mentioned, List.mem_append, List.mem_flatMap, List.mem_map, h.services.mem_iff,
    h.messages.mem_iff, h.typedefs.mem_iff]

theorem importPaths_eq (file : String) (d : Definitions) :
    (importsOf file d).map Import.path =
      insertTexts ((mentionedFiles (mentioned d)).filter fun path => path != file) [] := by
  simp only [importsOf, List.map_map, insertTexts]
  exact List.map_id _

theorem pairwise_importPaths (file : String) (d : Definitions) :
    ((importsOf file d).map Import.path).Pairwise (· < ·) := by
  rw [importPaths_eq]
  exact pairwise_insertTexts List.Pairwise.nil

theorem mem_importPaths : path ∈ (importsOf file d).map Import.path ↔
    path ≠ file ∧ path ∈ mentionedFiles (mentioned d) := by
  rw [importPaths_eq, mem_insertTexts, or_iff_left List.not_mem_nil, List.mem_filter, bne_iff_ne,
    and_comm]

namespace Finished

variable (h : Finished plan stated service answers w schema)
include h

/-- A named type that knows its definition stands for a definition of the schema. It is written with
the last part of the namespace's path before it, unless the definition is in the file itself. -/
theorem exists_target (hf : f ∈ schema.files) (ht : t ∈ mentioned f.definitions) {written : String}
    (hn : .named written (some fqn) ∈ t.walk) :
    ∃ g ∈ schema.files, ∃ d ∈ g.definitions.types, fqn = d.fqn ∧
      ((g.path = f.path ∧ written = d.name) ∨ (g.path ≠ f.path ∧ ∃ space : String,
        '.' ∉ space.toList ∧ g.path = spaceFile plan.stem space ∧
        written = spaceStem plan.stem space ++ "." ++ d.name)) := by
  rcases (h.typed hf ht).named_cases hn with ⟨-, hnone⟩ | ⟨key, _, hnamed, -, htype⟩ |
    ⟨definition, hdefinition, -, htype⟩
  · cases hnone
  · have htaken := h.reserved key (Table.mem_keys_of_get? hnamed)
    obtain ⟨g, hg, d, hd, hpath, hname, hfqn⟩ := h.exists_bearer htaken
    obtain ⟨rfl, htarget⟩ := TypeRef.named.inj htype
    refine ⟨g, hg, d, hd, (Option.some.inj htarget).symm.trans hfqn.symm, ?_⟩
    rw [hpath, hname]
    by_cases hfile : plan.fileOf key = f.path
    · exact .inl ⟨hfile, if_pos hfile⟩
    · exact .inr ⟨hfile, _, dot_not_mem_splitDefinition key, rfl, if_neg hfile⟩
  · obtain ⟨g, hg, d, hd, hpath, hname, hfqn⟩ :=
      h.exists_bearer (h.coherent.mem_namesIn hdefinition)
    obtain ⟨rfl, htarget⟩ := TypeRef.named.inj htype
    exact ⟨g, hg, d, hd, (Option.some.inj htarget).symm.trans hfqn.symm, .inl ⟨hpath, hname.symm⟩⟩

/-- A file includes, in ascending order, what stands before the `#` of each path that it refers to,
unless this is its own path. -/
theorem includes_spec (hf : f ∈ schema.files) :
    (f.imports.map Import.path).Pairwise (· < ·) ∧
      ∀ path, path ∈ f.imports.map Import.path ↔
        path ≠ f.path ∧ ∃ g ∈ schema.files, f.RefersTo g ∧ path = beforeHash g.path := by
  obtain ⟨d, hd, himports⟩ := h.imports f hf
  rw [himports]
  refine ⟨pairwise_importPaths f.path d, fun path => ?_⟩
  rw [mem_importPaths, mem_mentionedFiles]
  refine and_congr_right fun _ => ⟨?_, ?_⟩
  · rintro ⟨t, ht, written, fqn, hn, hpath⟩
    rw [← mem_mentioned_of_rearranges hd] at ht
    obtain ⟨g, hg, definition, hdefinition, rfl, -⟩ := h.exists_target hf ht hn
    rw [(h.fqn_eq hg hdefinition).1, splitFqn_fqnOf] at hpath
    exact ⟨g, hg, ⟨t, ht, written, definition, hdefinition, hn⟩, (Option.some.inj hpath).symm⟩
  · rintro ⟨g, hg, ⟨t, ht, written, definition, hdefinition, hn⟩, rfl⟩
    refine ⟨t, (mem_mentioned_of_rearranges hd).mp ht, written, definition.fqn, hn, ?_⟩
    rw [(h.fqn_eq hg hdefinition).1, splitFqn_fqnOf]

/-- What stands before a `#` is the path of no file. -/
theorem beforeHash_ne_path (hstem : IsSegment plan.stem.toList) (hg : g ∈ schema.files)
    (hf : f ∈ schema.files) (hash : '#' ∈ g.path.toList) : beforeHash g.path ≠ f.path := by
  obtain ⟨space, hspace, hpath⟩ := (h.hosted g hg).exists_space
  obtain ⟨other, -, hother⟩ := (h.hosted f hf).exists_space
  rw [hpath] at hash ⊢
  rw [hother]
  exact fun heq => dot_not_mem_beforeHash hstem hspace hash (heq ▸ dot_mem_spaceFile)

theorem includesExactly_iff (hstem : IsSegment plan.stem.toList) (hf : f ∈ schema.files) :
    IncludesExactly schema f ↔ ∀ g ∈ schema.files, f.RefersTo g → '#' ∉ g.path.toList := by
  obtain ⟨hsorted, hmem⟩ := h.includes_spec hf
  constructor
  · rintro ⟨-, hexact⟩ g hg hrefers hash
    have hne := h.beforeHash_ne_path hstem hg hf hash
    obtain ⟨g', hg', hpath, -⟩ := (hexact _).mp ((hmem _).mpr ⟨hne, g, hg, hrefers, rfl⟩)
    exact h.beforeHash_ne_path hstem hg hg' hash hpath.symm
  · refine fun hplain => ⟨hsorted, fun path => ?_⟩
    rw [hmem]
    constructor
    · rintro ⟨hne, g, hg, hrefers, rfl⟩
      rw [beforeHash_eq_self (hplain g hg hrefers)] at hne ⊢
      exact ⟨g, hg, rfl, hne, hrefers⟩
    · rintro ⟨g, hg, rfl, hne, hrefers⟩
      exact ⟨hne, g, hg, hrefers, (beforeHash_eq_self (hplain g hg hrefers)).symm⟩

end Finished

end Convert

/-- A file includes, in ascending order, what stands before the first `#` of each path that it
refers to. These are exactly the paths of the other files that it refers to when no path that it
refers to holds a `#`, and only then. -/
theorem convertDocument_includes_exactly_iff {file : String} {bytes : List UInt8}
    {options : Options} {schema : Schema} (h : convertDocument file bytes options = .ok schema) :
    ∀ f ∈ schema.files,
      (f.imports.map Import.path).Pairwise (· < ·) ∧
      (∀ path, path ∈ f.imports.map Import.path ↔
        path ≠ f.path ∧ ∃ g ∈ schema.files, f.RefersTo g ∧ path = beforeHash g.path) ∧
      (IncludesExactly schema f ↔
        ∀ g ∈ schema.files, f.RefersTo g → '#' ∉ g.path.toList) := by
  obtain ⟨document, plan, answers, w, -, hstem, -, -, hfinished⟩ :=
    Convert.convertDocument_finished h
  intro f hf
  obtain ⟨hsorted, hmem⟩ := hfinished.includes_spec hf
  exact ⟨hsorted, hmem, hfinished.includesExactly_iff (hstem ▸ isSegment_outputStem file) hf⟩

/-- A namespace with a hash, and a reference to a schema of it. -/
def hashDocument : List UInt8 :=
  ("swagger: \"2.0\"\npaths: {}\ndefinitions:\n" ++
    "  Pet:\n    properties:\n      tag:\n        $ref: \"#/definitions/a#b.Tag\"\n" ++
    "  a#b.Tag:\n    properties:\n      name:\n        type: string\n").toUTF8.data.toList

theorem hashDocument_paths : ∃ schema, convertDocument "pets.yaml" hashDocument {} = .ok schema ∧
    schema.files.map (fun f => (f.path, f.imports.map Import.path)) =
      [("pets/a#b.thrift", []), ("pets/pets.thrift", ["pets/a"])] := by
  refine exists_of_toOption ?_
  decide +kernel

theorem hashDocument_includes_exactly_iff :
    ∃ schema, convertDocument "pets.yaml" hashDocument {} = .ok schema ∧
      ∀ f ∈ schema.files,
        (f.imports.map Import.path).Pairwise (· < ·) ∧
        (∀ path, path ∈ f.imports.map Import.path ↔
          path ≠ f.path ∧ ∃ g ∈ schema.files, f.RefersTo g ∧ path = beforeHash g.path) ∧
        (IncludesExactly schema f ↔
          ∀ g ∈ schema.files, f.RefersTo g → '#' ∉ g.path.toList) := by
  obtain ⟨schema, h, -⟩ := hashDocument_paths
  exact ⟨schema, h, convertDocument_includes_exactly_iff h⟩

/-- The main file includes a path that no file of the schema has. -/
theorem hashDocument_not_includesExactly :
    ∃ schema, convertDocument "pets.yaml" hashDocument {} = .ok schema ∧
      ∃ f ∈ schema.files, ¬ IncludesExactly schema f := by
  obtain ⟨schema, h, hfiles⟩ := hashDocument_paths
  obtain ⟨f, hf, hmain⟩ : ∃ f ∈ schema.files,
      (f.path, f.imports.map Import.path) = ("pets/pets.thrift", ["pets/a"]) :=
    List.mem_map.mp (hfiles ▸ by simp)
  refine ⟨schema, h, f, hf, fun hexact => ?_⟩
  obtain ⟨-, himports⟩ := Prod.mk.inj hmain
  obtain ⟨g, hg, hpath, -, -⟩ := (hexact.2 "pets/a").mp (himports ▸ List.mem_singleton_self _)
  have hpaths : g.path ∈ (schema.files.map fun f => (f.path, f.imports.map Import.path)).map
      Prod.fst := by
    rw [List.map_map]
    exact List.mem_map_of_mem hg
  rw [hfiles, hpath] at hpaths
  revert hpaths
  decide

end RestThrift
