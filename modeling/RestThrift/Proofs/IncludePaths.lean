import Mathlib
import RestThrift.Proofs.Includes
import RestThrift.Proofs.Splitting

/-!
# Paths behind include literals

An include is written as the last segment of its path between quotes, and a file of another
namespace is named by that namespace. Read back, a literal stands for a file beside the including
one. Both conventions meet where no namespace makes a path deeper, and where nothing in a path is
cut off or read as an escape.
-/
namespace RestThrift

open Text

/-! ## Qualified names -/

section Qualified

variable {sep : Char} {a b : List Char}

/-- A join that occurs nowhere else can be found. -/
theorem append_cons_inj_of_not_mem {m n : List Char} (ha : sep ∉ a) (hm : sep ∉ m)
    (h : a ++ sep :: m = b ++ sep :: n) : a = b ∧ m = n := by
  have hcount := congrArg (List.count sep) h
  simp only [List.count_append, List.count_cons_self, List.count_eq_zero.mpr ha,
    List.count_eq_zero.mpr hm] at hcount
  exact append_cons_inj hm (List.count_eq_zero.mp (by omega)) h

theorem qualified_inj {qualifier space name short : String} (hspace : '.' ∉ space.toList)
    (hshort : '.' ∉ short.toList) (h : space ++ "." ++ short = qualifier ++ "." ++ name) :
    space = qualifier ∧ short = name := by
  have hlist : space.toList ++ '.' :: short.toList = qualifier.toList ++ '.' :: name.toList := by
    simpa using congrArg String.toList h
  obtain ⟨hq, hn⟩ := append_cons_inj_of_not_mem hspace hshort hlist
  exact ⟨String.toList_inj.mp hq, String.toList_inj.mp hn⟩

theorem fqnOf_cancel {path target name : String} (h : fqnOf target name = fqnOf path name) :
    target = path := by
  rw [fqnOf, fqnOf, String.append_assoc, String.append_assoc] at h
  exact String.append_left_inj _ |>.mp h

end Qualified

/-! ## Resolved includes -/

section Resolving

variable {path target : String} {a b : List Char}

theorem toList_resolveInclude (hpath : path.toList = a ++ '/' :: b) (hb : '/' ∉ b)
    (htarget : '/' ∉ target.toList) : (Path.resolveInclude path target).toList =
      join ['/'] (Path.enter (splitAt '/' a) target.toList) := by
  rw [Path.resolveInclude, String.toList_ofList, Path.directory, hpath, splitLast_append_cons hb,
    splitAt_of_not_mem htarget]
  rfl

/-- A file name stands for the file beside the including one. -/
theorem toList_resolveInclude_of_mem (hpath : path.toList = a ++ '/' :: b) (hb : '/' ∉ b)
    (htarget : '/' ∉ target.toList) {c : Char} (hc : c ∈ target.toList) (hdot : c ≠ '.') :
    (Path.resolveInclude path target).toList = a ++ '/' :: target.toList := by
  have hblank : ¬(target.toList = [] ∨ target.toList = ['.']) := by
    rintro (heq | heq) <;> rw [heq] at hc <;> simp_all
  have hparent : target.toList ≠ ['.', '.'] := fun heq => by
    rw [heq] at hc
    simp_all
  rw [toList_resolveInclude hpath hb htarget, Path.enter, if_neg hblank, if_neg hparent,
    join_append_singleton (splitAt_ne_nil _ _), join_splitAt]

/-- A resolved path with a dot is that of a file beside the including one, since directories have no
dots. -/
theorem toList_resolveInclude_of_dot (hpath : path.toList = a ++ '/' :: b) (hb : '/' ∉ b)
    (htarget : '/' ∉ target.toList) (ha : '.' ∉ a)
    (hdot : '.' ∈ (Path.resolveInclude path target).toList) :
    (Path.resolveInclude path target).toList = a ++ '/' :: target.toList := by
  have hnone : ∀ pieces ⊆ splitAt '/' a, '.' ∉ join ['/'] pieces := by
    intro pieces hpieces hmem
    rcases mem_join hmem with heq | ⟨piece, hpiece, hmem⟩
    · exact absurd heq (by decide)
    · exact ha (mem_of_mem_splitAt (hpieces hpiece) hmem)
  rw [toList_resolveInclude hpath hb htarget, Path.enter] at hdot ⊢
  split at hdot
  · exact absurd hdot (hnone _ (List.Subset.refl _))
  · split at hdot
    · exact absurd hdot (hnone _ (List.dropLast_subset _))
    · rename_i hblank hparent
      rw [if_neg hblank, if_neg hparent, join_append_singleton (splitAt_ne_nil _ _), join_splitAt]

end Resolving

/-! ## Include literals -/

/-- What may stand between the quotes of a literal: a quote only behind a backslash, and no lone
backslash at the end. -/
inductive IsLiteralBody : List Char → Prop
  | nil : IsLiteralBody []
  | plain {c : Char} {rest : List Char} (hquote : c ≠ '"') (hbackslash : c ≠ '\\')
      (h : IsLiteralBody rest) : IsLiteralBody (c :: rest)
  | escape {c : Char} {rest : List Char} (h : IsLiteralBody rest) :
      IsLiteralBody ('\\' :: c :: rest)

/-- A text between quotes in which no other quote ends it. -/
def IsQuotedLiteral (literal : String) : Prop :=
  ∃ body, literal.toList = '"' :: (body ++ ['"']) ∧ IsLiteralBody body

section Literals

variable {body : List Char} {c : Char} {path : String} {a b : List Char}

theorem isLiteralBody_iff (h : '\\' ∉ body) : IsLiteralBody body ↔ '"' ∉ body := by
  constructor
  · intro hbody hquote
    induction hbody with
    | nil => cases hquote
    | plain hne _ _ ih =>
      rcases List.mem_cons.mp hquote with heq | hquote
      · exact hne heq.symm
      · exact ih (fun hmem => h (List.mem_cons_of_mem _ hmem)) hquote
    | escape _ _ => exact h List.mem_cons_self
  · intro hquote
    induction body with
    | nil => exact .nil
    | cons c rest ih =>
      obtain ⟨hne, hrest⟩ := not_or.mp (List.mem_cons.not.mp h)
      obtain ⟨hne', hquote⟩ := not_or.mp (List.mem_cons.not.mp hquote)
      exact .plain (Ne.symm hne') (Ne.symm hne) (ih hrest hquote)

theorem unquoteBody_of_not_mem (h : '\\' ∉ body) : unquoteBody body = body := by
  induction body with
  | nil => rfl
  | cons c rest ih =>
    obtain ⟨hne, hrest⟩ := not_or.mp (List.mem_cons.not.mp h)
    rw [unquoteBody, ih hrest]
    · exact fun heq _ => hne heq.symm
    · exact fun _ _ heq _ => hne heq.symm

/-- Reading a literal makes up no character that is not a control character. -/
theorem mem_of_mem_unquoteBody (hc : c ∈ unquoteBody body) (hcontrol : c ∉ ['\n', '\r', '\t']) :
    c ∈ body := by
  fun_induction unquoteBody body with
  | case1 => exact hc
  | case2 => exact hc
  | case3 d rest ih =>
    rcases List.mem_cons.mp hc with rfl | hc
    · rw [unescape] at hcontrol ⊢
      split_ifs at hcontrol ⊢ <;> simp_all
    · exact List.mem_cons_of_mem _ (List.mem_cons_of_mem _ (ih hc))
  | case4 d rest _ _ ih =>
    rcases List.mem_cons.mp hc with rfl | hc
    · exact List.mem_cons_self
    · exact List.mem_cons_of_mem _ (ih hc)

/-- The content of a text between quotes. -/
theorem stringValue_quotes (body : List Char) :
    (Literal.text (String.ofList ('"' :: (body ++ ['"'])))).stringValue =
      .ok (String.ofList (unquoteBody body)) := by
  rw [Literal.stringValue, String.toList_ofList]
  simp [unquote?, literalBody?]

namespace Convert

/-- An include is written as what follows the last slash of its path. -/
theorem includeLiteral_eq (path : String) : ∃ body, '/' ∉ body ∧ body ⊆ path.toList ∧
    includeLiteral path = String.ofList ('"' :: (body ++ ['"'])) := by
  by_cases hslash : '/' ∈ path.toList
  · obtain ⟨a, b, hpath, hb⟩ := exists_last_split hslash
    refine ⟨b, hb, ?_, ?_⟩
    · rw [hpath]
      exact List.Subset.trans (List.subset_cons_self _ _) (List.subset_append_right _ _)
    · rw [includeLiteral, hpath, splitLast_append_cons hb]
  · refine ⟨path.toList, hslash, List.Subset.refl _, ?_⟩
    rw [includeLiteral, splitLast_of_not_mem hslash]

theorem includeLiteral_of_split (hpath : path.toList = a ++ '/' :: b) (hb : '/' ∉ b) :
    includeLiteral path = String.ofList ('"' :: (b ++ ['"'])) := by
  rw [includeLiteral, hpath, splitLast_append_cons hb]

end Convert

theorem isQuotedLiteral_iff :
    IsQuotedLiteral (String.ofList ('"' :: (body ++ ['"']))) ↔ IsLiteralBody body := by
  rw [IsQuotedLiteral, String.toList_ofList]
  constructor
  · rintro ⟨other, heq, hother⟩
    obtain rfl := List.append_cancel_right (List.cons.inj heq).2
    exact hother
  · exact fun hbody => ⟨body, rfl, hbody⟩

end Literals

/-! ## Paths of output files -/

/-- A path with one slash that is not cut at a `#`, and whose last segment is the same between
quotes. -/
structure IsPlainPath (path : String) : Prop where
  flat : path.toList.count '/' = 1
  hash : '#' ∉ path.toList
  backslash : '\\' ∉ path.toList
  quote : '"' ∉ Path.lastSegment path.toList

section Paths

variable {stem space : String} {a b : List Char} {path : String}

theorem lastSegment_append_cons (hb : ∀ c ∈ b, Path.isSeparator c = false) :
    Path.lastSegment (a ++ '/' :: b) = b := by
  have hreverse : (a ++ '/' :: b).reverse = b.reverse ++ '/' :: a.reverse := by simp
  have hpos : ∀ c ∈ b.reverse, (!Path.isSeparator c) = true := by
    intro c hc
    rw [hb c (List.mem_reverse.mp hc), Bool.not_false]
  have hslash : Path.isSeparator '/' = true := by decide
  rw [Path.lastSegment, hreverse, List.takeWhile_append_of_pos hpos, List.takeWhile_cons, hslash]
  simp

/-- Without backslashes an include literal is well-formed when no quote is in the last segment. -/
theorem isQuotedLiteral_includeLiteral_iff (hslash : '/' ∈ path.toList)
    (hbackslash : '\\' ∉ path.toList) :
    IsQuotedLiteral (Convert.includeLiteral path) ↔ '"' ∉ Path.lastSegment path.toList := by
  obtain ⟨a, b, hpath, hb⟩ := exists_last_split hslash
  have hbackslash' : '\\' ∉ b := fun hmem =>
    hbackslash (hpath ▸ List.mem_append_right _ (List.mem_cons_of_mem _ hmem))
  have hsep : ∀ c ∈ b, Path.isSeparator c = false := by
    intro c hc
    simp only [Path.isSeparator, Bool.or_eq_false_iff, decide_eq_false_iff_not]
    exact ⟨fun heq => hb (heq ▸ hc), fun heq => hbackslash' (heq ▸ hc)⟩
  rw [Convert.includeLiteral_of_split hpath hb, isQuotedLiteral_iff, isLiteralBody_iff hbackslash',
    hpath, lastSegment_append_cons hsep]

theorem count_slash_iff (hpath : path.toList = a ++ '/' :: b) (ha : '/' ∉ a) :
    path.toList.count '/' = 1 ↔ '/' ∉ b := by
  rw [hpath, List.count_append, List.count_cons_self, List.count_eq_zero.mpr ha,
    ← List.count_eq_zero]
  omega

namespace Convert

/-- The stem of an output file is its namespace where the path gets no deeper by it. -/
theorem stem_spaceFile_iff : Path.stem (spaceFile stem space) = spaceStem stem space ↔
    '/' ∉ (spaceStem stem space).toList ∧ '\\' ∉ (spaceStem stem space).toList := by
  constructor
  · intro heq
    have hsep : ∀ c ∈ (spaceStem stem space).toList, Path.isSeparator c = false := by
      rw [← heq, Path.stem, String.toList_ofList]
      exact fun c => not_isSeparator_of_mem_stemChars
    exact ⟨fun h => absurd (hsep _ h) (by decide), fun h => absurd (hsep _ h) (by decide)⟩
  · rintro ⟨hslash, hbackslash⟩
    have hextension : ".thrift".toList.all (fun c => !Path.isSeparator c) = true := by decide
    have hsep : ∀ c ∈ (spaceStem stem space).toList ++ ".thrift".toList,
        Path.isSeparator c = false := by
      refine List.forall_mem_append.mpr
        ⟨fun c hc => ?_, fun c hc => by simpa using List.all_eq_true.mp hextension c hc⟩
      simp only [Path.isSeparator, Bool.or_eq_false_iff, decide_eq_false_iff_not]
      exact ⟨fun heq => hslash (heq ▸ hc), fun heq => hbackslash (heq ▸ hc)⟩
    have hdot : ".thrift".toList = '.' :: "thrift".toList := by decide
    rw [Path.stem, Path.stemChars, toList_spaceFile, lastSegment_append_cons hsep,
      Path.dropExtension, hdot, splitLast_append_cons (by decide), String.ofList_toList]

/-- The directory of an output file has no dots. -/
theorem spaceFile_split (hstem : IsSegment stem.toList) (hspace : '.' ∉ space.toList) :
    ∃ a b, (spaceFile stem space).toList = a ++ '/' :: b ∧ '/' ∉ b ∧ '.' ∉ a := by
  have hslash : '/' ∈ stem.toList ++ '/' :: (spaceStem stem space).toList := by simp
  obtain ⟨a, b, hsplit, hb⟩ := exists_last_split hslash
  have hdot : '.' ∉ stem.toList ++ '/' :: (spaceStem stem space).toList := by
    intro h
    rcases List.mem_append.mp h with h | h
    · exact (hstem _ h).1 rfl
    · exact dot_not_mem_spaceStem hstem hspace ((List.mem_cons.mp h).resolve_left (by decide))
  refine ⟨a, b ++ ".thrift".toList, ?_, fun h => ?_, fun h => ?_⟩
  · rw [toList_spaceFile, ← List.cons_append, ← List.append_assoc, hsplit]
    simp
  · exact (List.mem_append.mp h).elim hb (by decide)
  · exact hdot (hsplit ▸ List.mem_append_left _ h)

end Convert

end Paths

/-! ## Names of a file -/

/-- Qualified names of a file resolve through its includes: the content of a literal stands for the
path of the name's definition, and the qualifier is the stem of that path. Every include literal is
well-formed. -/
structure IncludesResolve (f : File) : Prop where
  resolves : ∀ t ∈ Convert.mentioned f.definitions, ∀ qualifier name target : String,
    .named (qualifier ++ "." ++ name) (some (fqnOf target name)) ∈ t.walk →
      ∃ i ∈ f.imports, ∃ content, (Literal.text i.written).stringValue = .ok content ∧
        Path.resolveInclude f.path content = target ∧ Path.stem target = qualifier
  quoted : ∀ i ∈ f.imports, IsQuotedLiteral i.written

namespace Convert

namespace Finished

variable {plan : Plan} {stated : Api.Schema → Prop} {service : String} {answers : List Answer}
  {w : Workspace} {schema : Schema} {f g : File} {i : Import} {space content : String}
  (h : Finished plan stated service answers w schema)

include h

theorem written_eq (hf : f ∈ schema.files) (hi : i ∈ f.imports) :
    i.written = includeLiteral i.path := by
  obtain ⟨d, -, himports⟩ := h.imports f hf
  rw [himports] at hi
  obtain ⟨target, -, rfl⟩ := List.mem_map.mp hi
  rfl

/-- What a file refers to outside of itself is written behind the name of a namespace. -/
theorem exists_qualified (hf : f ∈ schema.files) (hg : g ∈ schema.files) (hne : g.path ≠ f.path)
    (hrefers : f.RefersTo g) : ∃ space : String, g.path = spaceFile plan.stem space ∧
      ∃ t ∈ mentioned f.definitions, ∃ name, .named (spaceStem plan.stem space ++ "." ++ name)
        (some (fqnOf g.path name)) ∈ t.walk := by
  obtain ⟨t, ht, written, d, hd, hn⟩ := hrefers
  obtain ⟨g', hg', d', hd', hfqn, hcases⟩ := h.exists_target hf ht hn
  obtain ⟨hname, hplain⟩ := h.fqn_eq hg hd
  obtain ⟨hname', hplain'⟩ := h.fqn_eq hg' hd'
  rw [hname, hname', fqnOf_inj hplain hplain'] at hfqn
  rcases hcases with ⟨hown, -⟩ | ⟨-, space, -, hpath, rfl⟩
  · exact absurd (hfqn.1.trans hown) hne
  · rw [hname, hfqn.1, hfqn.2] at hn
    rw [hfqn.1]
    exact ⟨space, hpath, t, ht, d'.name, hn⟩

/-- What an include literal says is a part of the path that it was made of. -/
theorem content_of_include (hf : f ∈ schema.files) (hi : i ∈ f.imports)
    (hcontent : (Literal.text i.written).stringValue = .ok content) :
    '/' ∉ content.toList ∧
      ∀ c ∈ content.toList, c ∉ ['\n', '\r', '\t'] → c ∈ i.path.toList := by
  obtain ⟨body, hslash, hbody, hwritten⟩ := includeLiteral_eq i.path
  rw [h.written_eq hf hi, hwritten, stringValue_quotes] at hcontent
  obtain rfl := Except.ok.inj hcontent
  rw [String.toList_ofList]
  exact ⟨fun hmem => hslash (mem_of_mem_unquoteBody hmem (by decide)),
    fun c hc hcontrol => hbody (mem_of_mem_unquoteBody hc hcontrol)⟩

/-- A path that is included and has a dot was not cut at a `#`. -/
theorem hash_not_mem_of_include (hstem : IsSegment plan.stem.toList) (hf : f ∈ schema.files)
    (hi : i ∈ f.imports) (hdot : '.' ∈ i.path.toList) :
    '#' ∉ plan.stem.toList ∧ '#' ∉ i.path.toList := by
  obtain ⟨-, hincludes⟩ := h.includes_spec hf
  obtain ⟨-, g, hg, -, hcut⟩ := (hincludes i.path).mp (List.mem_map_of_mem hi)
  obtain ⟨space, hspace, hpath⟩ := (h.hosted g hg).exists_space
  have hash : '#' ∉ (spaceFile plan.stem space).toList := by
    intro hash
    rw [hcut, hpath] at hdot
    exact dot_not_mem_beforeHash hstem hspace hash hdot
  refine ⟨fun hmem => hash ?_, ?_⟩
  · rw [toList_spaceFile]
    exact List.mem_append_left _ hmem
  · rw [hcut]
    exact hash_not_mem_beforeHash _

/-- A namespace's file that is read from an include lies beside the including file, and the literal
says the rest of its path. -/
theorem beside_of_resolved (hstem : IsSegment plan.stem.toList) (hf : f ∈ schema.files)
    (hcontent : '/' ∉ content.toList) (hspace : '/' ∉ (spaceStem plan.stem space).toList)
    (hresolved : Path.resolveInclude f.path content = spaceFile plan.stem space) :
    f.path.toList.count '/' = 1 ∧
      content.toList = (spaceStem plan.stem space).toList ++ ".thrift".toList := by
  obtain ⟨own, hown, hfpath⟩ := (h.hosted f hf).exists_space
  obtain ⟨a, b, hsplit, hb, ha⟩ := spaceFile_split hstem hown
  rw [← hfpath] at hsplit
  have hbeside := toList_resolveInclude_of_dot hsplit hb hcontent ha
    (by rw [hresolved]; exact dot_mem_spaceFile)
  rw [hresolved, toList_spaceFile] at hbeside
  have htail : '/' ∉ (spaceStem plan.stem space).toList ++ ".thrift".toList :=
    fun hmem => (List.mem_append.mp hmem).elim hspace (by decide)
  obtain ⟨rfl, htarget⟩ := append_cons_inj htail hcontent hbeside
  exact ⟨(count_slash_iff hsplit fun hmem => (hstem _ hmem).2.1 rfl).mpr hb, htarget.symm⟩

/-- A file that an include literal stands for, under the name of its namespace, lies beside the
including file and has no character that a name or a literal reads otherwise. -/
theorem flat_of_resolved (hstem : IsSegment plan.stem.toList) (hf : f ∈ schema.files)
    (hpath : g.path = spaceFile plan.stem space) (hi : i ∈ f.imports)
    (hcontent : (Literal.text i.written).stringValue = .ok content)
    (hresolved : Path.resolveInclude f.path content = g.path)
    (hqualifier : Path.stem g.path = spaceStem plan.stem space) :
    f.path.toList.count '/' = 1 ∧ g.path.toList.count '/' = 1 ∧ '#' ∉ g.path.toList ∧
      '\\' ∉ g.path.toList := by
  rw [hpath] at hresolved hqualifier
  obtain ⟨hslash, hbackslash⟩ := stem_spaceFile_iff.mp hqualifier
  obtain ⟨hcontentSlash, hread⟩ := h.content_of_include hf hi hcontent
  obtain ⟨hflat, htarget⟩ := h.beside_of_resolved hstem hf hcontentSlash hslash hresolved
  have hdot : '.' ∈ content.toList := by
    rw [htarget]
    simp
  obtain ⟨hstemHash, hash⟩ := h.hash_not_mem_of_include hstem hf hi (hread _ hdot (by decide))
  have hcontentHash : '#' ∉ content.toList := fun hmem => hash (hread _ hmem (by decide))
  have hcontentBackslash : '\\' ∉ content.toList := by
    rw [htarget]
    exact fun hmem => (List.mem_append.mp hmem).elim hbackslash (by decide)
  have hstemSlash : '/' ∉ plan.stem.toList := fun hmem => (hstem _ hmem).2.1 rfl
  have hstemBackslash : '\\' ∉ plan.stem.toList := fun hmem => (hstem _ hmem).2.2 rfl
  have hsplit : g.path.toList = plan.stem.toList ++ '/' :: content.toList := by
    rw [hpath, toList_spaceFile, htarget]
  refine ⟨hflat, (count_slash_iff hsplit hstemSlash).mpr hcontentSlash, ?_, ?_⟩
  · simp [hsplit, hstemHash, hcontentHash]
  · simp [hsplit, hstemBackslash, hcontentBackslash]

/-- A plain path that is included is found again under the name of its namespace. -/
theorem resolves_of_plain (hstem : IsSegment plan.stem.toList) (hf : f ∈ schema.files)
    (hpath : g.path = spaceFile plan.stem space) (hi : i ∈ f.imports) (hig : i.path = g.path)
    (hflat : f.path.toList.count '/' = 1) (hplain : IsPlainPath g.path) :
    ∃ content, (Literal.text i.written).stringValue = .ok content ∧
      Path.resolveInclude f.path content = g.path ∧
      Path.stem g.path = spaceStem plan.stem space := by
  obtain ⟨own, -, hfpath⟩ := (h.hosted f hf).exists_space
  have hstemSlash : '/' ∉ plan.stem.toList := fun hmem => (hstem _ hmem).2.1 rfl
  have hsplit : g.path.toList = _ := hpath ▸ toList_spaceFile
  have hfsplit : f.path.toList = _ := hfpath ▸ toList_spaceFile
  let tail := (spaceStem plan.stem space).toList ++ ".thrift".toList
  have hslash : '/' ∉ tail := (count_slash_iff hsplit hstemSlash).mp hplain.flat
  have hbackslash : '\\' ∉ tail := fun hmem => hplain.backslash
    (hsplit ▸ List.mem_append_right _ (List.mem_cons_of_mem _ hmem))
  refine ⟨String.ofList tail, ?_, ?_, ?_⟩
  · rw [h.written_eq hf hi, hig, includeLiteral_of_split hsplit hslash, stringValue_quotes,
      unquoteBody_of_not_mem hbackslash]
  · have hcontent : '/' ∉ (String.ofList tail).toList := by rwa [String.toList_ofList]
    have hletter : 't' ∈ (String.ofList tail).toList := by simp [tail]
    have hbeside := toList_resolveInclude_of_mem hfsplit
      ((count_slash_iff hfsplit hstemSlash).mp hflat) hcontent hletter (by decide)
    rw [String.toList_ofList, ← hsplit] at hbeside
    exact String.toList_inj.mp hbeside
  · rw [hpath]
    exact stem_spaceFile_iff.mpr ⟨fun hmem => hslash (List.mem_append_left _ hmem),
      fun hmem => hbackslash (List.mem_append_left _ hmem)⟩

/-- What a file refers to outside of itself is included, up to the first `#` of its path. -/
theorem exists_include (hf : f ∈ schema.files) (hg : g ∈ schema.files) (hrefers : f.RefersTo g)
    (hne : beforeHash g.path ≠ f.path) : ∃ i ∈ f.imports, i.path = beforeHash g.path := by
  obtain ⟨-, hincludes⟩ := h.includes_spec hf
  exact List.mem_map.mp ((hincludes _).mpr ⟨hne, g, hg, hrefers, rfl⟩)

/-- Where names resolve, the paths that are referred to are plain. -/
theorem plain_of_includesResolve (hstem : IsSegment plan.stem.toList) (hf : f ∈ schema.files)
    (hresolve : IncludesResolve f) (hg : g ∈ schema.files) (hrefers : f.RefersTo g)
    (hne : g.path ≠ f.path) : f.path.toList.count '/' = 1 ∧ IsPlainPath g.path := by
  obtain ⟨space, hpath, t, ht, name, hn⟩ := h.exists_qualified hf hg hne hrefers
  obtain ⟨i, hi, content, hcontent, hresolved, hqualifier⟩ :=
    hresolve.resolves t ht _ name g.path hn
  obtain ⟨hflat, hgflat, hash, hbackslash⟩ :=
    h.flat_of_resolved hstem hf hpath hi hcontent hresolved hqualifier
  refine ⟨hflat, hgflat, hash, hbackslash, ?_⟩
  have hself := beforeHash_eq_self hash
  obtain ⟨own, hown, hown'⟩ := h.exists_include hf hg hrefers (hself.symm ▸ hne)
  have hslash : '/' ∈ g.path.toList := List.count_pos_iff.mp (by omega)
  rw [← isQuotedLiteral_includeLiteral_iff hslash hbackslash, ← hself, ← hown',
    ← h.written_eq hf hown]
  exact hresolve.quoted own hown

/-- Where the paths that are referred to are plain, qualified names resolve. -/
theorem resolves_of_qualified (hstem : IsSegment plan.stem.toList) (hf : f ∈ schema.files)
    (hothers : ∀ g ∈ schema.files, f.RefersTo g → g.path ≠ f.path →
      f.path.toList.count '/' = 1 ∧ IsPlainPath g.path) {t : TypeRef}
    (ht : t ∈ mentioned f.definitions) {qualifier name target : String}
    (hn : .named (qualifier ++ "." ++ name) (some (fqnOf target name)) ∈ t.walk) :
    ∃ i ∈ f.imports, ∃ content, (Literal.text i.written).stringValue = .ok content ∧
      Path.resolveInclude f.path content = target ∧ Path.stem target = qualifier := by
  obtain ⟨g, hg, d, hd, hfqn, hcases⟩ := h.exists_target hf ht hn
  obtain ⟨hname, hplain⟩ := h.fqn_eq hg hd
  rcases hcases with ⟨-, hwritten⟩ | ⟨hne, space, hspace, hpath, hwritten⟩
  · have hdot : '.' ∈ d.name.toList := by
      rw [← hwritten]
      simp
    exact absurd rfl (hplain _ hdot).2
  · obtain ⟨rfl, rfl⟩ := qualified_inj (dot_not_mem_spaceStem hstem hspace)
      (fun hdot => (hplain _ hdot).2 rfl) hwritten.symm
    rw [hname] at hfqn
    obtain rfl := fqnOf_cancel hfqn
    have hrefers : f.RefersTo g := ⟨t, ht, _, d, hd, hname ▸ hn⟩
    obtain ⟨hflat, hgplain⟩ := hothers g hg hrefers hne
    have hself := beforeHash_eq_self hgplain.hash
    obtain ⟨i, hi, hig⟩ := h.exists_include hf hg hrefers (hself.symm ▸ hne)
    exact ⟨i, hi, h.resolves_of_plain hstem hf hpath hi (hig.trans hself) hflat hgplain⟩

/-- Where the paths that are referred to are plain, or fit for a literal, literals are
well-formed. -/
theorem quoted_of_plain (hf : f ∈ schema.files)
    (hothers : ∀ g ∈ schema.files, f.RefersTo g → g.path ≠ f.path → IsPlainPath g.path)
    (hself : f.RefersTo f → '#' ∈ f.path.toList →
      IsQuotedLiteral (includeLiteral (beforeHash f.path))) (hi : i ∈ f.imports) :
    IsQuotedLiteral i.written := by
  obtain ⟨-, hincludes⟩ := h.includes_spec hf
  obtain ⟨hne, g, hg, hrefers, hcut⟩ := (hincludes i.path).mp (List.mem_map_of_mem hi)
  rw [h.written_eq hf hi, hcut]
  by_cases hpath : g.path = f.path
  · obtain rfl := List.inj_on_of_nodup_map h.paths hg hf hpath
    refine hself hrefers (by_contra fun hash => hne ?_)
    rw [hcut, beforeHash_eq_self hash]
  · have hplain := hothers g hg hrefers hpath
    have hslash : '/' ∈ g.path.toList := List.count_pos_iff.mp (by rw [hplain.flat]; omega)
    rw [beforeHash_eq_self hplain.hash, isQuotedLiteral_includeLiteral_iff hslash hplain.backslash]
    exact hplain.quote

theorem includesResolve_iff (hstem : IsSegment plan.stem.toList) (hf : f ∈ schema.files) :
    IncludesResolve f ↔
      (∀ g ∈ schema.files, f.RefersTo g → g.path ≠ f.path →
        f.path.toList.count '/' = 1 ∧ IsPlainPath g.path) ∧
      (f.RefersTo f → '#' ∈ f.path.toList →
        IsQuotedLiteral (includeLiteral (beforeHash f.path))) := by
  constructor
  · refine fun hresolve => ⟨fun g hg => h.plain_of_includesResolve hstem hf hresolve hg,
      fun hself hash => ?_⟩
    obtain ⟨i, hi, hpath⟩ := h.exists_include hf hf hself (h.beforeHash_ne_path hstem hf hf hash)
    rw [← hpath, ← h.written_eq hf hi]
    exact hresolve.quoted i hi
  · rintro ⟨hothers, hself⟩
    exact ⟨fun t ht qualifier name target hn => h.resolves_of_qualified hstem hf hothers ht hn,
      fun i hi => h.quoted_of_plain hf (fun g hg hrefers hne => (hothers g hg hrefers hne).2)
        hself hi⟩

end Finished

end Convert

/-- The qualified names of a file resolve through its includes, and the include literals are
well-formed, when every path outside of it that it refers to is plain and its own path has one
slash, too, and only then. Where a file refers to itself and has a `#` in its path, what stands
before that is included, and has to be fit for a literal. -/
theorem convertDocument_includes_resolve_iff {file : String} {bytes : List UInt8}
    {options : Options} {schema : Schema} (h : convertDocument file bytes options = .ok schema) :
    ∀ f ∈ schema.files, IncludesResolve f ↔
      (∀ g ∈ schema.files, f.RefersTo g → g.path ≠ f.path →
        f.path.toList.count '/' = 1 ∧ IsPlainPath g.path) ∧
      (f.RefersTo f → '#' ∈ f.path.toList →
        IsQuotedLiteral (Convert.includeLiteral (beforeHash f.path))) := by
  obtain ⟨document, plan, answers, w, -, hstem, -, -, hfinished⟩ :=
    Convert.convertDocument_finished h
  exact fun f hf => hfinished.includesResolve_iff (hstem ▸ isSegment_outputStem file) hf

/-- A namespace with a slash, and a reference to a schema of it. -/
def nestedDocument : List UInt8 :=
  ("swagger: \"2.0\"\npaths: {}\ndefinitions:\n" ++
    "  Pet:\n    properties:\n      tag:\n        $ref: \"#/definitions/a~1b.Tag\"\n" ++
    "  a/b.Tag:\n    properties:\n      name:\n        type: string\n").toUTF8.data.toList

theorem nestedDocument_includes :
    ∃ schema, convertDocument "pets.yaml" nestedDocument {} = .ok schema ∧
      schema.files.map (fun f => (f.path, f.imports.map Import.written,
        Convert.mentioned f.definitions)) =
        [("pets/a/b.thrift", [], [.string]),
          ("pets/pets.thrift", ["\"b.thrift\""],
            [.named "a/b.Tag" (some "pets/a/b.thrift#Tag")])] := by
  refine exists_of_toOption ?_
  decide +kernel

theorem nestedDocument_includes_resolve_iff :
    ∃ schema, convertDocument "pets.yaml" nestedDocument {} = .ok schema ∧
      ∀ f ∈ schema.files, IncludesResolve f ↔
        (∀ g ∈ schema.files, f.RefersTo g → g.path ≠ f.path →
          f.path.toList.count '/' = 1 ∧ IsPlainPath g.path) ∧
        (f.RefersTo f → '#' ∈ f.path.toList →
          IsQuotedLiteral (Convert.includeLiteral (beforeHash f.path))) := by
  obtain ⟨schema, h, -⟩ := nestedDocument_includes
  exact ⟨schema, h, convertDocument_includes_resolve_iff h⟩

/-- The only include stands for a file beside the main file, and not for that of the namespace. -/
theorem nestedDocument_not_includesResolve :
    ∃ schema, convertDocument "pets.yaml" nestedDocument {} = .ok schema ∧
      ∃ f ∈ schema.files, ¬ IncludesResolve f := by
  obtain ⟨schema, h, hfiles⟩ := nestedDocument_includes
  obtain ⟨f, hf, hmain⟩ : ∃ f ∈ schema.files,
      (f.path, f.imports.map Import.written, Convert.mentioned f.definitions) =
        ("pets/pets.thrift", ["\"b.thrift\""],
          [.named "a/b.Tag" (some "pets/a/b.thrift#Tag")]) :=
    List.mem_map.mp (hfiles ▸ by simp)
  simp only [Prod.mk.injEq] at hmain
  obtain ⟨hpath, hwritten, hmentioned⟩ := hmain
  refine ⟨schema, h, f, hf, fun hresolve => ?_⟩
  obtain ⟨i, hi, content, hcontent, hresolved, -⟩ := hresolve.resolves
    (.named "a/b.Tag" (some "pets/a/b.thrift#Tag")) (hmentioned ▸ List.mem_singleton_self _)
    "a/b" "Tag" "pets/a/b.thrift" (by simp [TypeRef.walk, fqnOf])
  have hliteral : i.written = String.ofList ('"' :: ("b.thrift".toList ++ ['"'])) := by
    have hmem : i.written ∈ f.imports.map Import.written := List.mem_map_of_mem hi
    rw [hwritten] at hmem
    rw [List.mem_singleton.mp hmem]
    decide
  rw [hliteral, stringValue_quotes] at hcontent
  obtain rfl := Except.ok.inj hcontent
  rw [hpath] at hresolved
  revert hresolved
  decide +kernel

end RestThrift
