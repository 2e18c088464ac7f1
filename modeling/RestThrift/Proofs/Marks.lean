import Mathlib
import RestThrift.Convert.Function

/-!
# Marks of functions and inputs

A function is marked with the method of its operation, and the mark quotes the path. A parameter,
which stands in braces in the path, is quoted with a colon; all other text is kept, also braces that
hold no parameter. A field of a request is marked with the place where its input travels.
-/
namespace RestThrift

namespace Naming

/-! ## Quoted paths -/

/-- The name of a path parameter: some characters, none of them a brace. -/
def IsParameter (name : List Char) : Prop := name ≠ [] ∧ ∀ c ∈ name, c ≠ '{' ∧ c ≠ '}'

/-- A text with a parameter in braces at its front. -/
def BeginsParameter (text : List Char) : Prop :=
  ∃ name rest, IsParameter name ∧ text = '{' :: (name ++ '}' :: rest)

/-- A path and its quoted form: from left to right, a parameter in braces is written with a colon,
and any other character is kept. -/
inductive QuotedPath : List Char → List Char → Prop
  | done : QuotedPath [] []
  | parameter {name rest quoted : List Char} (hname : IsParameter name)
      (hrest : QuotedPath rest quoted) :
      QuotedPath ('{' :: (name ++ '}' :: rest)) (':' :: (name ++ quoted))
  | kept {c : Char} {rest quoted : List Char} (hno : ¬ BeginsParameter (c :: rest))
      (hrest : QuotedPath rest quoted) : QuotedPath (c :: rest) (c :: quoted)

section QuotedPaths

variable {c : Char} {name rest text quoted : List Char}

/-- The test for a parameter looks at what stands before the next brace, and at that brace. -/
theorem opensParameter_iff :
    opensParameter rest = true ↔ ∃ name tail, IsParameter name ∧ rest = name ++ '}' :: tail := by
  constructor
  · intro h
    simp only [opensParameter, Bool.and_eq_true, Bool.not_eq_true', List.isEmpty_eq_false_iff,
      beq_iff_eq] at h
    obtain ⟨hne, hhead⟩ := h
    obtain ⟨tail, htail⟩ := List.head?_eq_some_iff.mp hhead
    refine ⟨_, tail, ⟨hne, fun c hc => by simpa using List.mem_takeWhile_imp hc⟩, ?_⟩
    rw [← htail]
    exact (List.prefix_iff_eq_append.mp (List.takeWhile_prefix _)).symm
  · rintro ⟨name, tail, ⟨hne, hname⟩, rfl⟩
    have htake : (name ++ '}' :: tail).takeWhile (fun c => c ≠ '{' ∧ c ≠ '}') = name := by
      rw [List.takeWhile_append_of_pos fun c hc => by simpa using hname c hc]
      simp
    simp only [opensParameter, htake, List.drop_left, List.head?_cons]
    simpa using hne

/-- A text without braces is kept, inside of a parameter and outside. -/
theorem colonFrom_append (inside : Bool) (h : ∀ c ∈ text, c ≠ '{' ∧ c ≠ '}') :
    colonFrom inside (text ++ rest) = text ++ colonFrom inside rest := by
  induction text with
  | nil => rfl
  | cons c text ih =>
    obtain ⟨⟨hopen, hclose⟩, htext⟩ := List.forall_mem_cons.mp h
    simp only [List.cons_append, colonFrom, hopen, hclose, false_and, if_false, ih htext]

theorem colonFrom_parameter (hname : IsParameter name) :
    colonFrom false ('{' :: (name ++ '}' :: rest)) = ':' :: (name ++ colonFrom false rest) := by
  have hopens : opensParameter (name ++ '}' :: rest) = true :=
    opensParameter_iff.mpr ⟨name, rest, hname, rfl⟩
  rw [colonFrom, if_pos rfl, if_pos hopens, colonFrom_append true hname.2]
  rfl

theorem colonFrom_kept (hno : ¬ BeginsParameter (c :: rest)) :
    colonFrom false (c :: rest) = c :: colonFrom false rest := by
  rw [colonFrom]
  by_cases hc : c = '{'
  · have hopens : opensParameter rest ≠ true := by
      intro hopens
      obtain ⟨name, tail, hname, hrest⟩ := opensParameter_iff.mp hopens
      exact hno ⟨name, tail, hname, by rw [hc, hrest]⟩
    rw [if_pos hc, if_neg hopens]
  · rw [if_neg hc, if_neg (by simp)]

/-- Reading a path from its front gives a quoted form of it. -/
theorem quotedPath_colonFrom (text : List Char) : QuotedPath text (colonFrom false text) := by
  -- A parameter is read as a whole, so the induction is on the length and not on the list.
  induction hlength : text.length using Nat.strong_induction_on generalizing text with
  | _ length ih =>
    cases text with
    | nil => exact .done
    | cons c rest =>
      by_cases hbegins : BeginsParameter (c :: rest)
      · obtain ⟨name, tail, hname, htext⟩ := hbegins
        have hshorter : tail.length < length := by
          rw [← hlength, htext]
          simp only [List.length_cons, List.length_append]
          omega
        rw [htext, colonFrom_parameter hname]
        exact .parameter hname (ih _ hshorter tail rfl)
      · have hshorter : rest.length < length := by
          rw [← hlength, List.length_cons]
          omega
        rw [colonFrom_kept hbegins]
        exact .kept hbegins (ih _ hshorter rest rfl)

/-- A path has one quoted form. -/
theorem quotedPath_iff : QuotedPath text quoted ↔ quoted = colonFrom false text := by
  constructor
  · intro h
    induction h with
    | done => rfl
    | parameter hname _ ih => rw [colonFrom_parameter hname, ih]
    | kept hno _ ih => rw [colonFrom_kept hno, ih]
  · rintro rfl
    exact quotedPath_colonFrom text

theorem quotedPath_colonPath (path : String) :
    QuotedPath path.toList (colonPath path).toList :=
  quotedPath_iff.mpr (by rw [colonPath, String.toList_ofList])

end QuotedPaths

end Naming

/-! ## Marks -/

/-- The mark of a function by the method of its operation. -/
inductive Api.Method.MarkedBy : Api.Method → String → Prop
  | get : MarkedBy .get "api.get"
  | put : MarkedBy .put "api.put"
  | post : MarkedBy .post "api.post"
  | delete : MarkedBy .delete "api.delete"
  | patch : MarkedBy .patch "api.patch"

theorem Api.Method.markedBy (method : Api.Method) : method.MarkedBy ("api." ++ method.name) := by
  cases method <;> constructor

/-- The mark of a field by the place where its input travels. -/
inductive Api.Carrier.MarkedBy : Api.Carrier → String → Prop
  | path : MarkedBy .path "api.path"
  | query : MarkedBy .query "api.query"
  | header : MarkedBy .header "api.header"
  | cookie : MarkedBy .cookie "api.cookie"
  | form : MarkedBy .form "api.form"
  | body : MarkedBy .body "api.body"
  | rawBody : MarkedBy .rawBody "api.raw_body"

theorem Api.Carrier.markedBy (carrier : Api.Carrier) : carrier.MarkedBy carrier.mark := by
  cases carrier <;> constructor

/-- The annotation of a function: the mark of its method, which quotes the path. -/
inductive Annotation.Routes (path : String) (method : Api.Method) : Annotation → Prop
  | quoted {mark text : String} (hmark : method.MarkedBy mark)
      (htext : Naming.QuotedPath path.toList text.toList) : Routes path method (.quoted mark text)

theorem Annotation.routes_quoted (path : String) (method : Api.Method) :
    Annotation.Routes path method (.quoted ("api." ++ method.name) (Naming.colonPath path)) :=
  .quoted method.markedBy (Naming.quotedPath_colonPath path)

end RestThrift
