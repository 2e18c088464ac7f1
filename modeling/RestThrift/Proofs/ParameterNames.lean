import Mathlib
import RestThrift.Proofs.Printing
import RestThrift.Proofs.Quoting

/-!
# Names of printed parameters

A parameter that bears the stem of an include is printed with an underscore behind its name. The
name that comes out is looked up neither among the other includes nor among the other parameters
of the list, so that it may be taken there.
-/
namespace RestThrift

open RestThrift.Convert (bind_eq_ok)

/-! ## Names of one list -/

/-- The names under which the fields of a list are printed. -/
def printedNames (stems : List String) (fields : List Field) : List String :=
  fields.map fun field => parameterName stems field.name

section Names

variable {stems : List String} {fields : List Field} {a b name : String}

theorem parameterName_of_mem (h : name ∈ stems) : parameterName stems name = name ++ "_" := by
  rw [parameterName, if_pos (by simpa using h)]

theorem parameterName_of_not_mem (h : name ∉ stems) : parameterName stems name = name := by
  rw [parameterName, if_neg (by simpa using h)]

/-- A printed name is a stem exactly if it is the name of a stem and an underscore behind it. -/
theorem parameterName_mem_iff : parameterName stems name ∈ stems ↔
    name ∈ stems ∧ name ++ "_" ∈ stems := by
  by_cases h : name ∈ stems
  · rw [parameterName_of_mem h, and_iff_right h]
  · rw [parameterName_of_not_mem h]
    exact iff_of_false h fun hboth => h hboth.1

/-- Two names come out alike if one of them is the stem of an include and the other one is what it
is replaced by. -/
theorem parameterName_eq_iff : parameterName stems a = parameterName stems b ↔
    a = b ∨ (a ∈ stems ∧ b ∉ stems ∧ b = a ++ "_") ∨ (b ∈ stems ∧ a ∉ stems ∧ a = b ++ "_") := by
  by_cases ha : a ∈ stems <;> by_cases hb : b ∈ stems
  · rw [parameterName_of_mem ha, parameterName_of_mem hb, String.append_left_inj]
    simp [ha, hb]
  · rw [parameterName_of_mem ha, parameterName_of_not_mem hb]
    constructor
    · exact fun h => .inr (.inl ⟨ha, hb, h.symm⟩)
    · rintro (rfl | ⟨-, -, h⟩ | ⟨h, -, -⟩)
      · exact absurd ha hb
      · exact h.symm
      · exact absurd h hb
  · rw [parameterName_of_not_mem ha, parameterName_of_mem hb]
    constructor
    · exact fun h => .inr (.inr ⟨hb, ha, h⟩)
    · rintro (rfl | ⟨h, -, -⟩ | ⟨-, -, h⟩)
      · exact absurd hb ha
      · exact absurd h ha
      · exact h
  · rw [parameterName_of_not_mem ha, parameterName_of_not_mem hb]
    simp [ha, hb]

theorem printedNames_avoid_iff : (∀ name ∈ printedNames stems fields, name ∉ stems) ↔
    ∀ field ∈ fields, field.name ∈ stems → field.name ++ "_" ∉ stems := by
  simp only [printedNames, List.forall_mem_map, parameterName_mem_iff, not_and]

theorem printedNames_eq_map : printedNames stems fields =
    (fields.map Field.name).map (parameterName stems) := by
  rw [printedNames, List.map_map]
  rfl

theorem printedNames_nodup_iff : (printedNames stems fields).Nodup ↔
    (fields.map Field.name).Nodup ∧ ∀ x ∈ fields, ∀ y ∈ fields, x.name ∈ stems →
      y.name = x.name ++ "_" → y.name ∈ stems := by
  rw [printedNames_eq_map]
  constructor
  · intro h
    refine ⟨h.of_map, fun x hx y hy hstem heq => by_contra fun hother => ?_⟩
    have hsame := List.inj_on_of_nodup_map h (List.mem_map_of_mem hx) (List.mem_map_of_mem hy)
      (parameterName_eq_iff.mpr (.inr (.inl ⟨hstem, hother, heq⟩)))
    exact hother (hsame ▸ hstem)
  · rintro ⟨hnodup, hfree⟩
    refine hnodup.map_on ?_
    simp only [List.forall_mem_map]
    intro x hx y hy heq
    rcases parameterName_eq_iff.mp heq with heq | ⟨hstem, hother, heq⟩ | ⟨hstem, hother, heq⟩
    · exact heq
    · exact absurd (hfree x hx y hy hstem heq) hother
    · exact absurd (hfree y hy x hx hstem heq) hother

end Names

/-! ## Lists within a line -/

/-- The parts of a list, each with the printed name of its field behind number and type. -/
def ListsNames (stems : List String) (fields : List Field) (written : String) : Prop :=
  ∃ parts, written = ", ".intercalate parts ∧
    List.Forall₂ (fun (field : Field) part => ∃ rest, part = toString field.id ++ ": " ++
      field.type.emit ++ " " ++ parameterName stems field.name ++ rest) fields parts

/-- The line of a function with both of its lists. -/
def ServiceFunction.WrittenAs (stems : List String) (f : ServiceFunction) (line : String) : Prop :=
  ∃ parameters opened thrown closed, line = f.opening ++ "(" ++ parameters ++ ")" ++ opened ++
    thrown ++ closed ∧ ListsNames stems f.parameters parameters ∧ ListsNames stems f.throws thrown

section Lines

variable {stems : List String} {fields : List Field} {f : ServiceFunction} {text : String}

theorem parametersText_lists (h : parametersText stems fields = .ok text) :
    ListsNames stems fields text := by
  obtain ⟨parts, hparts, h⟩ := bind_eq_ok.mp h
  refine ⟨parts, (Except.ok.inj h).symm, ?_⟩
  refine (forall₂_of_mapM hparts).imp fun field part hpart => ?_
  obtain ⟨annotations, -, hpart⟩ := bind_eq_ok.mp hpart
  refine ⟨defaultText field.default ++ annotations, ?_⟩
  obtain rfl := Except.ok.inj hpart
  simp only [String.append_empty, String.append_assoc]

theorem functionText_writes (h : functionText stems f = .ok text) :
    ∃ line annotations, text = line ++ annotations ∧ f.WrittenAs stems line := by
  obtain ⟨parameters, opened, thrown, closed, annotations, hparameters, hthrown, -, rfl⟩ :=
    exists_lists_of_functionText h
  exact ⟨_, annotations, rfl, parameters, opened, thrown, closed, rfl,
    parametersText_lists hparameters, parametersText_lists hthrown⟩

end Lines

/-- Every rendered file shows its functions with both of their lists. The printed names of a list
avoid the stems of the includes exactly if no field bears a stem that is a stem again with an
underscore behind it, and they are distinct exactly if the names are and none of them is what
another one is replaced by. -/
theorem Writer.parameter_names_shadow_iff {writer : Writer} {f : File} {text : String}
    (h : (writer.write f).1 = .ok text) :
    ∀ service ∈ f.definitions.services, ∀ function ∈ service.functions,
      (∃ line, function.WrittenAs f.importStems line ∧ line.toList <:+: text.toList) ∧
      ∀ fields ∈ [function.parameters, function.throws],
        ((∀ name ∈ printedNames f.importStems fields, name ∉ f.importStems) ↔
          ∀ field ∈ fields, field.name ∈ f.importStems → field.name ++ "_" ∉ f.importStems) ∧
        ((printedNames f.importStems fields).Nodup ↔ (fields.map Field.name).Nodup ∧
          ∀ x ∈ fields, ∀ y ∈ fields, x.name ∈ f.importStems → y.name = x.name ++ "_" →
            y.name ∈ f.importStems) := by
  intro service hservice function hfunction
  obtain ⟨whole, hwhole, hinside⟩ :=
    write_covers h _ (File.functionText_mem hservice hfunction)
  obtain ⟨line, annotations, rfl, hline⟩ := functionText_writes hwhole
  refine ⟨⟨line, hline, ?_⟩, fun fields _ => ⟨printedNames_avoid_iff, printedNames_nodup_iff⟩⟩
  rw [String.toList_append] at hinside
  exact (List.prefix_append _ _).isInfix.trans hinside

/-- A path whose answers come from namespaces with the stems of its inputs: `req` is replaced by the
stem of another include, and `error404` by the name of another answer. -/
def shadowingDocument : List UInt8 :=
  ("swagger: \"2.0\"\npaths:\n  /pets:\n    get:\n      responses:\n" ++
    "        200:\n          schema:\n            $ref: \"#/definitions/req.A\"\n" ++
    "        404:\n          schema:\n            $ref: \"#/definitions/req_.B\"\n" ++
    "        \"404_\":\n          schema:\n            $ref: \"#/definitions/error404.C\"\n" ++
    "definitions:\n  req.A:\n    properties:\n      name:\n        type: string\n" ++
    "  req_.B:\n    properties:\n      name:\n        type: string\n" ++
    "  error404.C:\n    properties:\n      name:\n        type: string\n").toUTF8.data.toList

/-- The names in both lists of a file's functions. -/
def listedNames (f : File) : List (List String × List String) :=
  f.definitions.services.flatMap fun service => service.functions.map fun function =>
    (function.parameters.map Field.name, function.throws.map Field.name)

theorem shadowingDocument_converts :
    ∃ schema, convertDocument "pets.yaml" shadowingDocument {} = .ok schema ∧
      schema.files.map (fun f => (f.importStems, listedNames f)) =
        [([], []), (["error404", "req", "req_"], [(["req"], ["error404", "error404_"])]),
          ([], []), ([], [])] := by
  refine exists_of_toOption ?_
  decide +kernel

/-- The only function of the document, in a file that can be rendered. -/
theorem shadowingDocument_renders :
    ∃ schema, convertDocument "pets.yaml" shadowingDocument {} = .ok schema ∧
      ∃ f ∈ schema.files, f.importStems = ["error404", "req", "req_"] ∧
        (∃ text, (({} : Writer).write f).1 = .ok text) ∧
        ∃ service ∈ f.definitions.services, ∃ function ∈ service.functions,
          function.parameters.map Field.name = ["req"] ∧
          function.throws.map Field.name = ["error404", "error404_"] := by
  obtain ⟨schema, h, hfiles⟩ := shadowingDocument_converts
  obtain ⟨f, hf, hview⟩ : ∃ f ∈ schema.files, (f.importStems, listedNames f) =
      (["error404", "req", "req_"], [(["req"], ["error404", "error404_"])]) :=
    List.mem_map.mp (hfiles ▸ List.mem_cons_of_mem _ List.mem_cons_self)
  obtain ⟨hstems, hnames⟩ := Prod.mk.inj hview
  have hquoting : Quoting f.attachments :=
    quoting_flatMap.mp (Convert.convertDocument_quoting h) f hf
  have hmem : (["req"], ["error404", "error404_"]) ∈ listedNames f :=
    hnames ▸ List.mem_singleton_self _
  obtain ⟨service, hservice, hmem⟩ := List.mem_flatMap.mp hmem
  obtain ⟨function, hfunction, hlists⟩ := List.mem_map.mp hmem
  exact ⟨schema, h, f, hf, hstems, (Writer.renders_file f {}).exists_ok hquoting, service,
    hservice, function, hfunction, Prod.mk.inj hlists⟩

theorem shadowingDocument_parameter_names :
    ∃ schema, convertDocument "pets.yaml" shadowingDocument {} = .ok schema ∧
      ∃ f ∈ schema.files, ∃ text, (({} : Writer).write f).1 = .ok text ∧
        ∃ service ∈ f.definitions.services, ∃ function ∈ service.functions,
          (∃ line, function.WrittenAs f.importStems line ∧ line.toList <:+: text.toList) ∧
          ((∀ name ∈ printedNames f.importStems function.parameters, name ∉ f.importStems) ↔
            ∀ field ∈ function.parameters, field.name ∈ f.importStems →
              field.name ++ "_" ∉ f.importStems) ∧
          ((printedNames f.importStems function.throws).Nodup ↔
            (function.throws.map Field.name).Nodup ∧
              ∀ x ∈ function.throws, ∀ y ∈ function.throws, x.name ∈ f.importStems →
                y.name = x.name ++ "_" → y.name ∈ f.importStems) := by
  obtain ⟨schema, h, f, hf, -, ⟨text, htext⟩, service, hservice, function, hfunction, -⟩ :=
    shadowingDocument_renders
  obtain ⟨hline, hnames⟩ :=
    Writer.parameter_names_shadow_iff htext service hservice function hfunction
  exact ⟨schema, h, f, hf, text, htext, service, hservice, function, hfunction, hline,
    (hnames _ List.mem_cons_self).1, (hnames _ (List.mem_cons_of_mem _ List.mem_cons_self)).2⟩

/-- The name that replaces the stem of one include is that of another one, and two thrown fields
with different names come out alike. -/
theorem shadowingDocument_not_avoids :
    ∃ schema, convertDocument "pets.yaml" shadowingDocument {} = .ok schema ∧
      ∃ f ∈ schema.files, (∃ text, (({} : Writer).write f).1 = .ok text) ∧
        ∃ service ∈ f.definitions.services, ∃ function ∈ service.functions,
          (∃ name ∈ printedNames f.importStems function.parameters, name ∈ f.importStems) ∧
          (function.throws.map Field.name).Nodup ∧
          ¬ (printedNames f.importStems function.throws).Nodup := by
  obtain ⟨schema, h, f, hf, hstems, htext, service, hservice, function, hfunction, hparameters,
    hthrows⟩ := shadowingDocument_renders
  refine ⟨schema, h, f, hf, htext, service, hservice, function, hfunction,
    ⟨"req_", ?_, by rw [hstems]; decide⟩, by rw [hthrows]; decide, ?_⟩
  · rw [printedNames_eq_map, hparameters, hstems]
    decide
  · rw [printedNames_eq_map, hthrows, hstems]
    decide

end RestThrift
