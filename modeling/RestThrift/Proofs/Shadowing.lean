import Mathlib
import RestThrift.Proofs.Includes
import RestThrift.Proofs.Numbering
import RestThrift.Proofs.Sessions

/-!
# Types behind the service

The name of the service comes from the options and is not claimed in the main file, so that a type
of this file may bear it, too. The two then have one full name, and a look-up answers the service,
which stands first. Every definition that is not hidden in this way is found by its full name.
-/
namespace RestThrift

/-- The type has the name of a service of its file. -/
def File.Hides (f : File) (d : Definition) : Prop :=
  d ∈ f.definitions.types ∧ ∃ s ∈ f.definitions.services, s.name = d.name

/-! ## Look-ups by full names -/

section LookUp

variable {α : Type} {name : α → String} {query : String} {schema : Schema} {d : Definition}

/-- Keeping the first bearers of names keeps what is found under a name. -/
theorem find?_firstsBy (hquery : query ≠ "") (l : List α) :
    (firstsBy name l).find? (fun a => name a = query) = l.find? fun a => name a = query := by
  induction l with
  | nil => rfl
  | cons a rest ih =>
    by_cases hname : name a = query
    · simp [firstsBy, hname, hquery]
    · rw [List.find?_cons_of_neg (by simpa using hname), firstsBy]
      split
      · exact ih
      · have hkept : ∀ b, (name b ≠ name a ∧ name b = query) ↔ name b = query := by
          refine fun b => and_iff_right_of_imp fun hb => ?_
          rw [hb]
          exact Ne.symm hname
        rw [List.find?_cons_of_neg (by simpa using hname), List.find?_filter, ← ih]
        simp only [decide_eq_true_eq, hkept]

/-- A look-up by a full name answers the first definition that bears it. -/
theorem find_ofSchema (hquery : query ≠ "")
    (h : (schema.files.flatMap fun f => f.definitions.named).find? (fun d => d.fqn = query) =
      some d) :
    ((Catalog.ofSchema schema).find query).1 = [d] := by
  have hcurrent : (Catalog.ofSchema schema).Current := Catalog.current_of_none rfl
  obtain ⟨found, hfind, -⟩ := Catalog.find_spec hcurrent query
  have hkept : (keptDefinitions schema.files).find? (fun d => d.fqn = query) = some d := by
    rw [keptDefinitions, find?_firstsBy hquery, h]
  rw [hfind, scan]
  simp only [Catalog.ofSchema, hkept]

theorem fqnOf_ne_empty (path text : String) : fqnOf path text ≠ "" := by
  simp [fqnOf]

/-- The first bearer of a full name that some definition bears is the first one of its own file. -/
theorem exists_first {files : List File} {f : File} (hf : f ∈ files)
    (hd : d ∈ f.definitions.named) :
    ∃ g ∈ files, ∃ e, e.fqn = d.fqn ∧
      g.definitions.named.find? (fun e => e.fqn = d.fqn) = some e ∧
      (files.flatMap fun f => f.definitions.named).find? (fun e => e.fqn = d.fqn) = some e := by
  obtain ⟨e, he⟩ : ∃ e, (files.flatMap fun f => f.definitions.named).find?
      (fun e => e.fqn = d.fqn) = some e :=
    Option.isSome_iff_exists.mp (List.find?_isSome.mpr
      ⟨d, List.mem_flatMap.mpr ⟨f, hf, hd⟩, decide_eq_true rfl⟩)
  have hfirst := he
  rw [List.find?_flatMap] at hfirst
  obtain ⟨g, hg, hfind⟩ := List.exists_of_findSome?_eq_some hfirst
  have hname : e.fqn = d.fqn := by simpa using List.find?_some he
  exact ⟨g, hg, e, hname, hfind, he⟩

end LookUp

namespace Convert

open Text

/-! ## The full name of the service -/

section FullNames

variable {plan : Plan} {path name service : String} {sep : Char} {a b m n : List Char}

/-- A join before which it does not occur can be found. -/
theorem first_cons_inj (ha : sep ∉ a) (hb : sep ∉ b) (h : a ++ sep :: m = b ++ sep :: n) :
    a = b ∧ m = n := by
  have hreverse : m.reverse ++ sep :: a.reverse = n.reverse ++ sep :: b.reverse := by
    simpa using congrArg List.reverse h
  obtain ⟨hm, ha⟩ := append_cons_inj (by simpa using ha) (by simpa using hb) hreverse
  exact ⟨List.reverse_injective ha, List.reverse_injective hm⟩

/-- A full name in an output file tells the file, whatever stands behind the join: the path ends
behind its only dot. -/
theorem fqnOf_home_inj (hstem : IsSegment plan.stem.toList) {other : String}
    (hpath : plan.IsHome path) (hother : plan.IsHome other)
    (h : fqnOf path name = fqnOf other service) :
    path = other ∧ name = service := by
  obtain ⟨space, hspace, rfl⟩ := hpath.exists_space
  obtain ⟨space', hspace', rfl⟩ := hother.exists_space
  have hfront : ∀ part : String, '.' ∉ part.toList →
      '.' ∉ plan.stem.toList ++ '/' :: (spaceStem plan.stem part).toList := by
    intro part hpart hdot
    rcases List.mem_append.mp hdot with hdot | hdot
    · exact (hstem _ hdot).1 rfl
    · exact dot_not_mem_spaceStem hstem hpart ((List.mem_cons.mp hdot).resolve_left (by decide))
  have hlist : (plan.stem.toList ++ '/' :: (spaceStem plan.stem space).toList) ++
        '.' :: ("thrift".toList ++ '#' :: name.toList) =
      (plan.stem.toList ++ '/' :: (spaceStem plan.stem space').toList) ++
        '.' :: ("thrift".toList ++ '#' :: service.toList) := by
    simpa [fqnOf, toList_spaceFile] using congrArg String.toList h
  obtain ⟨hspaces, hnames⟩ := first_cons_inj (hfront _ hspace) (hfront _ hspace') hlist
  have hname : name.toList = service.toList := by simpa using hnames
  refine ⟨String.toList_inj.mp ?_, String.toList_inj.mp hname⟩
  rw [toList_spaceFile, toList_spaceFile, ← List.cons_append, ← List.append_assoc, hspaces,
    List.append_assoc, List.cons_append]

end FullNames

/-! ## Definitions of one full name -/

namespace Finished

variable {plan : Plan} {stated : Api.Schema → Prop} {service : String} {answers : List Answer}
  {w : Workspace} {schema : Schema} {f g : File} {d e : Definition} {s : Service}

section File

variable (h : Finished plan stated service answers w schema) (hf : f ∈ schema.files)
include h hf

theorem service_spec (hs : s ∈ f.definitions.services) : f.path = plan.mainFile ∧
    f.definitions.services = [s] ∧ s.name = service ∧ s.fqn = fqnOf f.path service := by
  have heq := h.services_eq hf
  rw [servicesIn, serviceOf] at heq
  split at heq
  · rename_i hmain
    split at heq
    · simp [heq] at hs
    · rw [heq, List.mem_singleton] at hs
      subst hs
      exact ⟨hmain.symm, heq, rfl, by rw [← hmain]⟩
  · simp [heq] at hs

/-- What can be found in a file: there are no constants. -/
theorem mem_named : d ∈ f.definitions.named ↔ (∃ s ∈ f.definitions.services, d = .service s) ∨
    (∃ function ∈ f.definitions.services.flatMap Service.functions, d = .function function) ∨
    d ∈ f.definitions.types := by
  simp only [Definitions.named, Definitions.types, h.constants_eq_nil hf, List.map_nil,
    List.append_nil, List.mem_append, List.mem_flatMap, List.mem_cons, List.mem_map, or_assoc]
  constructor
  · rintro (⟨s, hs, rfl | ⟨function, hfunction, rfl⟩⟩ | htype)
    · exact .inl ⟨s, hs, rfl⟩
    · exact .inr (.inl ⟨function, ⟨s, hs, hfunction⟩, rfl⟩)
    · exact .inr (.inr htype)
  · rintro (⟨s, hs, rfl⟩ | ⟨function, ⟨s, hs, hfunction⟩, rfl⟩ | htype)
    · exact .inl ⟨s, hs, .inl rfl⟩
    · exact .inl ⟨s, hs, .inr ⟨function, hfunction, rfl⟩⟩
    · exact .inr htype

theorem function_fqn {function : ServiceFunction}
    (hfunction : function ∈ f.definitions.services.flatMap Service.functions) :
    IsPlain function.name.toList ∧
      function.fqn = fqnOf f.path (service ++ "." ++ function.name) := by
  obtain ⟨s, hs, hmem⟩ := List.mem_flatMap.mp hfunction
  obtain ⟨hmain, a, ha, rfl⟩ := h.exists_answer hf hs hmem
  rw [hmain]
  exact ⟨(h.holds a ha).plain, (h.holds a ha).functionFqn⟩

theorem exists_fqnOf (hd : d ∈ f.definitions.named) : ∃ text, d.fqn = fqnOf f.path text := by
  rcases (h.mem_named hf).mp hd with ⟨s, hs, rfl⟩ | ⟨function, hfunction, rfl⟩ | htype
  · exact ⟨service, (h.service_spec hf hs).2.2.2⟩
  · exact ⟨_, (h.function_fqn hf hfunction).2⟩
  · exact ⟨_, (h.fqn_eq hf htype).1⟩

theorem service_fqn_ne_function {function : ServiceFunction} (hs : s ∈ f.definitions.services)
    (hfunction : function ∈ f.definitions.services.flatMap Service.functions) :
    s.fqn ≠ function.fqn := by
  intro heq
  rw [(h.service_spec hf hs).2.2.2, (h.function_fqn hf hfunction).2] at heq
  have hlonger : service = service ++ ("." ++ function.name) := by
    simpa [fqnOf, String.append_assoc] using heq
  simpa using String.append_eq_left_iff.mp hlonger.symm

theorem type_fqn_ne_function {function : ServiceFunction} (hd : d ∈ f.definitions.types)
    (hfunction : function ∈ f.definitions.services.flatMap Service.functions) :
    d.fqn ≠ function.fqn := by
  obtain ⟨hplain, hfqn⟩ := h.function_fqn hf hfunction
  obtain ⟨hfqn', hplain'⟩ := h.fqn_eq hf hd
  rw [hfqn, hfqn']
  exact fqnOf_ne_function hplain' hplain

/-- A type with the full name of the service stands behind it. -/
theorem hides_of_fqn_eq (hs : s ∈ f.definitions.services) (hd : d ∈ f.definitions.types)
    (hfqn : s.fqn = d.fqn) : f.Hides d := by
  obtain ⟨-, -, hname, hservice⟩ := h.service_spec hf hs
  rw [hservice, (h.fqn_eq hf hd).1] at hfqn
  exact ⟨hd, s, hs, hname.trans (by simpa [fqnOf] using hfqn)⟩

/-- Two definitions of a file that have one full name are one definition, unless one of them is the
service and the other a type behind it. -/
theorem eq_or_hides (hd : d ∈ f.definitions.named) (he : e ∈ f.definitions.named)
    (hfqn : d.fqn = e.fqn) : d = e ∨
      (f.Hides d ∧ ∃ s ∈ f.definitions.services, e = .service s) ∨
      (f.Hides e ∧ ∃ s ∈ f.definitions.services, d = .service s) := by
  rcases (h.mem_named hf).mp hd with ⟨s, hs, rfl⟩ | ⟨g, hg, rfl⟩ | hd <;>
    rcases (h.mem_named hf).mp he with ⟨s', hs', rfl⟩ | ⟨g', hg', rfl⟩ | he
  · rw [(h.service_spec hf hs').2.1] at hs
    exact .inl (congrArg _ (List.mem_singleton.mp hs))
  · exact absurd hfqn (h.service_fqn_ne_function hf hs hg')
  · exact .inr (.inr ⟨h.hides_of_fqn_eq hf hs he hfqn, s, hs, rfl⟩)
  · exact absurd hfqn.symm (h.service_fqn_ne_function hf hs' hg)
  · have hnodup := h.nodup_functionFqns hf
    rw [← List.map_flatMap] at hnodup
    exact .inl (congrArg _ (List.inj_on_of_nodup_map hnodup hg hg' hfqn))
  · exact absurd hfqn.symm (h.type_fqn_ne_function hf he hg)
  · exact .inr (.inl ⟨h.hides_of_fqn_eq hf hs' hd hfqn.symm, s', hs', rfl⟩)
  · exact absurd hfqn (h.type_fqn_ne_function hf hd hg')
  · exact .inl (List.inj_on_of_nodup_map (h.nodup_typeFqns hf) hd he hfqn)

/-- A type that is hidden has the full name of the service, which stands first in the file. -/
theorem service_first (hs : s ∈ f.definitions.services) (hd : d ∈ f.definitions.types)
    (hname : s.name = d.name) :
    f.definitions.named.find? (fun e => e.fqn = d.fqn) = some (.service s) := by
  obtain ⟨-, hservices, hservice, hfqn⟩ := h.service_spec hf hs
  have heq : s.fqn = d.fqn := by rw [hfqn, (h.fqn_eq hf hd).1, ← hname, hservice]
  simp [Definitions.named, hservices, Definition.fqn, heq]

end File

/-- What a look-up by the full name of a definition answers. -/
theorem find_fqn (h : Finished plan stated service answers w schema)
    (hstem : IsSegment plan.stem.toList) (hf : f ∈ schema.files) (hd : d ∈ f.definitions.named) :
    (¬ f.Hides d → ((Catalog.ofSchema schema).find d.fqn).1 = [d]) ∧
      ∀ s ∈ f.definitions.services, d ∈ f.definitions.types → s.name = d.name →
        ((Catalog.ofSchema schema).find d.fqn).1 = [.service s] := by
  obtain ⟨g, hg, e, hfqn, hfirst, hfind⟩ := exists_first hf hd
  have hnonempty : d.fqn ≠ "" := by
    obtain ⟨text, htext⟩ := h.exists_fqnOf hf hd
    exact htext ▸ fqnOf_ne_empty _ _
  have he : e ∈ g.definitions.named := List.mem_of_find?_eq_some hfirst
  obtain rfl : g = f := by
    obtain ⟨text, htext⟩ := h.exists_fqnOf hf hd
    obtain ⟨text', htext'⟩ := h.exists_fqnOf hg he
    have hpath := (fqnOf_home_inj hstem (h.hosted g hg) (h.hosted f hf)
      (htext'.symm.trans (hfqn.trans htext))).1
    exact List.inj_on_of_nodup_map h.paths hg hf hpath
  have hanswer := find_ofSchema hnonempty hfind
  -- The first bearer is not hidden itself: the service would stand before it.
  have hseen : ¬ g.Hides e := by
    rintro ⟨htype, s, hs, hname⟩
    have hservice := h.service_first hg hs htype hname
    rw [hfqn, hfirst] at hservice
    obtain rfl := Option.some.inj hservice
    simp [Definitions.types] at htype
  refine ⟨fun hides => ?_, fun s hs htype hname => ?_⟩
  · rcases h.eq_or_hides hg hd he hfqn.symm with rfl | ⟨hd', -⟩ | ⟨he', -⟩
    · exact hanswer
    · exact absurd hd' hides
    · exact absurd he' hseen
  · rw [h.service_first hg hs htype hname] at hfirst
    rw [hanswer, Option.some.inj hfirst]

end Finished

end Convert

/-- A definition of a converted schema is found by its full name unless it is a type that bears the
name of the service; then the service is found in its place. A schema that the document names so in
the main namespace, where there is a service, is hidden in this way. -/
theorem convertDocument_found_iff_not_hidden {file : String} {bytes : List UInt8}
    {options : Options} {schema : Schema} (h : convertDocument file bytes options = .ok schema) :
    (∀ f ∈ schema.files, ∀ s ∈ f.definitions.services, s.name = options.serviceName) ∧
    (∀ f ∈ schema.files, ∀ d ∈ f.definitions.named,
      (((Catalog.ofSchema schema).find d.fqn).1 = [d] ↔ ¬ f.Hides d) ∧
      ∀ s ∈ f.definitions.services, d ∈ f.definitions.types → s.name = d.name →
        ((Catalog.ofSchema schema).find d.fqn).1 = [.service s]) ∧
    ∃ document, readDocument file bytes = .ok document ∧ ∀ key ∈ document.schemas.keys,
      (Naming.splitDefinition key).1 = Naming.mainNamespace →
      Convert.wantedName key = options.serviceName →
      ∀ f ∈ schema.files, f.definitions.services ≠ [] → ∃ d, f.Hides d := by
  obtain ⟨document, plan, answers, w, hread, hstem, hglossary, -, hfinished⟩ :=
    Convert.convertDocument_finished h
  have hsegment : IsSegment plan.stem.toList := hstem ▸ isSegment_outputStem file
  refine ⟨fun f hf s hs => (hfinished.service_spec hf hs).2.2.1, fun f hf d hd => ?_, document,
    hread, fun key hkey hspace hwanted f hf hservices => ?_⟩
  · obtain ⟨hseen, hhidden⟩ := hfinished.find_fqn hsegment hf hd
    refine ⟨⟨fun hfind ⟨htype, s, hs, hname⟩ => ?_, hseen⟩, hhidden⟩
    rw [hhidden s hs htype hname, List.singleton_inj] at hfind
    subst hfind
    simp [Definitions.types] at htype
  · obtain ⟨s, hs⟩ := List.exists_mem_of_ne_nil _ hservices
    obtain ⟨hmain, -, hname, -⟩ := hfinished.service_spec hf hs
    have hkey' : key ∈ plan.glossary.schemas.keys := by rwa [hglossary]
    have htaken := hfinished.wanted key hkey'
    have hfile : plan.fileOf key = f.path := by
      rw [hmain, Convert.Plan.fileOf, hspace, Convert.Plan.mainFile]
    rw [hfile] at htaken
    obtain ⟨d, hd, hbears⟩ := hfinished.coherent.exists_bearer htaken
    have htype := (hfinished.types_perm hf).mem_iff.mpr hd
    exact ⟨d, htype, s, hs, by rw [hname, hbears, hwanted]⟩

/-- A schema that is called as the service, and an operation. -/
def serviceDocument : List UInt8 :=
  ("swagger: \"2.0\"\npaths:\n  /pets:\n    get:\n      responses:\n" ++
    "        200:\n          schema:\n            $ref: \"#/definitions/HTTPService\"\n" ++
    "definitions:\n  HTTPService:\n    properties:\n      name:\n        type: string\n"
    ).toUTF8.data.toList

theorem serviceDocument_names :
    ∃ schema, convertDocument "pets.yaml" serviceDocument {} = .ok schema ∧
      (schema.files.map (fun f => (f.definitions.messages.map fun m => (m.name, m.fqn),
          f.definitions.services.map Service.name)),
        ((Catalog.ofSchema schema).find "pets/pets.thrift#HTTPService").1.map
          fun d => d.service?.isSome) =
        ([([("HTTPService", "pets/pets.thrift#HTTPService"),
            ("GetPetsRequest", "pets/pets.thrift#GetPetsRequest")], ["HTTPService"])], [true]) := by
  refine exists_of_toOption ?_
  decide +kernel

theorem serviceDocument_found_iff_not_hidden :
    ∃ schema, convertDocument "pets.yaml" serviceDocument {} = .ok schema ∧
      (∀ f ∈ schema.files, ∀ s ∈ f.definitions.services, s.name = "HTTPService") ∧
      (∀ f ∈ schema.files, ∀ d ∈ f.definitions.named,
        (((Catalog.ofSchema schema).find d.fqn).1 = [d] ↔ ¬ f.Hides d) ∧
        ∀ s ∈ f.definitions.services, d ∈ f.definitions.types → s.name = d.name →
          ((Catalog.ofSchema schema).find d.fqn).1 = [.service s]) ∧
      ∃ document, readDocument "pets.yaml" serviceDocument = .ok document ∧
        ∀ key ∈ document.schemas.keys,
          (Naming.splitDefinition key).1 = Naming.mainNamespace →
          Convert.wantedName key = "HTTPService" →
          ∀ f ∈ schema.files, f.definitions.services ≠ [] → ∃ d, f.Hides d := by
  obtain ⟨schema, h, -⟩ := serviceDocument_names
  exact ⟨schema, h, convertDocument_found_iff_not_hidden h⟩

/-- The message has the name of the service, which is found in its place. -/
theorem serviceDocument_hides_message :
    ∃ schema, convertDocument "pets.yaml" serviceDocument {} = .ok schema ∧
      ∃ f ∈ schema.files, ∃ s ∈ f.definitions.services, ∃ m ∈ f.definitions.messages,
        m.name = s.name ∧ ((Catalog.ofSchema schema).find m.fqn).1 ≠ [.message m] := by
  obtain ⟨schema, h, hview⟩ := serviceDocument_names
  obtain ⟨hfiles, hfound⟩ := Prod.mk.inj hview
  obtain ⟨f, hf, hnames⟩ := List.mem_map.mp (hfiles ▸ List.mem_singleton_self _)
  obtain ⟨hmessages, hservices⟩ := Prod.mk.inj hnames
  obtain ⟨m, hm, hmessage⟩ := List.mem_map.mp (hmessages ▸ List.mem_cons_self)
  obtain ⟨s, hs, hservice⟩ := List.mem_map.mp (hservices ▸ List.mem_singleton_self _)
  obtain ⟨hname, hfqn⟩ := Prod.mk.inj hmessage
  refine ⟨schema, h, f, hf, s, hs, m, hm, hname.trans hservice.symm, fun hfind => ?_⟩
  rw [← hfqn, hfind] at hfound
  simp [Definition.service?] at hfound

end RestThrift
