import RestThrift.Convert.Function
import RestThrift.Thrift.Order

/-!
# The assembled schema

Requests and the service go to the main file. Every file gets one namespace, and one include for
each other file that its types refer to.
-/
namespace RestThrift.Convert

/-- All types that services, messages and typedefs mention, outermost types only. -/
def mentioned (d : Definitions) : List TypeRef :=
  d.services.flatMap (fun s => s.functions.flatMap fun f =>
    f.returnType :: (f.parameters ++ f.throws).map Field.type) ++
  d.messages.flatMap (fun m => m.fields.map Field.type) ++ d.typedefs.map Typedef.target

/-- The files that types refer to, at any depth. -/
def mentionedFiles (types : List TypeRef) : List String :=
  (types.flatMap TypeRef.walk).filterMap fun t => ((t.fqn?).bind splitFqn).map (·.1)

/-- The included file as seen from a file beside it. -/
def includeLiteral (path : String) : String :=
  let name := match Text.splitLast '/' path.toList with
    | some (_, name) => name
    | none => path.toList
  String.ofList ('"' :: (name ++ ['"']))

/-- Includes of a file, in ascending order of their paths. -/
def importsOf (path : String) (d : Definitions) : List Import :=
  let targets := (mentionedFiles (mentioned d)).filter fun file => file != path
  (targets.foldl (fun list file => insertSorted file list) []).map fun target =>
    { path := target, written := includeLiteral target }

/-- The base namespace for the main file, and a part of it for any other file. -/
def namespaceFor (stem base fileStem : String) : String :=
  if fileStem = stem then base else base ++ "." ++ fileStem

def assembleFile (stem base scope edition : String) (path : String) (d : Definitions) : File :=
  { path, edition, imports := importsOf path d
    namespaces := [{ scope, name := namespaceFor stem base (Path.stem path) }], definitions := d }

/-- The service of an outline; without a function there is none. -/
def serviceOf (file name : String) (functions : List ServiceFunction) : List Service :=
  if functions.isEmpty then [] else [{ name, fqn := fqnOf file name, functions }]

/-- The finished schema. The main file is always present. -/
def assemble (plan : Plan) (options : Options) (edition : String) (outline : Outline)
    (w : Workspace) : Schema :=
  let main := plan.mainFile
  let requests := outline.requests.filterMap fun entry => uniteAll entry.2
  let w := w.modify main fun d =>
    { d with
      messages := d.messages ++ requests
      services := d.services ++ serviceOf main options.serviceName outline.functions }
  let base := (Options.nonEmpty options.base).getD plan.stem
  let files := w.files.map fun (path, d) =>
    assembleFile plan.stem base options.namespaceScope edition path d
  ({ files } : Schema).sorted

end RestThrift.Convert
