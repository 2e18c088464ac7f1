import RestThrift.Source.Tree
import RestThrift.Table

/-!
# Projects of parsed files

Where a type name of one file is defined. An unqualified name belongs to the file itself; a
qualified one to the first include whose stem is the qualifier.
-/
namespace RestThrift.Source

/-- The fully-qualified name that a type name stands for in a file. -/
abbrev Locator := String → String → Option String

abbrev Project := Table ParsedFile

namespace Project

def defined (project : Project) : List String :=
  project.flatMap fun entry =>
    entry.2.document.definitions.map fun node => fqnOf entry.1 node.name

/-- Paths of the files that a file includes. -/
def includes? (project : Project) (path : String) : Option (List String) :=
  (project.get? path).map fun file =>
    file.document.includes.map fun node => Path.resolveInclude path node.path

/-- The fully-qualified name that a type name would have, whether it is defined or not. -/
def candidate? (project : Project) (path name : String) : Option String :=
  match Text.splitLast '.' name.toList with
  | none => some (fqnOf path name)
  | some (qualifier, short) => do
    let includes ← project.includes? path
    let target ← includes.find? fun target => Path.stemChars target.toList == qualifier
    return fqnOf target (String.ofList short)

def locate (project : Project) : Locator := fun path name =>
  match project.candidate? path name with
  | some fqn => if project.defined.contains fqn then some fqn else none
  | none => none

end Project

end RestThrift.Source
