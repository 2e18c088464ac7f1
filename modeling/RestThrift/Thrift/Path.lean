import RestThrift.Text.Blank

/-!
# File paths and fully-qualified names

A definition is known project-wide as `path#name`. The stem of a path is its last segment without
the extension. Include paths are relative to the directory of the including file.
-/
namespace RestThrift

def fqnOf (path name : String) : String := path ++ "#" ++ name

/-- Cut a fully-qualified name at its first `#`. -/
def splitFqn (fqn : String) : Option (String × String) :=
  (Text.splitFirst '#' fqn.toList).map fun (path, name) =>
    (String.ofList path, String.ofList name)

namespace Path

def isSeparator (c : Char) : Bool := c = '/' || c = '\\'

/-- What follows the last slash or backslash. -/
def lastSegment (path : List Char) : List Char :=
  (path.reverse.takeWhile (fun c => !isSeparator c)).reverse

def dropExtension (segment : List Char) : List Char :=
  match Text.splitLast '.' segment with
  | some (stem, _) => stem
  | none => segment

def stemChars (path : List Char) : List Char := dropExtension (lastSegment path)

def stem (path : String) : String := String.ofList (stemChars path.toList)

/-- Segments of the directory of a file; a path without a slash has none. -/
def directory (path : List Char) : List (List Char) :=
  match Text.splitLast '/' path with
  | some (directory, _) => Text.splitAt '/' directory
  | none => []

/-- Enter a segment from a directory: empty and `.` segments stay, `..` leaves. -/
def enter (segments : List (List Char)) (segment : List Char) : List (List Char) :=
  if segment = [] ∨ segment = ['.'] then segments
  else if segment = ['.', '.'] then segments.dropLast
  else segments ++ [segment]

/-- Path of an include, seen from the including file. -/
def resolveInclude (path target : String) : String :=
  String.ofList (Text.join ['/']
    ((Text.splitAt '/' target.toList).foldl enter (directory path.toList)))

end Path

end RestThrift
