import RestThrift.Thrift.Schema

/-!
# Comments from descriptions

A description becomes one doc comment, on one line or as a starred block. A blank description has
no comment.
-/
namespace RestThrift

def starredLine (line : List Char) : List Char := ' ' :: '*' :: ' ' :: (Text.trim line ++ ['\n'])

def describedText (description : List Char) : Option (List Char) :=
  let trimmed := Text.trim description
  if trimmed.isEmpty then none
  else
    match Text.lines trimmed with
    | [_] => some (['/', '*', '*', ' '] ++ trimmed ++ [' ', '*', '/'])
    | lines => some (['/', '*', '*', '\n'] ++ lines.flatMap starredLine ++ [' ', '*', '/'])

def Comment.ofDescription (description : String) : List Comment :=
  match describedText description.toList with
  | some text => [{ text := String.ofList text }]
  | none => []

def describe (description : Option String) : List Comment :=
  match description with
  | some description => Comment.ofDescription description
  | none => []

end RestThrift
