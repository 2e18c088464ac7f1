import RestThrift.Yaml.Tag

/-!
# Tokens of a YAML stream
-/
namespace RestThrift.Yaml

inductive Token
  | streamEnd
  | versionDirective (major minor : Nat)
  | tagDirective (handle start : Tag)
  | documentStart
  | documentEnd
  | blockSequenceStart
  | blockMappingStart
  | blockEnd
  | flowSequenceStart
  | flowSequenceEnd
  | flowMappingStart
  | flowMappingEnd
  | blockEntry
  | flowEntry
  | key
  | value
  | reference (name : List Char)
  | anchor (name : List Char)
  | tag (handle suffix : Tag)
  | scalar (text : List Char) (plain : Bool)
  deriving DecidableEq, Repr

end RestThrift.Yaml
