import RestThrift.Text.Utf8

/-!
# Tags

A tag is a list of bytes: percent escapes may spell bytes that are no text. A zero byte ends a tag,
as it ends each part that a tag is put together from.
-/
namespace RestThrift.Yaml

abbrev Tag := List UInt8

namespace Tag

def ofAscii (chars : List Char) : Tag := chars.map fun c => UInt8.ofNat c.toNat

/-- The bytes in front of the first zero byte. -/
def clip (bytes : List UInt8) : Tag := bytes.takeWhile (· ≠ 0)

/-- The tag that is only `!`. -/
def bare : Tag := ofAscii ['!']

def coreStart : Tag := ofAscii "tag:yaml.org,2002:".toList

def isCore (tag : Tag) (name : String) : Bool := tag = coreStart ++ ofAscii name.toList

def isLocal (tag : Tag) : Bool := bare.isPrefixOf tag

/-- The text of a local tag behind its `!`, where a second `!` does not count. A lone `!` is its
own text. Bytes that are no text make no label. -/
def label? (tag : Tag) : Option String :=
  if tag.isLocal then do
    match ← Text.Utf8.strict? (tag.drop 1) with
    | [] | ['!'] => return "!"
    | '!' :: text => return String.ofList text
    | text => return String.ofList text
  else none

end Tag

end RestThrift.Yaml
