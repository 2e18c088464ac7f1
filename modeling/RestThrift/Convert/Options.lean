/-!
# Conversion options
-/
namespace RestThrift

/-- What to do with a reference whose target does not exist: keep its name, or fail. -/
inductive ReferencePolicy
  | lenient
  | strict
  deriving DecidableEq, Repr, Inhabited

def ReferencePolicy.name : ReferencePolicy → String
  | .lenient => "lenient"
  | .strict => "strict"

/-- Options as given. `base` is the base namespace, `scope` the language of namespace lines. -/
structure Options where
  base : Option String := none
  service : Option String := none
  scope : Option String := none
  policy : ReferencePolicy := .lenient
  noComments : Bool := false
  deriving DecidableEq, Repr, Inhabited

namespace Options

def nonEmpty (text : Option String) : Option String := text.filter fun s => !s.isEmpty

def serviceName (o : Options) : String := (nonEmpty o.service).getD "HTTPService"

def namespaceScope (o : Options) : String := (nonEmpty o.scope).getD "go"

end Options

end RestThrift
