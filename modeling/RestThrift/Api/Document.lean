import RestThrift.Api.Operation

/-!
# API documents

Both dialects are read into one form: named schemas and paths.
-/
namespace RestThrift.Api

inductive Dialect
  | swagger2
  | openApi3
  deriving DecidableEq, Repr

def Dialect.name : Dialect → String
  | .swagger2 => "swagger 2"
  | .openApi3 => "openapi 3"

/-- A document. `version` is empty where the dialect was guessed. -/
structure Document where
  dialect : Dialect
  version : String
  paths : Table PathItem
  schemas : Table Schema

end RestThrift.Api
