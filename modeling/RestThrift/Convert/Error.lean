import RestThrift.Api.Reading.Document
import RestThrift.Thrift.Writer

/-!
# Why a conversion fails
-/
namespace RestThrift

inductive ConversionError
  | emptyInput
  | malformed (file : String)
  | notAnObject (file : String)
  | unexpectedShape (file : String) (dialect : Api.Dialect)
  | unknownDialect (file : String) (missing : Api.Reading.MissingHint)
  | danglingReference (reference : String)
  | defaultValue (property : String) (cause : LiteralError)
  | badOptions
  | rendering (cause : RenderError)
  /-- A composition contains itself through a property. -/
  | endlessComposition

namespace ConversionError

def message : ConversionError → String
  | .emptyInput => "no input documents were provided"
  | .malformed file => "failed to parse '" ++ file ++ "'"
  | .notAnObject file => "'" ++ file ++ "' is not a JSON/YAML object"
  | .unexpectedShape file dialect => "failed to read '" ++ file ++ "' as " ++ dialect.name
  | .unknownDialect file missing =>
    "cannot detect the dialect of '" ++ file ++
      "': missing 'swagger: 2.x' or 'openapi: 3.x' version field (" ++ missing.message ++ ")"
  | .danglingReference reference => "unresolved reference '" ++ reference ++ "'"
  | .defaultValue property cause =>
    "unsupported default value for '" ++ property ++ "': " ++ cause.message
  | .badOptions => "invalid converter configuration"
  | .rendering cause => cause.message
  | .endlessComposition => "a schema is composed of itself without end"

end ConversionError

end RestThrift
