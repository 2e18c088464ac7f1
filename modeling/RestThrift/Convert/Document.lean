import RestThrift.Convert.Assembly
import RestThrift.Convert.NamedSchema
import RestThrift.Yaml.Reader

/-!
# Converting documents

A document is read, its named schemas become definitions, its operations functions, and the result
is assembled into a schema, which can be written out.
-/
namespace RestThrift

/-- Read a document and tell its dialect. -/
def readDocument (file : String) (bytes : List UInt8) : Except ConversionError Api.Document := do
  match Yaml.parse? bytes with
  | none => throw (.malformed file)
  | some (.mapping entries) =>
    match Api.Reading.detect entries with
    | .error missing => throw (.unknownDialect file missing)
    | .ok (dialect, version) =>
      match Api.Reading.document? dialect version (.mapping entries) with
      | some document => return document
      | none => throw (.unexpectedShape file dialect)
  | some _ => throw (.notAnObject file)

/-- Convert a document that has been read. -/
def convert (file : String) (document : Api.Document) (options : Options) :
    Except ConversionError Schema := do
  let (plan, w) := Convert.Plan.of file options document.schemas
  let ((), w) ← (Convert.defineAll plan document.schemas).run w
  let (((), outline), w) ←
    ((Convert.buildService plan options.serviceName document.paths).run {}).run w
  return Convert.assemble plan options document.version outline w

def convertDocument (file : String) (bytes : List UInt8) (options : Options) :
    Except ConversionError Schema := do
  let document ← readDocument file bytes
  convert file document options

/-- Convert a document into the texts of the output files. -/
def convertSpec (file : String) (bytes : List UInt8) (options : Options) :
    Except ConversionError (Table String) := do
  let schema ← convertDocument file bytes options
  match generate schema (!options.noComments) with
  | .ok files => return files
  | .error cause => throw (.rendering cause)

/-- Results of a batch by input file. -/
structure BatchReport where
  outputs : Table (Table String) := []
  failures : Table ConversionError := []

def BatchReport.isSuccess (report : BatchReport) : Bool := report.failures.isEmpty

/-- Convert every input on its own; an empty batch is a failure under the empty name. -/
def convertSpecs (inputs : Table (List UInt8)) (options : Options) : BatchReport :=
  if inputs.isEmpty then { failures := [("", .emptyInput)] }
  else
    inputs.foldl (fun report (file, bytes) =>
      match convertSpec file bytes options with
      | .ok files => { report with outputs := report.outputs.insert file files }
      | .error cause => { report with failures := report.failures.insert file cause }) {}

end RestThrift
