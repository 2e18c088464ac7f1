import RestThrift.Convert.Configuration
import RestThrift.Convert.Document
import RestThrift.Json.Printer
import RestThrift.Json.Reader
import RestThrift.Proofs.Build
import RestThrift.Proofs.Naming
import RestThrift.Proofs.Table
import RestThrift.Source.Lower
import RestThrift.Thrift.Catalog
import RestThrift.Thrift.Codec
import RestThrift.Proofs.Origins
import RestThrift.Proofs.Growth
import RestThrift.Proofs.Synthesis
import RestThrift.Proofs.Coherence
import RestThrift.Proofs.NamedSchema
import RestThrift.Proofs.Request
import RestThrift.Proofs.Function
import RestThrift.Proofs.Outline
import RestThrift.Proofs.Order
import RestThrift.Proofs.Sorting
import RestThrift.Proofs.Assembly
import RestThrift.Proofs.Reading
import RestThrift.Proofs.UniqueNames
import RestThrift.Proofs.References
import RestThrift.Proofs.Inputs
import RestThrift.Proofs.Lookup
import RestThrift.Proofs.Sessions
import RestThrift.Proofs.Coverage
import RestThrift.Proofs.Policies
import RestThrift.Proofs.NamedDefinitions
import RestThrift.Proofs.Numbering
import RestThrift.Proofs.Rendering
import RestThrift.Proofs.Quoting
import RestThrift.Proofs.Records
import RestThrift.Proofs.RoundTrip
import RestThrift.Proofs.Edits
import RestThrift.Proofs.Comparison
import RestThrift.Proofs.Reordering
import RestThrift.Proofs.ReorderedReading
import RestThrift.Proofs.DistinctKeys
import RestThrift.Proofs.KeyOrder
import RestThrift.Proofs.Includes
import RestThrift.Proofs.IncludePaths
import RestThrift.Proofs.ReadSchemas
import RestThrift.Proofs.Collisions
import RestThrift.Proofs.EnumDefaults
import RestThrift.Proofs.Shadowing
import RestThrift.Proofs.Storable
import RestThrift.Proofs.Interchange
import RestThrift.Proofs.Rewriting
import RestThrift.Proofs.Redirection
import RestThrift.Proofs.Dialects
import RestThrift.Proofs.Identifiers
import RestThrift.Proofs.Spelling
import RestThrift.Proofs.Composition
import RestThrift.Proofs.Lowering
import RestThrift.Proofs.Resolution
import RestThrift.Proofs.Reentry
import RestThrift.Proofs.Aliases
import RestThrift.Proofs.Branches
import RestThrift.Proofs.Termination
import RestThrift.Proofs.Superset
import RestThrift.Proofs.Progress
import RestThrift.Proofs.Orderly
import RestThrift.Proofs.Shapes
import RestThrift.Proofs.Resynthesis
import RestThrift.Proofs.InlineStructs
import RestThrift.Proofs.InlineEnums
import RestThrift.Proofs.BodyFields
import RestThrift.Proofs.EmptyStructs
import RestThrift.Proofs.Documentation
import RestThrift.Proofs.Comments
import RestThrift.Proofs.Printing
import RestThrift.Proofs.StringTokens
import RestThrift.Proofs.ParameterNames
import RestThrift.Proofs.KeptNames
import RestThrift.Proofs.DanglingNames
import RestThrift.Proofs.Renumbering
import RestThrift.Proofs.WriterRuns
import RestThrift.Proofs.NoComments
import RestThrift.Proofs.DefinitionKeys
import RestThrift.Proofs.TypeTexts
import RestThrift.Proofs.CamelWords
import RestThrift.Proofs.IncludeSpellings
