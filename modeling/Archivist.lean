import Archivist.Archive.Leaf
import Archivist.Archive.Reader
import Archivist.Archive.Writer
import Archivist.Attempt
import Archivist.Derive.Draft
import Archivist.Derive.Expansion
import Archivist.Derive.Item
import Archivist.Derive.Manifest
import Archivist.Derive.Options
import Archivist.Derive.Printer
import Archivist.Document
import Archivist.Error
import Archivist.Event
import Archivist.Files.Basic
import Archivist.Files.Path
import Archivist.Json.Basic
import Archivist.Json.Parser
import Archivist.Json.Printer
import Archivist.Loading
import Archivist.Number.Binary
import Archivist.Number.Decimal
import Archivist.Number.Numeral
import Archivist.Number.Shortest
import Archivist.Proofs.Archive.Reader
import Archivist.Proofs.Loading.Advance
import Archivist.Proofs.Loading.Confinement
import Archivist.Proofs.Loading.Coupling
import Archivist.Proofs.Loading.Lasting
import Archivist.Proofs.Loading.Locality
import Archivist.Proofs.Loading.Polymorphic
import Archivist.Proofs.Loading.Principle
import Archivist.Proofs.Loading.Replay
import Archivist.Proofs.Loading.Stability
import Archivist.Proofs.Number.Exact
import Archivist.Proofs.Registry.Growth
import Archivist.Proofs.Registry.History
import Archivist.Proofs.Registry.Interleaving
import Archivist.Proofs.Reordering.Documents
import Archivist.Proofs.Reordering.Maps
import Archivist.Proofs.Reordering.Outcome
import Archivist.Proofs.Reordering.Steps
import Archivist.Proofs.RoundTrip.Depth
import Archivist.Proofs.RoundTrip.Fits
import Archivist.Proofs.RoundTrip.Maps
import Archivist.Proofs.RoundTrip.Offers
import Archivist.Proofs.RoundTrip.Reading
import Archivist.Proofs.RoundTrip.Records
import Archivist.Proofs.RoundTrip.Recovery
import Archivist.Proofs.RoundTrip.Sequences
import Archivist.Proofs.RoundTrip.Shape
import Archivist.Proofs.Saving.Composition
import Archivist.Proofs.Saving.Effect
import Archivist.Proofs.Saving.EntryOrder
import Archivist.Proofs.Saving.Written
import Archivist.Proofs.Schema.Entries
import Archivist.Registry.Basic
import Archivist.Registry.Shared
import Archivist.Sample.Basic
import Archivist.Sample.Records
import Archivist.Saving
import Archivist.Schema.Basic
import Archivist.Schema.Declare
import Archivist.Schema.Ty
import Archivist.Schema.TypeText
import Archivist.Schema.Value
import Archivist.Slot
import Archivist.Source.Attribute
import Archivist.Source.Declaration
import Archivist.Source.Expression
import Archivist.Source.Generics
import Archivist.Source.Literal
import Archivist.Source.Reading
import Archivist.Source.Scan
import Archivist.Source.Token
import Archivist.Source.Type
import Archivist.Table
import Archivist.Text.GraphemeExtend
import Archivist.Text.IdentifierContinue
import Archivist.Text.IdentifierStart
import Archivist.Text.Quoted
import Archivist.Text.Unprintable
import Archivist.Toml.Outline
import Archivist.Toml.Reader
import Archivist.Toml.Scalar
import Archivist.Toml.Section
import Archivist.WordHash
import Archivist.Proofs.Json.Parts
import Archivist.Proofs.Json.Reading
import Archivist.Proofs.Document.TextPath
import Archivist.Proofs.Files.SavedFile
import Archivist.Proofs.Saving.Tags
import Archivist.Proofs.Json.Parsed
import Archivist.Proofs.Loading.Success
import Archivist.Proofs.WriteBack.Writable
import Archivist.Proofs.WriteBack.Nodes
import Archivist.Proofs.WriteBack.Records
import Archivist.Proofs.WriteBack.Outcome
import Archivist.Proofs.Archive.Scripts
import Archivist.Proofs.Archive.Writer
import Archivist.Proofs.Saving.References
import Archivist.Proofs.Loading.Visits
import Archivist.Proofs.Archive.Walk
import Archivist.Proofs.Loading.Forgetting
import Archivist.Proofs.Loading.Framing
import Archivist.Proofs.Loading.Unfolding
import Archivist.Proofs.Loading.Aftermath
import Archivist.Proofs.Loading.Remains
import Archivist.Proofs.Loading.Settled
import Archivist.Proofs.Loading.Descent
import Archivist.Proofs.Tolerance.Names
import Archivist.Proofs.Tolerance.Removal
import Archivist.Proofs.Tolerance.Loads
import Archivist.Proofs.Tolerance.Failing
import Archivist.Proofs.Tolerance.Outcome
import Archivist.Proofs.Tolerance.Unknown
import Archivist.Proofs.Loading.Recursion
import Archivist.Proofs.Document.Maps
import Archivist.Proofs.Document.Inlining
import Archivist.Proofs.Files.Replacement
import Archivist.Proofs.Toml.Listing
import Archivist.Proofs.Derive.Resolution
import Archivist.Proofs.Derive.FirstFault
import Archivist.Proofs.Derive.Attributes
import Archivist.Proofs.Derive.Allowed
import Archivist.Proofs.Derive.Members
import Archivist.Proofs.Derive.Agreement
import Archivist.Proofs.Derive.Acceptance
import Archivist.Proofs.Document.Integers
import Archivist.Proofs.WordHash.Widths
