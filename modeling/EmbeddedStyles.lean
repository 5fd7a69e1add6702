import EmbeddedStyles.Main
import EmbeddedStyles.Proofs.Check.Mapping
import EmbeddedStyles.Proofs.Session.History
import EmbeddedStyles.Proofs.Session.SharedLine
import EmbeddedStyles.Proofs.Template.Mapping
import EmbeddedStyles.Proofs.Json.Reading
import EmbeddedStyles.Proofs.Worker.Call
import EmbeddedStyles.Proofs.Worker.Attribution
import EmbeddedStyles.Proofs.Json.RoundTrip
import EmbeddedStyles.Proofs.Worker.Lifecycle
import EmbeddedStyles.Proofs.Check.Report
import EmbeddedStyles.Proofs.Json.Sorting
import EmbeddedStyles.Proofs.Json.Decoding
import EmbeddedStyles.Proofs.Json.OrderedDecoding
import EmbeddedStyles.Proofs.Worker.RuleOrder
import EmbeddedStyles.Proofs.Json.Forms
import EmbeddedStyles.Proofs.Json.Skipping.Scalars
import EmbeddedStyles.Proofs.Json.Skipping.Containers
import EmbeddedStyles.Proofs.Json.Agreement
import EmbeddedStyles.Proofs.Json.Compact
import EmbeddedStyles.Proofs.Json.Inversion
import EmbeddedStyles.Proofs.Json.Records
import EmbeddedStyles.Proofs.Json.Thorough
import EmbeddedStyles.Proofs.Metadata.Decoding
import EmbeddedStyles.Proofs.Metadata.RoundTrip
import EmbeddedStyles.Proofs.Metadata.Readers
import EmbeddedStyles.Proofs.Lint.Lossless
import EmbeddedStyles.Proofs.Check.Frame
import EmbeddedStyles.Proofs.Source.ClosedForm
import EmbeddedStyles.Proofs.Stylesheet.Arrangement
import EmbeddedStyles.Proofs.Stylesheet.Growth
import EmbeddedStyles.Proofs.Json.Spacing.Scalars
import EmbeddedStyles.Proofs.Json.Spacing.Containers
import EmbeddedStyles.Proofs.Config.Comments
import EmbeddedStyles.Proofs.Marker.Language
import EmbeddedStyles.Proofs.Config.Pieces
import EmbeddedStyles.Proofs.Check.Visits
import EmbeddedStyles.Proofs.Session.Sweep
import EmbeddedStyles.Proofs.Source.Order
import EmbeddedStyles.Proofs.Source.Lines
import EmbeddedStyles.Proofs.Source.Words
import EmbeddedStyles.Proofs.Glob.Directories
import EmbeddedStyles.Proofs.FileTree.Listing
import EmbeddedStyles.Proofs.Path.Order
import EmbeddedStyles.Proofs.FileTree.Growth
import EmbeddedStyles.Proofs.Run.Discovery
import EmbeddedStyles.Proofs.FileTree.Walking
import EmbeddedStyles.Proofs.FileTree.Writing
import EmbeddedStyles.Proofs.FileTree.Joining
import EmbeddedStyles.Proofs.Check.Writing
import EmbeddedStyles.Proofs.Options.Settings
import EmbeddedStyles.Proofs.Options.Choice
import EmbeddedStyles.Proofs.Json.Characters
import EmbeddedStyles.Proofs.Worker.Framing
import EmbeddedStyles.Proofs.Worker.Readline
