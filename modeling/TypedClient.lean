import TypedClient.Document.Reader
import TypedClient.Host.Tree
import TypedClient.Main
import TypedClient.Proofs.Naming.Segments
import TypedClient.Proofs.Naming.Joined
import TypedClient.Proofs.Naming.Identifiers
import TypedClient.Proofs.Naming.Methods
import TypedClient.Proofs.Naming.Recased
import TypedClient.Proofs.Client.HeldActions
import TypedClient.Proofs.Client.Conservation
import TypedClient.Proofs.Client.Routes
import TypedClient.Proofs.Client.CommonStart
import TypedClient.Proofs.Client.Places
import TypedClient.Proofs.Client.Apart
import TypedClient.Proofs.Client.Asked
import TypedClient.Proofs.Client.Relocated
import TypedClient.Proofs.Client.Prefixed
import TypedClient.Proofs.Client.Identifiers
import TypedClient.Proofs.Client.Renamed
import TypedClient.Proofs.Schema.Similar
import TypedClient.Proofs.Schema.Told
import TypedClient.Proofs.Schema.Located
import TypedClient.Proofs.Document.Trees
import TypedClient.Proofs.Document.Forest
import TypedClient.Proofs.Schema.Grown
import TypedClient.Proofs.Schema.Respelled
import TypedClient.Proofs.Document.Alike
import TypedClient.Proofs.Document.Reordered
import TypedClient.Proofs.Document.Reading
import TypedClient.Proofs.Document.Layouts
import TypedClient.Proofs.Document.Upgraded
import TypedClient.Proofs.Document.Named
import TypedClient.Proofs.Document.Operations
import TypedClient.Proofs.Document.Carried
import TypedClient.Proofs.Overridden
import TypedClient.Proofs.Document.Merged
import TypedClient.Proofs.Document.Blanked
import TypedClient.Proofs.Document.SameReading
import TypedClient.Proofs.Document.Unread
import TypedClient.Proofs.Document.Recased
import TypedClient.Proofs.Document.RecasedLayout
import TypedClient.Proofs.Document.RecasedUpgrade
import TypedClient.Proofs.Document.Aliased
import TypedClient.Proofs.Types.Written
import TypedClient.Proofs.Resolution.Walk
import TypedClient.Proofs.Resolution.Depth
import TypedClient.Proofs.Resolution.Shared
import TypedClient.Proofs.Resolution.Steps
import TypedClient.Proofs.Resolution.Calls
import TypedClient.Proofs.Resolution.Parts
import TypedClient.Proofs.Resolution.Runs
import TypedClient.Proofs.Resolution.Cycles
import TypedClient.Proofs.Resolution.Identity
import TypedClient.Proofs.Resolution.Requests
import TypedClient.Proofs.Resolution.Formed
import TypedClient.Proofs.Resolution.Lasting
import TypedClient.Proofs.Resolution.Faithful
import TypedClient.Proofs.Resolution.Finished
import TypedClient.Proofs.Resolution.Origins
import TypedClient.Proofs.Resolution.OwnTypes
import TypedClient.Proofs.Resolution.Mirrored
import TypedClient.Proofs.Resolution.Progress
import TypedClient.Proofs.Resolution.InStep
import TypedClient.Proofs.Resolution.Retried
import TypedClient.Proofs.Resolution.InFlight
import TypedClient.Proofs.Resolution.Attempts
import TypedClient.Proofs.Resolution.Standing
import TypedClient.Proofs.Resolution.Leftover
import TypedClient.Proofs.Resolution.Aliased
import TypedClient.Proofs.Resolution.Supplies
import TypedClient.Proofs.Resolution.Advances
import TypedClient.Proofs.Resolution.Objects
import TypedClient.Proofs.Resolution.PropertyTables
import TypedClient.Proofs.Resolution.StandIns
import TypedClient.Proofs.Resolution.NullUnions
import TypedClient.Proofs.Resolution.EnumMembers
import TypedClient.Proofs.Model.Entries
import TypedClient.Proofs.Model.References
import TypedClient.Proofs.Model.Mirror
import TypedClient.Proofs.Model.AnyOrder
import TypedClient.Proofs.Model.Grouped
import TypedClient.Proofs.Model.Keys
import TypedClient.Proofs.Model.Declared
import TypedClient.Proofs.Model.Imports
import TypedClient.Proofs.Model.ArrayDependencies
import TypedClient.Proofs.Reach
import TypedClient.Proofs.Graph
import TypedClient.Proofs.Model.Acyclic
import TypedClient.Proofs.Model.ExportNames
import TypedClient.Proofs.Model.Independence
import TypedClient.Proofs.Model.Applications
import TypedClient.Proofs.Client.Again
import TypedClient.Proofs.Client.Mirrored
import TypedClient.Proofs.Client.MediaTypeGrammar
import TypedClient.Proofs.Client.MediaTypes
import TypedClient.Proofs.Model.Aliases
import TypedClient.Proofs.Path.Place
import TypedClient.Proofs.Path.FileName
import TypedClient.Proofs.Path.Directory
import TypedClient.Proofs.Path.Names
import TypedClient.Proofs.Host.Ways
import TypedClient.Proofs.Host.Directories
import TypedClient.Proofs.Host.Removal
import TypedClient.Proofs.Generation.Staged
import TypedClient.Proofs.Generation.Inside
import TypedClient.Proofs.Generation.Distinct
import TypedClient.Proofs.Generation.ClientImport
import TypedClient.Proofs.Generation.ImportedNames
import TypedClient.Proofs.Generation.Emptied
import TypedClient.Proofs.CommandLine.Targets
import TypedClient.Proofs.Code.Pieces
import TypedClient.Proofs.Code.Comments
import TypedClient.Proofs.Code.UrlLiteral
import TypedClient.Proofs.Code.MemberKeys
import TypedClient.Proofs.Code.Merged
import TypedClient.Proofs.TypeName.Brackets
import TypedClient.Proofs.TypeName.Readable
import TypedClient.Proofs.TypeName.Separators
import TypedClient.Proofs.TypeName.Scoped
import TypedClient.Proofs.TypeName.Printed
import TypedClient.Proofs.Text.Decoding
import TypedClient.Proofs.Pointer.Component
import TypedClient.Proofs.Pointer.Spelled
import TypedClient.Proofs.Pointer.Followed
import TypedClient.Proofs.Formatter
import TypedClient.Proofs.Json.Grammar
import TypedClient.Proofs.Json.Reading
import TypedClient.Proofs.Config.Reading
