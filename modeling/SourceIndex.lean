import SourceIndex.Analysis.Reading
import SourceIndex.Analysis.Writing
import SourceIndex.Main
import SourceIndex.Scan.Paths
import SourceIndex.Watch.ChangeQueue
import SourceIndex.Watch.RunGuard
import SourceIndex.Proofs.Definition.Recognition
import SourceIndex.Proofs.Definition.Findings
import SourceIndex.Proofs.Definition.Nesting
import SourceIndex.Proofs.Definition.Parents
import SourceIndex.Proofs.Definition.ScopeKinds
import SourceIndex.Proofs.Store.FileMap
import SourceIndex.Proofs.Store.Mirroring
import SourceIndex.Proofs.Store.Answers
import SourceIndex.Proofs.Json.Numerals
import SourceIndex.Proofs.Json.Spelling
import SourceIndex.Proofs.Json.RoundTrip
import SourceIndex.Proofs.Store.Refinement
import SourceIndex.Proofs.Analysis.Identity
import SourceIndex.Proofs.Store.Views
import SourceIndex.Proofs.Walk.Places
import SourceIndex.Proofs.Scan.Indexing
import SourceIndex.Proofs.Scan.Runs
import SourceIndex.Proofs.Scan.Results
import SourceIndex.Proofs.Scan.Agreement
import SourceIndex.Proofs.Walk.Admission
import SourceIndex.Proofs.File.Spelling
import SourceIndex.Proofs.Scan.Standing
import SourceIndex.Proofs.Store.Entries
import SourceIndex.Proofs.Scan.Calls
import SourceIndex.Proofs.Scan.Sequences
import SourceIndex.Proofs.Scan.Watching
import SourceIndex.Proofs.Scan.Effects
import SourceIndex.Proofs.Scan.Finishing
import SourceIndex.Proofs.Scan.Following
import SourceIndex.Proofs.Definition.Order
import SourceIndex.Proofs.Dependency.Numbering
import SourceIndex.Proofs.Decimal.WholeNumbers
import SourceIndex.Proofs.Decimal.WholeTexts
import SourceIndex.Proofs.Complexity.Bounds
import SourceIndex.Proofs.Analysis.Lossless
import SourceIndex.Proofs.Analysis.Distinctness
import SourceIndex.Proofs.Scan.Reflection
import SourceIndex.Proofs.Scan.Convergence
import SourceIndex.Proofs.Scan.Refusals
import SourceIndex.Proofs.Scan.Steps
import SourceIndex.Proofs.Scan.Removals
import SourceIndex.Proofs.Scan.Batching
import SourceIndex.Proofs.Scan.Vectors
import SourceIndex.Proofs.Scan.Accounting
import SourceIndex.Proofs.Scan.Resident
import SourceIndex.Proofs.Scan.Rescan
import SourceIndex.Proofs.Scan.Oversize
import SourceIndex.Proofs.Chunk.Windows
import SourceIndex.Proofs.Chunk.Regions
import SourceIndex.Proofs.Lexicon.Inside
import SourceIndex.Proofs.Definition.Headings
import SourceIndex.Proofs.Definition.CommentText
import SourceIndex.Proofs.Dependency.Starts
import SourceIndex.Proofs.Text.Lines
import SourceIndex.Proofs.Chunk.Offsets
import SourceIndex.Proofs.Store.Acknowledgements
import SourceIndex.Proofs.Store.Extractions
import SourceIndex.Proofs.Definition.Extents
import SourceIndex.Proofs.Scan.Failures
import SourceIndex.Proofs.Scan.Progress
import SourceIndex.Proofs.Watch.Histories
import SourceIndex.Proofs.Store.Projects
import SourceIndex.Proofs.Scan.Clients
import SourceIndex.Proofs.Scan.Sessions
import SourceIndex.Proofs.Scan.Independence
import SourceIndex.Proofs.Code.Depths
import SourceIndex.Proofs.Definition.Depths
import SourceIndex.Proofs.Definition.BlockEnds
import SourceIndex.Proofs.Watch.Tickets
import SourceIndex.Proofs.Project.Handles
import SourceIndex.Proofs.Definition.Operations
import SourceIndex.Proofs.Definition.Causality
import SourceIndex.Proofs.Definition.Keywords
import SourceIndex.Proofs.Definition.Enclosure
import SourceIndex.Proofs.Definition.Statements
import SourceIndex.Proofs.Definition.IndentedBlocks
import SourceIndex.Proofs.Definition.IndentedBlockEnds
import SourceIndex.Proofs.Lexicon.Strings
import SourceIndex.Proofs.Markup.Regions
import SourceIndex.Proofs.Definition.QualifiedNames
import SourceIndex.Proofs.Complexity.LineClasses
import SourceIndex.Proofs.Pattern.Stretches
import SourceIndex.Proofs.Text.Trimming
import SourceIndex.Proofs.Markup.Elements
import SourceIndex.Proofs.Pattern.Preference
import SourceIndex.Proofs.Dependency.Moving
import SourceIndex.Proofs.Dependency.Joining
import SourceIndex.Proofs.Dependency.ExportLists
import SourceIndex.Proofs.Code.Entries
import SourceIndex.Proofs.Text.Words
import SourceIndex.Proofs.Definition.Defaults
import SourceIndex.Proofs.Dependency.NamedImports
import SourceIndex.Proofs.Dependency.ImportComments
import SourceIndex.Proofs.Complexity.Growth
import SourceIndex.Proofs.Scan.Listings
import SourceIndex.Proofs.Scan.Holdings
import SourceIndex.Proofs.Scan.Vacancies
import SourceIndex.Proofs.Scan.Aftermath
import SourceIndex.Proofs.Scan.Sizes
import SourceIndex.Proofs.Scan.Arrivals
import SourceIndex.Proofs.Chunk.Arithmetic
import SourceIndex.Proofs.Embedding.Bytes
import SourceIndex.Proofs.Config.RoundTrip
import SourceIndex.Proofs.Exclusion.Below
import SourceIndex.Proofs.Exclusion.Names
