import Tenure.Diagnostic.Pretty
import Tenure.Diagnostic.Short
import Tenure.Hash.Sha256
import Tenure.Json.Field
import Tenure.Json.Read
import Tenure.Json.Write
import Tenure.Ownership.HintReport
import Tenure.Program.Accept
import Tenure.Program.Document
import Tenure.Program.Walk
import Tenure.Source.FileSet
import Tenure.Text.Blank
import Tenure.Text.Bytes
import Tenure.Text.Compose
import Tenure.Text.Letter
import Tenure.Text.Quoted
import Tenure.Text.Width
import Tenure.Ty.Syntax
import Tenure.Backend.Invariant
import Tenure.SourceMap.Lookup
import Tenure.SourceMap.Stored
import Tenure.Program.Sketch
import Tenure.Hash.Lanes
import Tenure.Pattern.Match
import Tenure.Pattern.Parse
import Tenure.Catalog.Builtin
import Tenure.Catalog.Document
import Tenure.Catalog.Match
import Tenure.Relay
import Tenure.Toolchain.Message
import Tenure.Locator
import Tenure.Repair.Apply
import Tenure.Project.Manifest
import Tenure.Release
import Tenure.Timer
import Tenure.Project.Find
import Tenure.View.Ownership
import Tenure.View.Program
import Tenure.View.SourceMap
import Tenure.Trace.Ring
import Tenure.Trace.Work
import Tenure.Toolchain.Invoke
import Tenure.Storage
import Tenure.Cache.Basic
import Tenure.Build.Progress
import Tenure.Build.Discover
import Tenure.Build.Compile
import Tenure.Build.Emit
import Tenure.Build.Native
import Tenure.View.Sketch
import Tenure.View.Catalog
import Tenure.View.Repair
import Tenure.View.Manifest
import Tenure.View.Trace
import Tenure.View.Build
import Tenure.Build.Bar
import Tenure.Build.Panel
import Tenure.Toolchain.Script
import Tenure.Cache.Stored
import Tenure.Command.Flag
import Tenure.Command.Tree
import Tenure.Command.Help
import Tenure.Command.Options
import Tenure.Command.Session
import Tenure.Command.Report
import Tenure.Command.Compile
import Tenure.Command.Reference
import Tenure.Command.Tracing
import Tenure.Command.Run
import Tenure.Main
import Tenure.Proofs.Nesting
import Tenure.Proofs.Sweep
import Tenure.Proofs.Segments
import Tenure.Proofs.Marks
import Tenure.Proofs.Declarations
import Tenure.Proofs.Passages
import Tenure.Proofs.Content
import Tenure.Proofs.Spans
import Tenure.Proofs.Lookup
import Tenure.Proofs.Encoding
import Tenure.Proofs.Positions
import Tenure.Proofs.Leaves
import Tenure.Proofs.Acts
import Tenure.Proofs.Taking
import Tenure.Proofs.Rounds
import Tenure.Proofs.Scopes
import Tenure.Proofs.Threads
import Tenure.Proofs.Mentions
import Tenure.Proofs.Settlements
import Tenure.Proofs.Modes
import Tenure.Proofs.Duplicates
import Tenure.Proofs.Repairs
import Tenure.Proofs.Accounts
import Tenure.Proofs.Targets
import Tenure.Proofs.Findings
import Tenure.Proofs.Builds
import Tenure.Proofs.Arena
import Tenure.Proofs.Traversals
import Tenure.Proofs.Writings
import Tenure.Proofs.Completion
import Tenure.Proofs.Traces
import Tenure.Proofs.Clones
import Tenure.Proofs.Roles
import Tenure.Proofs.Headers
import Tenure.Proofs.Readback
import Tenure.Proofs.Paths
import Tenure.Proofs.Renaming
import Tenure.Proofs.Reloading
import Tenure.Proofs.Relocation
import Tenure.Proofs.RelocatedAnalysis
import Tenure.Proofs.RelocatedText
import Tenure.Proofs.RelocatedMaps
import Tenure.Proofs.UnitKeys
import Tenure.Proofs.RestoredMaps
import Tenure.Proofs.Transparency
import Tenure.Proofs.Tellings
import Tenure.Proofs.TypeReading
import Tenure.Proofs.TypeGrammar
import Tenure.Proofs.TypeTexts
import Tenure.Proofs.Layouts
import Tenure.Proofs.TypeScans
import Tenure.Proofs.DomainTypes
import Tenure.Proofs.Tables
import Tenure.Proofs.CleanUnits
import Tenure.Proofs.Handovers
import Tenure.Proofs.Turns
import Tenure.Proofs.Catalogs
import Tenure.Proofs.Slots
import Tenure.Proofs.Captures
import Tenure.Proofs.Escapes
import Tenure.Proofs.Iterables
import Tenure.Proofs.Intents
import Tenure.Proofs.Introductions
import Tenure.Proofs.MutableMarks
import Tenure.Proofs.Spellings
import Tenure.Proofs.Forests
import Tenure.Proofs.Previews
import Tenure.Proofs.Queries
import Tenure.Proofs.Rings
import Tenure.Proofs.Literals
import Tenure.Proofs.Bags
