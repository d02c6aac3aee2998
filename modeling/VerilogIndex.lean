import VerilogIndex.Command.Arguments
import VerilogIndex.Command.Basic
import VerilogIndex.Command.Help
import VerilogIndex.Command.Run
import VerilogIndex.Config.Basic
import VerilogIndex.Config.Load
import VerilogIndex.Design.Direction
import VerilogIndex.Design.Module
import VerilogIndex.Design.Port
import VerilogIndex.Disk.Basic
import VerilogIndex.Disk.Walk
import VerilogIndex.Disk.Write
import VerilogIndex.Elaboration
import VerilogIndex.Filelist
import VerilogIndex.Generate.Declaration
import VerilogIndex.Generate.Document
import VerilogIndex.Generate.Generator
import VerilogIndex.Generate.Instantiation
import VerilogIndex.Generate.Naming
import VerilogIndex.Generate.Testbench
import VerilogIndex.Glob
import VerilogIndex.Index.Basic
import VerilogIndex.Index.Discovery
import VerilogIndex.Index.Requests
import VerilogIndex.Index.Tables
import VerilogIndex.Main
import VerilogIndex.Navigate.Hierarchy
import VerilogIndex.Navigate.Hover
import VerilogIndex.Notice
import VerilogIndex.Number.Double
import VerilogIndex.Number.Shortest
import VerilogIndex.Path
import VerilogIndex.Pattern.Basic
import VerilogIndex.Pattern.Error
import VerilogIndex.Pattern.Read
import VerilogIndex.Pattern.Scan
import VerilogIndex.Proofs.Answers
import VerilogIndex.Proofs.Blanking
import VerilogIndex.Proofs.Bookkeeping
import VerilogIndex.Proofs.Classification
import VerilogIndex.Proofs.Coalescing
import VerilogIndex.Proofs.CommentProtocol
import VerilogIndex.Proofs.Comments
import VerilogIndex.Proofs.Completion
import VerilogIndex.Proofs.Consistency
import VerilogIndex.Proofs.Convergence
import VerilogIndex.Proofs.Declared
import VerilogIndex.Proofs.Defaults
import VerilogIndex.Proofs.DepthLimit
import VerilogIndex.Proofs.Effects
import VerilogIndex.Proofs.Elaborated
import VerilogIndex.Proofs.Failures
import VerilogIndex.Proofs.Filelists
import VerilogIndex.Proofs.Files
import VerilogIndex.Proofs.FirstModule
import VerilogIndex.Proofs.HeaderGrammar
import VerilogIndex.Proofs.HeaderRoundTrip
import VerilogIndex.Proofs.HeaderStyles
import VerilogIndex.Proofs.History
import VerilogIndex.Proofs.InstanceGrammar
import VerilogIndex.Proofs.InstanceRoundTrip
import VerilogIndex.Proofs.Interleaving
import VerilogIndex.Proofs.Items
import VerilogIndex.Proofs.ListedFiles
import VerilogIndex.Proofs.Live
import VerilogIndex.Proofs.Locations
import VerilogIndex.Proofs.ModuleSources
import VerilogIndex.Proofs.Nesting
import VerilogIndex.Proofs.PageTables
import VerilogIndex.Proofs.ParameterLists
import VerilogIndex.Proofs.Parts
import VerilogIndex.Proofs.Pieces
import VerilogIndex.Proofs.Places
import VerilogIndex.Proofs.PortLists
import VerilogIndex.Proofs.PortOrder
import VerilogIndex.Proofs.ProjectFiles
import VerilogIndex.Proofs.Reachable
import VerilogIndex.Proofs.Refresh
import VerilogIndex.Proofs.Reports
import VerilogIndex.Proofs.Rescan
import VerilogIndex.Proofs.ScanOrder
import VerilogIndex.Proofs.ScanRuns
import VerilogIndex.Proofs.SheetReading
import VerilogIndex.Proofs.Spacing
import VerilogIndex.Proofs.Spellings
import VerilogIndex.Proofs.Splitting
import VerilogIndex.Proofs.Statements
import VerilogIndex.Proofs.Tables
import VerilogIndex.Proofs.TestbenchNames
import VerilogIndex.Proofs.TestbenchReading
import VerilogIndex.Proofs.TreeReading
import VerilogIndex.Proofs.Unfolding
import VerilogIndex.Proofs.Usable
import VerilogIndex.Proofs.Walk
import VerilogIndex.Proofs.Watching
import VerilogIndex.Proofs.Wiring
import VerilogIndex.Proofs.Written
import VerilogIndex.Registry
import VerilogIndex.Session.Basic
import VerilogIndex.Session.Batch
import VerilogIndex.Session.Rounds
import VerilogIndex.Session.Scan
import VerilogIndex.Source.BodyPorts
import VerilogIndex.Source.Comment
import VerilogIndex.Source.Header
import VerilogIndex.Source.Identifier
import VerilogIndex.Source.Instances
import VerilogIndex.Source.Keyword
import VerilogIndex.Source.Parameters
import VerilogIndex.Source.Ports
import VerilogIndex.Source.Position
import VerilogIndex.Source.Read
import VerilogIndex.Source.Split
import VerilogIndex.Strategy
import VerilogIndex.Table
import VerilogIndex.Text.Basic
import VerilogIndex.Text.Blank
import VerilogIndex.Text.Bracket
import VerilogIndex.Text.Case
import VerilogIndex.Text.Digit
import VerilogIndex.Text.Fold
import VerilogIndex.Text.Hidden
import VerilogIndex.Text.Label
import VerilogIndex.Text.Lines
import VerilogIndex.Text.Quoted
import VerilogIndex.Text.Utf8
import VerilogIndex.Text.Word
import VerilogIndex.Value
import VerilogIndex.Watch.Coalescer
import VerilogIndex.Watch.Event
import VerilogIndex.Watch.Watcher
import VerilogIndex.Yaml.Cursor
import VerilogIndex.Yaml.Document
import VerilogIndex.Yaml.Node
import VerilogIndex.Yaml.Scalar
import VerilogIndex.Yaml.Scan
import VerilogIndex.Yaml.Token
import VerilogIndex.Yaml.Typed
