import TreeFold.Comment
import TreeFold.Segment
import TreeFold.FileName
import TreeFold.Text.Width
import TreeFold.Path.Lexical
import TreeFold.FileSystem.Read
import TreeFold.FileSystem.Write
import TreeFold.Glob.Parser
import TreeFold.Walk
import TreeFold.Path.Expansion
import TreeFold.Flatten
import TreeFold.Distribute
import TreeFold.SourceList
import TreeFold.Value.Basic
import TreeFold.Value.Json
import TreeFold.Value.Toml.Parser
import TreeFold.Value.Yaml.Parser
import TreeFold.Settings.Load
import TreeFold.CommandLine.Parser
import TreeFold.CommandLine.Run
import TreeFold.FileTree.Outline
import TreeFold.Main
import TreeFold.Table
import TreeFold.Text.Quoted
import TreeFold.Value.Json.Writer
import TreeFold.Proofs.Flatten.Faithful
import TreeFold.Proofs.RoundTrip
import TreeFold.Proofs.Distribute.LastWriter
import TreeFold.Proofs.FileSystem.Arrival
import TreeFold.Proofs.Distribute.Containment
import TreeFold.Proofs.Flatten.ChunkSize
import TreeFold.Proofs.DryRun
import TreeFold.Proofs.Flatten.Counts
import TreeFold.Proofs.Comment
import TreeFold.Proofs.Text.Condensed
import TreeFold.Proofs.Comment.Blocks
import TreeFold.Proofs.Segment.Stripped
import TreeFold.Proofs.Segment.LineEndings
import TreeFold.Proofs.Flatten.Header
import TreeFold.Proofs.Path.Within
import TreeFold.Proofs.CommandLine.Flatten
import TreeFold.Proofs.FileSystem.Descent
import TreeFold.Proofs.FileSystem.Again
import TreeFold.Proofs.Distribute.Again
import TreeFold.Proofs.Distribute.Counts
import TreeFold.Proofs.CommandLine.Accounts
import TreeFold.Proofs.Refusals
import TreeFold.Proofs.Flatten.Unreadable
import TreeFold.Proofs.Isolation
import TreeFold.Proofs.FileSystem.Ways
import TreeFold.Proofs.FileSystem.Commute
import TreeFold.Proofs.Reorder
import TreeFold.Proofs.Distribute.Order
import TreeFold.Proofs.Segment.Concatenation
import TreeFold.Proofs.Distribute.Concatenation
import TreeFold.Proofs.Comment.Quotes
import TreeFold.Proofs.Comment.Offset
import TreeFold.Proofs.Comment.Dissection
import TreeFold.Proofs.Comment.Stripped
import TreeFold.Proofs.Comment.Lexing
import TreeFold.Proofs.Comment.Again
import TreeFold.Proofs.Segment.Recognition
import TreeFold.Proofs.Flatten.RecordedPath
import TreeFold.Proofs.Flatten.Allocation
import TreeFold.Proofs.Comment.Piecewise
import TreeFold.Proofs.Path.Order
import TreeFold.Proofs.Path.Descendants
import TreeFold.Proofs.FileSystem.Opening
import TreeFold.Proofs.FileSystem.Children
import TreeFold.Proofs.Ignore.Silence
import TreeFold.Proofs.Walk.Meeting
import TreeFold.Proofs.Walk.Listing
import TreeFold.Proofs.Walk.Distinct
import TreeFold.Proofs.Walk.Named
import TreeFold.Proofs.Walk.Shown
import TreeFold.Proofs.Flatten.Skipping
import TreeFold.Proofs.FileTree.Nodes
import TreeFold.Proofs.FileTree.Calls
import TreeFold.Proofs.Settings.Schema
import TreeFold.Proofs.Settings.Layers
import TreeFold.Proofs.Settings.Variables
import TreeFold.Proofs.Settings.Sources
import TreeFold.Proofs.Number.Integer
import TreeFold.Proofs.Number.Characters
import TreeFold.Proofs.Settings.Verbatim
import TreeFold.Proofs.CommandLine.Listed
import TreeFold.Proofs.LineCounts
