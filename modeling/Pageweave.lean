import Pageweave.Cache
import Pageweave.CommandLine.Arguments
import Pageweave.CommandLine.Assignment
import Pageweave.CommandLine.Commands
import Pageweave.CommandLine.Options
import Pageweave.Config.Basic
import Pageweave.Config.Lookup
import Pageweave.Config.Reader
import Pageweave.Content
import Pageweave.Context
import Pageweave.Directive.Basic
import Pageweave.Directive.Scan
import Pageweave.Engine
import Pageweave.Failure.File
import Pageweave.Failure.Report
import Pageweave.Failure.View
import Pageweave.Files.Disk
import Pageweave.Files.Flat
import Pageweave.Files.Node
import Pageweave.Files.Store
import Pageweave.Json.Number
import Pageweave.Json.Parser
import Pageweave.Json.Printer
import Pageweave.Json.Token
import Pageweave.Json.Value
import Pageweave.Load.Basic
import Pageweave.Load.Source
import Pageweave.Main
import Pageweave.Notice
import Pageweave.Number.Binary64
import Pageweave.Number.Shortest
import Pageweave.Path.Basic
import Pageweave.Path.Root
import Pageweave.Proofs.Accounting
import Pageweave.Proofs.Confinement
import Pageweave.Proofs.Course
import Pageweave.Proofs.Delivery
import Pageweave.Proofs.Expansion
import Pageweave.Proofs.Failing
import Pageweave.Proofs.Guarded
import Pageweave.Proofs.History
import Pageweave.Proofs.Identity
import Pageweave.Proofs.Leftovers
import Pageweave.Proofs.Loading
import Pageweave.Proofs.Nesting
import Pageweave.Proofs.Occurrences
import Pageweave.Proofs.Pieces
import Pageweave.Proofs.Provenance
import Pageweave.Proofs.Relevance
import Pageweave.Proofs.Resolving
import Pageweave.Proofs.Run
import Pageweave.Proofs.ScriptJson
import Pageweave.Proofs.Seams
import Pageweave.Proofs.Segments
import Pageweave.Proofs.Sharing
import Pageweave.Proofs.Operations
import Pageweave.Proofs.Tags
import Pageweave.Proofs.Timeline
import Pageweave.Proofs.Tokens
import Pageweave.Script.Minify
import Pageweave.Session.Basic
import Pageweave.Snapshot
import Pageweave.Text.Base64
import Pageweave.Text.CaseFold
import Pageweave.Text.Found
import Pageweave.Text.Utf8
import Pageweave.Toml.Layout
import Pageweave.Toml.Parser
import Pageweave.Toml.Quoted
import Pageweave.Toml.Unquoted
import Pageweave.Toml.Value
import Pageweave.Proofs.Scanning
import Pageweave.Proofs.SinglePass
import Pageweave.Proofs.Limits
import Pageweave.Proofs.Overlay
import Pageweave.Proofs.Writing
import Pageweave.Proofs.Rendering
import Pageweave.Proofs.Minified
import Pageweave.Proofs.Spacing
import Pageweave.Proofs.Survival
import Pageweave.Proofs.Templates
import Pageweave.Proofs.Returns
import Pageweave.Proofs.Insertion
import Pageweave.Proofs.Assigning
import Pageweave.Proofs.Normal
import Pageweave.Proofs.Warming
import Pageweave.Proofs.KeyPaths
import Pageweave.Proofs.Repeating
import Pageweave.Proofs.Recognition
import Pageweave.Proofs.Images
import Pageweave.Proofs.DiskViews
import Pageweave.Proofs.Unterminated
