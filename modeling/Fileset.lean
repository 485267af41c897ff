import Fileset.Command.Basic
import Fileset.Command.Option
import Fileset.Command.Outcome
import Fileset.Command.Parse
import Fileset.Command.Run
import Fileset.Command.Select
import Fileset.Command.Test
import Fileset.Main
import Fileset.NameMap
import Fileset.Pattern.Error
import Fileset.Pattern.Gapped
import Fileset.Pattern.Glob
import Fileset.Pattern.Matcher
import Fileset.Pattern.Normal
import Fileset.Pattern.Segment
import Fileset.Proofs.Pattern.Covering
import Fileset.Proofs.Pattern.Cursor
import Fileset.Proofs.Pattern.Prefix
import Fileset.Proofs.Pattern.Row
import Fileset.Proofs.Pattern.Shape
import Fileset.Proofs.Tree.Edit
import Fileset.Proofs.Tree.Leads
import Fileset.Proofs.Tree.Reordered
import Fileset.Proofs.Tree.WellFormed
import Fileset.Proofs.Walk.Below
import Fileset.Proofs.Walk.Calls
import Fileset.Proofs.Walk.Coverage
import Fileset.Proofs.Walk.Follow
import Fileset.Proofs.Walk.Levels
import Fileset.Proofs.Walk.Listing
import Fileset.Proofs.Walk.Lockstep
import Fileset.Proofs.Walk.Order
import Fileset.Proofs.Walk.Quiet
import Fileset.Proofs.Walk.Ranked
import Fileset.Proofs.Walk.Report
import Fileset.Proofs.Walk.Selection
import Fileset.Proofs.Walk.Survey
import Fileset.Proofs.Walk.Turns
import Fileset.RelPath
import Fileset.Selection.Error
import Fileset.Selection.Home
import Fileset.Selection.Listing
import Fileset.Selection.Plan
import Fileset.Selection.Request
import Fileset.Settings.Basic
import Fileset.Settings.Document
import Fileset.Settings.Edit
import Fileset.Settings.Error
import Fileset.Settings.File
import Fileset.Settings.InPlace
import Fileset.Settings.Key
import Fileset.Settings.Listing
import Fileset.Settings.Valid
import Fileset.Settings.Warning
import Fileset.Settings.Written
import Fileset.Text.Blank
import Fileset.Text.Bytes
import Fileset.Text.Lowercase
import Fileset.Text.Lowercase.Table
import Fileset.Text.Natural
import Fileset.Text.Paint
import Fileset.Text.Quoted
import Fileset.Text.Quoted.Table
import Fileset.Toml.Layout
import Fileset.Toml.Lexis
import Fileset.Toml.Moment
import Fileset.Toml.Number
import Fileset.Toml.Quote
import Fileset.Toml.Statement
import Fileset.Toml.Strings
import Fileset.Toml.Table
import Fileset.Toml.Term
import Fileset.Toml.Value
import Fileset.Tree.Basic
import Fileset.Tree.Edit
import Fileset.Tree.Error
import Fileset.Tree.Path
import Fileset.Tree.Resolve
import Fileset.Walk.Listing
import Fileset.Walk.Options
import Fileset.Walk.Recorded
import Fileset.Walk.Rules
import Fileset.Walk.Run
import Fileset.Walk.Session
import Fileset.Walk.Trace
import Fileset.Walk.Walker
import Fileset.Proofs.Walk.Unreadable
import Fileset.Proofs.Walk.Refusal
import Fileset.Proofs.Tree.Unlinked
import Fileset.Proofs.Walk.Pruning
import Fileset.Proofs.Walk.Distribution
import Fileset.Proofs.Pattern.Subtree
import Fileset.Proofs.Walk.Filtering
import Fileset.Proofs.NameMap
import Fileset.Proofs.Settings.Valid
import Fileset.Proofs.Selection.Plan
import Fileset.Proofs.Toml.Layout
import Fileset.Proofs.Toml.Lines
import Fileset.Proofs.Toml.Table
import Fileset.Proofs.Settings.Written
import Fileset.Proofs.Tree.Stored
import Fileset.Proofs.Settings.File
import Fileset.Proofs.Command.Store
import Fileset.Proofs.Pattern.Glob
import Fileset.Proofs.Pattern.Folding
import Fileset.Proofs.Pattern.Normal
import Fileset.Proofs.Command.Roots
import Fileset.Proofs.Command.Selecting
import Fileset.Proofs.Text.Blank
import Fileset.Proofs.Text.Natural
import Fileset.Proofs.Pattern.Collapse
import Fileset.Proofs.Pattern.Reread
import Fileset.Proofs.Settings.Commas
import Fileset.Proofs.Settings.Edit
import Fileset.Proofs.Settings.InPlace
import Fileset.Proofs.Settings.WriteBack
import Fileset.Proofs.Walk.Recorded
import Fileset.Proofs.Walk.Account
import Fileset.Proofs.Walk.Linkless
import Fileset.Proofs.Text.Bytes
import Fileset.Proofs.Walk.Named
import Fileset.Proofs.Selection.Decoding
import Fileset.Proofs.Settings.Warning
import Fileset.Proofs.RelPath
import Fileset.Proofs.Pattern.Lengths
import Fileset.Proofs.Command.Trial
import Fileset.Proofs.Walk.Session
