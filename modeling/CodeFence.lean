import CodeFence.Command.Arguments
import CodeFence.Command.Files
import CodeFence.Command.Path
import CodeFence.Command.Run
import CodeFence.Command.Session
import CodeFence.Config
import CodeFence.Directive
import CodeFence.Document.Event
import CodeFence.Document.Preprocessor
import CodeFence.Document.Run
import CodeFence.Document.Sweep
import CodeFence.Engine.Basic
import CodeFence.Engine.Builtin
import CodeFence.Engine.Library
import CodeFence.Engine.Plain
import CodeFence.Engine.Registry
import CodeFence.Engine.Sample
import CodeFence.Engine.Tokens
import CodeFence.Fault
import CodeFence.Fence.Block
import CodeFence.Fence.Family
import CodeFence.Fence.Span
import CodeFence.Highlighter
import CodeFence.Json.Basic
import CodeFence.Json.Reader
import CodeFence.Json.Writer
import CodeFence.Language
import CodeFence.LineRange
import CodeFence.Log
import CodeFence.Main
import CodeFence.Markup.Encoded
import CodeFence.Markup.Entity
import CodeFence.Markup.Html
import CodeFence.Markup.Numbered
import CodeFence.Markup.Properties
import CodeFence.Markup.Reading
import CodeFence.Markup.Tree
import CodeFence.Markup.Visit
import CodeFence.Placeholder
import CodeFence.Proofs.Command.Files
import CodeFence.Proofs.Command.Outputs
import CodeFence.Proofs.Command.Rejected
import CodeFence.Proofs.Command.Session
import CodeFence.Proofs.Config
import CodeFence.Proofs.Directive
import CodeFence.Proofs.Document.Accounts
import CodeFence.Proofs.Document.Again
import CodeFence.Proofs.Document.Causes
import CodeFence.Proofs.Document.Exit
import CodeFence.Proofs.Document.Hidden
import CodeFence.Proofs.Document.Listening
import CodeFence.Proofs.Document.Locality
import CodeFence.Proofs.Document.Measured
import CodeFence.Proofs.Document.Opened
import CodeFence.Proofs.Document.Page
import CodeFence.Proofs.Document.Planting
import CodeFence.Proofs.Document.Returns
import CodeFence.Proofs.Document.Rounds
import CodeFence.Proofs.Document.Stops
import CodeFence.Proofs.Document.Sweep
import CodeFence.Proofs.Engine.Library
import CodeFence.Proofs.Engine.LineCount
import CodeFence.Proofs.Engine.Plain
import CodeFence.Proofs.Engine.Registry
import CodeFence.Proofs.Engine.Rows
import CodeFence.Proofs.Engine.Sparing
import CodeFence.Proofs.Engine.Tokens
import CodeFence.Proofs.Engine.Variables
import CodeFence.Proofs.Fence.Block
import CodeFence.Proofs.Fence.Closing
import CodeFence.Proofs.Fence.Grammar
import CodeFence.Proofs.Fence.Located
import CodeFence.Proofs.Fence.Mark
import CodeFence.Proofs.Fence.Named
import CodeFence.Proofs.Fence.Opener
import CodeFence.Proofs.Flagging
import CodeFence.Proofs.Fragment
import CodeFence.Proofs.Hiding
import CodeFence.Proofs.Highlighter
import CodeFence.Proofs.Json.Grammar
import CodeFence.Proofs.Json.Reader
import CodeFence.Proofs.Json.Writer
import CodeFence.Proofs.LineRange
import CodeFence.Proofs.Markup.Encoded
import CodeFence.Proofs.Markup.Entire
import CodeFence.Proofs.Markup.Extended
import CodeFence.Proofs.Markup.History
import CodeFence.Proofs.Markup.Labels
import CodeFence.Proofs.Markup.Lines
import CodeFence.Proofs.Markup.Marks
import CodeFence.Proofs.Markup.Numbered
import CodeFence.Proofs.Markup.Properties
import CodeFence.Proofs.Markup.Reading
import CodeFence.Proofs.Markup.Unique
import CodeFence.Proofs.Overrides
import CodeFence.Proofs.Placeholder
import CodeFence.Proofs.Text.Decimal
import CodeFence.Proofs.Text.Edited
import CodeFence.Proofs.Text.Lacks
import CodeFence.Proofs.Text.Lines
import CodeFence.Proofs.Text.Occurrences
import CodeFence.Proofs.Text.Replace
import CodeFence.Proofs.Text.Substitute
import CodeFence.Proofs.Text.Trim
import CodeFence.Proofs.Text.Words
import CodeFence.Proofs.Weight
import CodeFence.Text.Basic
import CodeFence.Text.Blank
import CodeFence.Text.Decimal
import CodeFence.Text.Quoted
import CodeFence.Text.Substitute
import CodeFence.Theme
