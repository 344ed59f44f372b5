import ContentAssist.Assist
import ContentAssist.Buffer.Closers
import ContentAssist.Buffer.Parse
import ContentAssist.Buffer.Parser
import ContentAssist.Buffer.Placeholder
import ContentAssist.Catalog
import ContentAssist.CommandLine.Options
import ContentAssist.CommandLine.Request
import ContentAssist.CommandLine.Run
import ContentAssist.Completion.Description
import ContentAssist.Completion.Proposal
import ContentAssist.Completion.Site
import ContentAssist.Decimal.Binary64
import ContentAssist.Decimal.Shortest
import ContentAssist.Dependencies
import ContentAssist.Environment.Basic
import ContentAssist.Environment.Lemmas
import ContentAssist.Fault
import ContentAssist.Inference.Enter
import ContentAssist.Inference.Leave
import ContentAssist.Inference.Module
import ContentAssist.Inference.Run
import ContentAssist.Inference.State
import ContentAssist.Json.Basic
import ContentAssist.Json.Reader
import ContentAssist.Json.Writer
import ContentAssist.OrderedMap
import ContentAssist.Proofs.Completion.Agreement
import ContentAssist.Proofs.Completion.Description
import ContentAssist.Proofs.Completion.Endless
import ContentAssist.Proofs.Completion.Proposals
import ContentAssist.Proofs.Completion.Walks
import ContentAssist.Proofs.Environment.Intact
import ContentAssist.Proofs.Environment.Linked
import ContentAssist.Proofs.Environment.Sound
import ContentAssist.Proofs.Inference.Answer
import ContentAssist.Proofs.Inference.BeforeCursor
import ContentAssist.Proofs.Inference.Change
import ContentAssist.Proofs.Inference.Enter
import ContentAssist.Proofs.Inference.Halt
import ContentAssist.Proofs.Inference.Intact
import ContentAssist.Proofs.Inference.Leave
import ContentAssist.Proofs.Inference.MemberStop
import ContentAssist.Proofs.Inference.ScopeBalance
import ContentAssist.Proofs.Inference.ScopeChain
import ContentAssist.Proofs.Inference.ScopeClosing
import ContentAssist.Proofs.Inference.ScopeOpening
import ContentAssist.Proofs.Inference.Scopes
import ContentAssist.Proofs.Inference.Sound
import ContentAssist.Proofs.Record.Lookup
import ContentAssist.Proofs.Record.Names
import ContentAssist.Proofs.Record.Reachable
import ContentAssist.Proofs.Record.Resolution
import ContentAssist.Proofs.Summary.Access
import ContentAssist.Proofs.Summary.Dependencies
import ContentAssist.Proofs.Summary.Export
import ContentAssist.Proofs.Summary.Import
import ContentAssist.Proofs.Tree.Layout
import ContentAssist.Proofs.Tree.Moves
import ContentAssist.Proofs.Tree.Place
import ContentAssist.Proofs.Tree.Visit
import ContentAssist.Record.Basic
import ContentAssist.Record.Chain
import ContentAssist.Record.Reachable
import ContentAssist.Record.Wire
import ContentAssist.Sorting
import ContentAssist.SourceIndex
import ContentAssist.Text.Alphanumeric
import ContentAssist.Text.Blank
import ContentAssist.Text.DecimalDigit
import ContentAssist.Text.Integer
import ContentAssist.Text.Printable
import ContentAssist.Text.Quoted
import ContentAssist.Text.Ranges
import ContentAssist.Text.Search
import ContentAssist.Text.Uppercase
import ContentAssist.Tree.Cursor
import ContentAssist.Tree.MemberAccess
import ContentAssist.Tree.Node
import ContentAssist.Tree.Return
import ContentAssist.Tree.Walk
import ContentAssist.Ty
import ContentAssist.Main
import ContentAssist.Proofs.Environment.Closed
import ContentAssist.Proofs.Inference.Closed
import ContentAssist.Proofs.Environment.Binding
import ContentAssist.Proofs.Environment.Nearest
import ContentAssist.Proofs.Inference.AssignmentFrame
import ContentAssist.Proofs.Inference.LaterDeclaration
import ContentAssist.Proofs.Inference.NearestBinding
import ContentAssist.Proofs.Inference.Overwrite
import ContentAssist.Proofs.Record.Pruning
import ContentAssist.Proofs.Record.TypeText
import ContentAssist.Proofs.Text.Pieces
import ContentAssist.Proofs.Record.TypeCodec
import ContentAssist.Proofs.Record.RoundTrip
import ContentAssist.Proofs.Record.Refusal
import ContentAssist.Proofs.CommandLine.Inputs
import ContentAssist.Proofs.Completion.Hover
import ContentAssist.Proofs.Completion.Shown
import ContentAssist.Proofs.Tree.Identifiers
import ContentAssist.Proofs.Environment.Worded
import ContentAssist.Proofs.Environment.Unmarked
import ContentAssist.Proofs.Inference.Worded
import ContentAssist.Proofs.Completion.InternalNames
import ContentAssist.Proofs.Inference.Locals
import ContentAssist.Proofs.Summary.Sources
import ContentAssist.Proofs.Inference.Asked
import ContentAssist.Proofs.Inference.FreshNames
import ContentAssist.Proofs.Inference.FileNames
import ContentAssist.Proofs.Inference.GlobalWrites
import ContentAssist.Proofs.Summary.Globals
import ContentAssist.Proofs.Summary.Worded
import ContentAssist.Proofs.Json.Writing
import ContentAssist.Proofs.Buffer.Ranges
import ContentAssist.Proofs.Buffer.Closers
import ContentAssist.Proofs.Text.Insertion
import ContentAssist.Proofs.Buffer.Unplugging
import ContentAssist.Proofs.Completion.Refusal
import ContentAssist.Proofs.Environment.SingleChange
import ContentAssist.Proofs.Completion.FirstIdentifier
import ContentAssist.Proofs.Completion.Declarators
import ContentAssist.Proofs.Environment.Constructors
import ContentAssist.Proofs.Environment.Merging
import ContentAssist.Proofs.Completion.CallSpans
import ContentAssist.Proofs.Tree.Returns
import ContentAssist.Proofs.Tree.StackWalk
import ContentAssist.Proofs.Json.FieldOrder
import ContentAssist.Proofs.Tree.FieldOrder
import ContentAssist.Proofs.Inference.FieldOrder
import ContentAssist.Proofs.Completion.FieldOrder
import ContentAssist.Proofs.Record.Climb
import ContentAssist.Proofs.Text.Numerals
import ContentAssist.Proofs.CommandLine.Arguments
