import PracticeShell.Adventure.Basic
import PracticeShell.Adventure.Error
import PracticeShell.Adventure.Shelf
import PracticeShell.Adventure.Task
import PracticeShell.Calendar
import PracticeShell.Check.Observation
import PracticeShell.Check.Output
import PracticeShell.Check.Run
import PracticeShell.Command.Access
import PracticeShell.Command.Arguments
import PracticeShell.Command.Dispatch
import PracticeShell.Command.Listing
import PracticeShell.Command.Making
import PracticeShell.Command.Name
import PracticeShell.Command.Operands
import PracticeShell.Command.Outcome
import PracticeShell.Command.Ownership
import PracticeShell.Command.Reading
import PracticeShell.Command.Search
import PracticeShell.Command.Transfer
import PracticeShell.Command.Words
import PracticeShell.Console
import PracticeShell.Decimal.Reader
import PracticeShell.Decimal.Shortest
import PracticeShell.Disk
import PracticeShell.Environment
import PracticeShell.FileTree.Basic
import PracticeShell.FileTree.Copy
import PracticeShell.FileTree.Edit
import PracticeShell.FileTree.Node
import PracticeShell.FileTree.Places
import PracticeShell.FileTree.Structure
import PracticeShell.FileTree.View
import PracticeShell.Guard
import PracticeShell.Help
import PracticeShell.Journal
import PracticeShell.Json.Basic
import PracticeShell.Json.Literal
import PracticeShell.Json.Number
import PracticeShell.Json.Reader
import PracticeShell.Json.Writer
import PracticeShell.Login
import PracticeShell.Main
import PracticeShell.Path
import PracticeShell.Play
import PracticeShell.Program
import PracticeShell.Progress.Basic
import PracticeShell.Progress.Store
import PracticeShell.Progress.Tracker
import PracticeShell.Proofs.Adventure.Refusing
import PracticeShell.Proofs.Command.Arguments
import PracticeShell.Proofs.Command.Asking
import PracticeShell.Proofs.Command.Clauses
import PracticeShell.Proofs.Command.Closed
import PracticeShell.Proofs.Command.Copying
import PracticeShell.Proofs.Command.Fates
import PracticeShell.Proofs.Command.Finding
import PracticeShell.Proofs.Command.Granting
import PracticeShell.Proofs.Command.OffLimits
import PracticeShell.Proofs.Command.Patterns
import PracticeShell.Proofs.Command.Permitting
import PracticeShell.Proofs.Command.Removing
import PracticeShell.Proofs.Command.Reporting
import PracticeShell.Proofs.Command.Secrecy
import PracticeShell.Proofs.Command.Sifting
import PracticeShell.Proofs.Command.Spaced
import PracticeShell.Proofs.Command.Steps
import PracticeShell.Proofs.Command.Taking
import PracticeShell.Proofs.Command.Written
import PracticeShell.Proofs.Console.Editing
import PracticeShell.Proofs.Console.Masking
import PracticeShell.Proofs.Console.Paging
import PracticeShell.Proofs.Disk
import PracticeShell.Proofs.Environment.Changes
import PracticeShell.Proofs.Environment.Echoing
import PracticeShell.Proofs.Environment.Expanding
import PracticeShell.Proofs.Environment.Names
import PracticeShell.Proofs.Environment.Pieces
import PracticeShell.Proofs.Guard
import PracticeShell.Proofs.Guard.Gravity
import PracticeShell.Proofs.Guard.Moving
import PracticeShell.Proofs.Guard.Operands
import PracticeShell.Proofs.Guard.Superuser
import PracticeShell.Proofs.Json.Reading
import PracticeShell.Proofs.Json.Scalars
import PracticeShell.Proofs.Path.Abbreviating
import PracticeShell.Proofs.Path.Resolving
import PracticeShell.Proofs.Places
import PracticeShell.Proofs.Progress
import PracticeShell.Proofs.Progress.Loading
import PracticeShell.Proofs.Progress.Saving
import PracticeShell.Proofs.Progress.Separating
import PracticeShell.Proofs.Redirection.Behind
import PracticeShell.Proofs.Redirection.Opening
import PracticeShell.Proofs.Redirection.Operators
import PracticeShell.Proofs.Redirection.Quoted
import PracticeShell.Proofs.Redirection.Squeezing
import PracticeShell.Proofs.Redirection.Storing
import PracticeShell.Proofs.Redirection.Targets
import PracticeShell.Proofs.Run
import PracticeShell.Proofs.Session.Advancing
import PracticeShell.Proofs.Session.Answering
import PracticeShell.Proofs.Session.Collecting
import PracticeShell.Proofs.Session.Confirming
import PracticeShell.Proofs.Session.Consenting
import PracticeShell.Proofs.Session.Course
import PracticeShell.Proofs.Session.Editing
import PracticeShell.Proofs.Session.Elevation
import PracticeShell.Proofs.Session.Enders
import PracticeShell.Proofs.Session.Granting
import PracticeShell.Proofs.Session.Inputs
import PracticeShell.Proofs.Session.Isolation
import PracticeShell.Proofs.Session.Keeping
import PracticeShell.Proofs.Session.Lines
import PracticeShell.Proofs.Session.Modes
import PracticeShell.Proofs.Session.Overwriting
import PracticeShell.Proofs.Session.Prompting
import PracticeShell.Proofs.Session.Remembering
import PracticeShell.Proofs.Session.Resuming
import PracticeShell.Proofs.Session.Sojourns
import PracticeShell.Proofs.Session.Starting
import PracticeShell.Proofs.Session.Straying
import PracticeShell.Proofs.Session.Telling
import PracticeShell.Proofs.Session.Texts
import PracticeShell.Proofs.Session.Transferring
import PracticeShell.Proofs.Session.Trespassing
import PracticeShell.Proofs.Session.Turns
import PracticeShell.Proofs.Session.Whereabouts
import PracticeShell.Proofs.Terminal.Chunks
import PracticeShell.Proofs.Terminal.Hiding
import PracticeShell.Proofs.Terminal.Keys
import PracticeShell.Proofs.Text.Bytes
import PracticeShell.Proofs.Text.Trimming
import PracticeShell.Proofs.Tracker.Announcing
import PracticeShell.Proofs.Tracker.Calls
import PracticeShell.Proofs.Tracker.Deciding
import PracticeShell.Proofs.Tracker.Finishing
import PracticeShell.Proofs.Tracker.Percentage
import PracticeShell.Proofs.Tracker.Resuming
import PracticeShell.Proofs.Tracker.Settling
import PracticeShell.Proofs.Tree.Along
import PracticeShell.Proofs.Tree.Attaching
import PracticeShell.Proofs.Tree.Blind
import PracticeShell.Proofs.Tree.BlindCopy
import PracticeShell.Proofs.Tree.Change
import PracticeShell.Proofs.Tree.CopyTree
import PracticeShell.Proofs.Tree.Depth
import PracticeShell.Proofs.Tree.Describing
import PracticeShell.Proofs.Tree.Face
import PracticeShell.Proofs.Tree.Histories
import PracticeShell.Proofs.Tree.Making
import PracticeShell.Proofs.Tree.Moving
import PracticeShell.Proofs.Tree.Operations
import PracticeShell.Proofs.Tree.Order
import PracticeShell.Proofs.Tree.Overlay
import PracticeShell.Proofs.Tree.Proper
import PracticeShell.Proofs.Tree.Questions
import PracticeShell.Proofs.Tree.Refusing
import PracticeShell.Proofs.Tree.Steps
import PracticeShell.Proofs.Tree.Structure
import PracticeShell.Proofs.Tree.Texts
import PracticeShell.Proofs.Tree.Veil
import PracticeShell.Proofs.Tree.Views
import PracticeShell.Proofs.Tree.Walk
import PracticeShell.Proofs.Tree.Withheld
import PracticeShell.Proofs.Tree.Within
import PracticeShell.Proofs.Tree.Writing
import PracticeShell.Redirection
import PracticeShell.Regex.Basic
import PracticeShell.Regex.Matcher
import PracticeShell.Regex.Reader
import PracticeShell.Serve
import PracticeShell.Session.Basic
import PracticeShell.Session.Dispatch
import PracticeShell.Session.Meta
import PracticeShell.Session.Mode
import PracticeShell.Session.Remote
import PracticeShell.Session.Screens
import PracticeShell.Session.Submit
import PracticeShell.Session.World
import PracticeShell.Settings
import PracticeShell.Terminal
import PracticeShell.Text.Blank
import PracticeShell.Text.Case
import PracticeShell.Text.Digit
import PracticeShell.Text.Glob
import PracticeShell.Text.Intervals
import PracticeShell.Text.Letter
import PracticeShell.Text.Lines
import PracticeShell.Text.Quoted
import PracticeShell.Text.Replace
import PracticeShell.Text.Similar
import PracticeShell.Text.Utf8
import PracticeShell.Usage.Basic
import PracticeShell.Usage.Errand
import PracticeShell.Usage.Reader
