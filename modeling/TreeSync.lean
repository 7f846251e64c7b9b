import TreeSync.Apply.Basic
import TreeSync.Apply.Dispatch
import TreeSync.CommandLine.Arguments
import TreeSync.CommandLine.EventLine
import TreeSync.CommandLine.Run
import TreeSync.CommandLine.Table
import TreeSync.Document.Basic
import TreeSync.Document.Text
import TreeSync.Entries
import TreeSync.ErrorKind
import TreeSync.Event.Action
import TreeSync.Event.Basic
import TreeSync.Event.Error
import TreeSync.Event.Tag
import TreeSync.Event.Wire
import TreeSync.Json.Basic
import TreeSync.Json.Fault
import TreeSync.Json.Location
import TreeSync.Json.Number
import TreeSync.Json.Printer
import TreeSync.Json.Reader
import TreeSync.Main
import TreeSync.Navigate.Direct
import TreeSync.Navigate.Element
import TreeSync.Navigate.Error
import TreeSync.Navigate.Field
import TreeSync.Navigate.Find
import TreeSync.Navigate.Materialize
import TreeSync.Navigate.Mode
import TreeSync.Navigate.Remove
import TreeSync.Navigate.Write
import TreeSync.Node.Address
import TreeSync.Node.Basic
import TreeSync.Node.Container
import TreeSync.Node.DebugText
import TreeSync.Node.Equality
import TreeSync.Node.MapKey
import TreeSync.Node.Ty
import TreeSync.Number.Binary
import TreeSync.Number.FloatLiteral
import TreeSync.Number.Integer
import TreeSync.Number.Layout
import TreeSync.Number.Shortest
import TreeSync.Options.Basic
import TreeSync.Options.Wire
import TreeSync.Path.Bracket
import TreeSync.Path.Error
import TreeSync.Path.Key
import TreeSync.Path.KeyText
import TreeSync.Path.Segments
import TreeSync.Proofs.Replica.Batches
import TreeSync.Replica.Basic
import TreeSync.Replica.Journal
import TreeSync.Scalar.Basic
import TreeSync.Scalar.Convert
import TreeSync.Scalar.Error
import TreeSync.Scalar.Kind
import TreeSync.Scalar.Slot
import TreeSync.Schema.Basic
import TreeSync.Schema.Eager
import TreeSync.Schema.Override
import TreeSync.Text.Blank
import TreeSync.Text.Quoted
import TreeSync.Text.Shapeless
import TreeSync.Proofs.Entries.Ascending
import TreeSync.Proofs.Node.KeyOrder
import TreeSync.Proofs.Node.Layers
import TreeSync.Proofs.Node.Typed
import TreeSync.Proofs.Navigate.Places
import TreeSync.Proofs.Schema.Building
import TreeSync.Proofs.Apply.Probe
import TreeSync.Proofs.Apply.Documents
import TreeSync.Proofs.Navigate.Keeping
import TreeSync.Proofs.Apply.Keeping
import TreeSync.Proofs.Apply.Lifting
import TreeSync.Proofs.Apply.Walking
import TreeSync.Proofs.Apply.Locality
import TreeSync.Proofs.Apply.Fresh
import TreeSync.Proofs.Apply.Frames
import TreeSync.Proofs.Apply.Commuting
import TreeSync.Proofs.Path.Bracketed
import TreeSync.Proofs.Node.Sameness
import TreeSync.Proofs.Schema.Matching
import TreeSync.Proofs.Entries.FirstMatch
import TreeSync.Proofs.Apply.ContentKeys
import TreeSync.Proofs.Apply.Deleting
import TreeSync.Proofs.Apply.Framing
import TreeSync.Proofs.Apply.ReadOnly
import TreeSync.Proofs.Navigate.Outlined
import TreeSync.Proofs.Apply.Unread
import TreeSync.Proofs.Apply.Asking
import TreeSync.Proofs.Apply.Overrides
import TreeSync.Proofs.Replica.History
import TreeSync.Proofs.Apply.Visiting
import TreeSync.Proofs.Apply.Ownership
import TreeSync.Proofs.Apply.Rewriting
import TreeSync.Proofs.Apply.Looping
import TreeSync.Proofs.Apply.Refinding
import TreeSync.Proofs.Apply.Repeating
import TreeSync.Proofs.Document.KeyTree
import TreeSync.Proofs.Path.Joining
import TreeSync.Proofs.Replica.Chained
import TreeSync.Proofs.Node.Retaining
import TreeSync.Proofs.Navigate.Retaining
import TreeSync.Proofs.Navigate.Reading
import TreeSync.Proofs.Apply.Rejecting
import TreeSync.Proofs.Json.Reading
import TreeSync.Proofs.Event.Rereading
import TreeSync.Proofs.Navigate.Described
import TreeSync.Proofs.Apply.Members
import TreeSync.Proofs.Replica.Outcomes
import TreeSync.Proofs.CommandLine.Replaying
import TreeSync.Proofs.CommandLine.Tables
import TreeSync.Proofs.Path.Scanning
import TreeSync.Proofs.Path.Rereading
import TreeSync.Proofs.Navigate.Scalars
import TreeSync.Proofs.Navigate.Failing
import TreeSync.Proofs.Entries.Sorted
import TreeSync.Proofs.Node.Form
import TreeSync.Proofs.Node.Comparing
import TreeSync.Proofs.Node.Canonical
import TreeSync.Proofs.Apply.Suffixes
import TreeSync.Proofs.Navigate.Agreeing
import TreeSync.Proofs.Apply.Making
import TreeSync.Proofs.Apply.Removing
import TreeSync.Proofs.Apply.Overwriting
import TreeSync.Proofs.Apply.Undoing
import TreeSync.Proofs.Scalar.Integers
import TreeSync.Proofs.Scalar.Lasting
import TreeSync.Proofs.Navigate.Payloads
import TreeSync.Proofs.Navigate.Converted
import TreeSync.Proofs.Apply.Naming
import TreeSync.Proofs.Apply.Delivering
import TreeSync.Proofs.Number.Literals
import TreeSync.Proofs.Scalar.Literals
import TreeSync.Proofs.Scalar.Storing
import TreeSync.Proofs.Apply.Root
import TreeSync.Proofs.Schema.Assigning
import TreeSync.Proofs.Path.Grammar
import TreeSync.Proofs.Path.Splitting
import TreeSync.Proofs.Path.Quoting
import TreeSync.Proofs.Schema.Allocating
import TreeSync.Proofs.Navigate.FiniteMaps
import TreeSync.Proofs.Json.Numbers
import TreeSync.Proofs.Document.Rereading
import TreeSync.Path.Spans
import TreeSync.Proofs.Path.Slicing
import TreeSync.Proofs.Path.Spans
