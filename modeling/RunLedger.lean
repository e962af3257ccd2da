import RunLedger.Binary64
import RunLedger.Entries
import RunLedger.Failure.Chain
import RunLedger.Failure.Fault
import RunLedger.Failure.SystemText
import RunLedger.File.Access
import RunLedger.File.Layout
import RunLedger.File.Path
import RunLedger.File.Tree
import RunLedger.File.Trie
import RunLedger.File.Walk
import RunLedger.Hook
import RunLedger.Identifier
import RunLedger.Json.Number
import RunLedger.Json.Token
import RunLedger.Json.Value
import RunLedger.Listener
import RunLedger.Log
import RunLedger.Output.Dir
import RunLedger.Output.Error
import RunLedger.Output.Target
import RunLedger.Parameters
import RunLedger.Parameters.Dictionary
import RunLedger.Parameters.Document
import RunLedger.Parameters.Environment
import RunLedger.Proofs.Errors
import RunLedger.Proofs.Failure.Rendering
import RunLedger.Proofs.File.Around
import RunLedger.Proofs.File.Change
import RunLedger.Proofs.File.Entries
import RunLedger.Proofs.File.Growth
import RunLedger.Proofs.File.Inside
import RunLedger.Proofs.File.Made
import RunLedger.Proofs.File.Parent
import RunLedger.Proofs.File.Root
import RunLedger.Proofs.File.Trail
import RunLedger.Proofs.File.Written
import RunLedger.Proofs.Listener.FanOut
import RunLedger.Proofs.Output.Again
import RunLedger.Proofs.Output.Content
import RunLedger.Proofs.Output.Detect
import RunLedger.Proofs.Output.Frame
import RunLedger.Proofs.Output.Order
import RunLedger.Proofs.Output.Parent
import RunLedger.Proofs.Output.Select
import RunLedger.Proofs.Output.Write
import RunLedger.Proofs.Parameters.Flag
import RunLedger.Proofs.Parameters.Flatten
import RunLedger.Proofs.Recorder.History
import RunLedger.Proofs.Recorder.ReadBack
import RunLedger.Proofs.Recorder.Relevance
import RunLedger.Proofs.Recorder.Rerun
import RunLedger.Proofs.Recorder.Run
import RunLedger.Proofs.Stream.Continuation
import RunLedger.Proofs.Stream.Grammar
import RunLedger.Proofs.Stream.Layout
import RunLedger.Proofs.Stream.Protocol
import RunLedger.Proofs.Stream.Qualified
import RunLedger.Proofs.Stream.Recorded
import RunLedger.Proofs.Stream.Report
import RunLedger.Proofs.Stream.Truncation
import RunLedger.Proofs.Text.Bytes
import RunLedger.Proofs.Text.Trim
import RunLedger.Proofs.Toml.Sorted
import RunLedger.Recorder
import RunLedger.Stream.Dispatch
import RunLedger.Stream.Error
import RunLedger.Stream.Event
import RunLedger.Stream.Line
import RunLedger.Stream.Reader
import RunLedger.Text.Digits
import RunLedger.Text.Utf8
import RunLedger.Text.Utf8.Lemmas
import RunLedger.Text.WhiteSpace
import RunLedger.Toml.Document
import RunLedger.Toml.Moment
import RunLedger.Toml.Node
import RunLedger.Toml.Printer
import RunLedger.Toml.Scalar
import RunLedger.Toml.Statement
import RunLedger.Toml.Token
import RunLedger.Toml.Value
