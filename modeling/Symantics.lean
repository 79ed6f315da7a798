import Symantics.Binary64.Basic
import Symantics.Binary64.Rounded
import Symantics.Binary64.Shortest
import Symantics.Capacity
import Symantics.Decimal
import Symantics.Decoder.Basic
import Symantics.Decoder.Defect
import Symantics.Document.Basic
import Symantics.Document.Schema
import Symantics.Document.Text
import Symantics.Envelope
import Symantics.Exp
import Symantics.Failure
import Symantics.Fault
import Symantics.Interp.Basic
import Symantics.Interp.Evaluator
import Symantics.Interp.Printer
import Symantics.Interp.Product
import Symantics.Interp.Recorder
import Symantics.Interp.TreeBuilder
import Symantics.Json.Basic
import Symantics.Json.Integer
import Symantics.Json.Number
import Symantics.Json.OfValue
import Symantics.Json.Reader
import Symantics.Json.Record
import Symantics.Json.Token
import Symantics.Json.Writer
import Symantics.Log.Record
import Symantics.Log.Setup
import Symantics.Program
import Symantics.Report
import Symantics.Session
import Symantics.Settings
import Symantics.Tag
import Symantics.Template.Basic
import Symantics.Template.Fill
import Symantics.Text.Blank
import Symantics.Text.Printable
import Symantics.Text.Quoted
import Symantics.Text.UpperCase
import Symantics.Tree
import Symantics.Value.Arithmetic
import Symantics.Value.Basic
import Symantics.Value.Same
import Symantics.Value.Show
import Symantics.Proofs.Calls
import Symantics.Proofs.Replay
import Symantics.Proofs.Grammar
import Symantics.Proofs.Defects
import Symantics.Proofs.Acceptance
import Symantics.Proofs.RoundTrip
import Symantics.Proofs.JsonText
import Symantics.Proofs.Documents
import Symantics.Proofs.Sessions
import Symantics.Proofs.Listing
import Symantics.Proofs.Products
import Symantics.Proofs.Evaluation
import Symantics.Proofs.Safety
import Symantics.Proofs.Extension
import Symantics.Proofs.Canonical
import Symantics.Proofs.Merging
import Symantics.Proofs.Rounds
import Symantics.Proofs.JsonBounds
import Symantics.Proofs.Loading
import Symantics.Proofs.FaultLog
import Symantics.Proofs.SuccessLog
import Symantics.Proofs.MissingMul
import Symantics.Proofs.Rendering
import Symantics.Proofs.DepthLimit
import Symantics.Proofs.Overflows
import Symantics.Proofs.Literals
import Symantics.Proofs.Outlines
import Symantics.Proofs.Counterparts
import Symantics.Proofs.LogLines
import Symantics.Proofs.Handlers
