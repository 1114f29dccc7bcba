import LoweringCheck.Binary.Arithmetic
import LoweringCheck.Binary.Convert
import LoweringCheck.Decimal.Layout
import LoweringCheck.Tensor.Basic
import LoweringCheck.Selection
import LoweringCheck.Text.Blank
import LoweringCheck.Text.Integer
import LoweringCheck.Text.Quoted
import LoweringCheck.Json.Lexer
import LoweringCheck.Json.Writer
import LoweringCheck.Dictionary
import LoweringCheck.Graph.Codec
import LoweringCheck.Graph.Connect
import LoweringCheck.Graph.Schedule
import LoweringCheck.Graph.Validate
import LoweringCheck.Decimal.Numeral
import LoweringCheck.Model.Predict
import LoweringCheck.Conversion.Converter
import LoweringCheck.Provider.Registry
import LoweringCheck.Comparison.Outputs
import LoweringCheck.Random.Stream
import LoweringCheck.Equivalence.Check
import LoweringCheck.Logging
import LoweringCheck.Proofs.Layer.Inference
import LoweringCheck.Proofs.Session.Calls
import LoweringCheck.Proofs.Session.Invariant
import LoweringCheck.Proofs.Session.Refusal
import LoweringCheck.Proofs.Model.Trace
import LoweringCheck.Proofs.Model.Chain
import LoweringCheck.Proofs.Model.Meaning
import LoweringCheck.Proofs.Model.Assembly
import LoweringCheck.Proofs.Layer.Execution
import LoweringCheck.Proofs.Conversion.Slices
import LoweringCheck.Proofs.Graph.Schedule
import LoweringCheck.Proofs.Graph.Order
import LoweringCheck.Proofs.Graph.Search
import LoweringCheck.Proofs.Graph.Validity
import LoweringCheck.Proofs.Graph.Connection
import LoweringCheck.Proofs.Conversion.Lowering
import LoweringCheck.Proofs.Execution.Run
import LoweringCheck.Proofs.Execution.Readiness
import LoweringCheck.Proofs.Execution.OrderIndependence
import LoweringCheck.Proofs.Operator.Uniform
import LoweringCheck.Proofs.Execution.Precision
import LoweringCheck.Proofs.Conversion.Preservation
import LoweringCheck.Proofs.Comparison.Outputs
import LoweringCheck.Proofs.Comparison.Worst
import LoweringCheck.Proofs.Comparison.Reports
import LoweringCheck.Proofs.Equivalence.Soundness
import LoweringCheck.Proofs.Json.Words
import LoweringCheck.Proofs.Json.Reading
import LoweringCheck.Proofs.Json.Scanning
import LoweringCheck.Proofs.Graph.Codec
import LoweringCheck.Proofs.Artifact.RoundTrip
import LoweringCheck.Proofs.Binary.Exact
import LoweringCheck.Proofs.Tensor.Whole
import LoweringCheck.Proofs.Tensor.Window
import LoweringCheck.Proofs.Layer.Window
import LoweringCheck.Proofs.Equivalence.Inputs
import LoweringCheck.Proofs.Conversion.Storing
import LoweringCheck.Proofs.Conversion.Acceptance
import LoweringCheck.Proofs.Equivalence.Completeness
import LoweringCheck.Proofs.Session.Naming
import LoweringCheck.Proofs.Artifact.Reals
import LoweringCheck.Proofs.Equivalence.EarlyFailures
import LoweringCheck.Proofs.Equivalence.Provenance
import LoweringCheck.Proofs.Provider.Interleaving
import LoweringCheck.Proofs.Comparison.Maxima
import LoweringCheck.Proofs.Operator.Slicing
import LoweringCheck.Proofs.Operator.Outcome
import LoweringCheck.Proofs.Layer.Agreement
import LoweringCheck.Proofs.Conversion.Amounts
import LoweringCheck.Proofs.Equivalence.Stream
import LoweringCheck.Proofs.Tensor.Composition
import LoweringCheck.Proofs.Selection
import LoweringCheck.Proofs.Text.Integer
import LoweringCheck.Proofs.Equivalence.Settings
