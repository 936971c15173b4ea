import FolGraph.Main
import FolGraph.Proofs.Formula.Position
import FolGraph.Proofs.Graph.Built
import FolGraph.Proofs.Graph.Consistency
import FolGraph.Proofs.Graph.Correspondence
import FolGraph.Proofs.Json.Written
import FolGraph.Proofs.Graph.Storage
import FolGraph.Proofs.Graph.Path
import FolGraph.Proofs.Graph.Arrangement
import FolGraph.Proofs.Graph.Spelling
import FolGraph.Proofs.Encoding.Arrival
import FolGraph.Proofs.Encoding.Scope
import FolGraph.Proofs.Encoding.Encoded
import FolGraph.Proofs.Encoding.RoundTrip
import FolGraph.Proofs.Encoding.Binding
import FolGraph.Proofs.Graph.Tally
import FolGraph.Proofs.Graph.WellFormed
import FolGraph.Proofs.Graph.Faithful
import FolGraph.Proofs.Formula.Arity
import FolGraph.Proofs.Graph.Strict
import FolGraph.Proofs.Encoding.Relabelling
import FolGraph.Proofs.Encoding.Renaming
import FolGraph.Proofs.Formula.Rearrangement
import FolGraph.Proofs.Formula.Swapping
import FolGraph.Proofs.Encoding.Isomorphism
import FolGraph.Proofs.Encoding.Verification
import FolGraph.Proofs.Export.NodeKey
import FolGraph.Proofs.Export.Drawing
import FolGraph.Proofs.Json.Unambiguous
import FolGraph.Proofs.Export.Bytes
import FolGraph.Proofs.Export.Record
import FolGraph.Proofs.Files.Paths
import FolGraph.Proofs.Graph.Dependency
import FolGraph.Proofs.Batch.Accounting
import FolGraph.Proofs.Batch.FailFast
import FolGraph.Proofs.CommandLine.Convert
import FolGraph.Proofs.Batch.Schedule
import FolGraph.Proofs.Encoding.ArcOrder
import FolGraph.Proofs.Graph.Diagnosis
import FolGraph.Proofs.Encoding.Loss
import FolGraph.Proofs.Encoding.Conversion
import FolGraph.Proofs.Export.Roles
import FolGraph.Proofs.Formula.Nesting
import FolGraph.Proofs.Text.ProblemList
import FolGraph.Proofs.Formula.Printed
import FolGraph.Proofs.Toml.Sound
import FolGraph.Proofs.Settings.Acceptance
import FolGraph.Proofs.Graph.Order
import FolGraph.Proofs.Faultless
