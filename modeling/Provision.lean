import Provision.Main
import Provision.Graph.Position
import Provision.Evaluation.Session
import Provision.Proofs.Result
import Provision.Proofs.Evaluation.Outcome
import Provision.Proofs.Graph.Growth
import Provision.Proofs.Evaluation.Course
import Provision.Proofs.Evaluation.Operations
import Provision.Proofs.Evaluation.Walk
import Provision.Proofs.Evaluation.Conformance
import Provision.Proofs.ApplyOrder
import Provision.Proofs.Evaluation.Nesting
import Provision.Proofs.Inclusion
import Provision.Proofs.Frame
import Provision.Proofs.Completion
import Provision.Proofs.Termination
import Provision.Proofs.Scope.Rewriting
import Provision.Proofs.Scope.Splitting
import Provision.Proofs.Scope.Agreement
import Provision.Proofs.Scope.Paths
import Provision.Proofs.Scope.Whole
import Provision.Proofs.Scope.Leaves
import Provision.Proofs.Scope.Occurrences
import Provision.Proofs.Evaluation.Correspondence
import Provision.Proofs.Evaluation.Surroundings
import Provision.Proofs.Independence
import Provision.Proofs.EntryPoints
import Provision.Proofs.Noninterference
import Provision.Proofs.Inlining
import Provision.Proofs.Ownership
import Provision.Proofs.Deliveries
import Provision.Proofs.Targets
import Provision.Proofs.Edges
import Provision.Proofs.Registry
import Provision.Proofs.Statement.Grammar
import Provision.Proofs.Statement.Spelling
import Provision.Proofs.Statement.Keys
import Provision.Proofs.Vocabulary
import Provision.Proofs.Json.Quotation
import Provision.Proofs.Json.Unambiguous
import Provision.Proofs.Json.Values
import Provision.Proofs.Graph.Documents
import Provision.Proofs.Reports
import Provision.Proofs.Settings
import Provision.Proofs.Construction
import Provision.Proofs.Addressing
import Provision.Proofs.Path.Folding
import Provision.Proofs.Path.Canonical
import Provision.Proofs.Path.Joining
import Provision.Proofs.Value.Documents
import Provision.Proofs.Attributes
import Provision.Proofs.Graph.Outline
import Provision.Proofs.PrintedPlan
import Provision.Proofs.LineBreaks
