import PropertyGraph.Number.Binary64
import PropertyGraph.Number.Decimal
import PropertyGraph.Number.Hexadecimal
import PropertyGraph.Number.Scaled
import PropertyGraph.Name
import PropertyGraph.Value
import PropertyGraph.Value.Order
import PropertyGraph.Properties
import PropertyGraph.Record
import PropertyGraph.Filter
import PropertyGraph.Container.InsertionSet
import PropertyGraph.Container.InsertionMap
import PropertyGraph.Container.SetMap
import PropertyGraph.Index.Candidates
import PropertyGraph.Index.LabelBuckets
import PropertyGraph.Index.Shape
import PropertyGraph.Index.PropertyIndex
import PropertyGraph.Index.IndexCatalog
import PropertyGraph.Store
import PropertyGraph.Graph
import PropertyGraph.Graph.Selection
import PropertyGraph.Binding
import PropertyGraph.Pattern
import PropertyGraph.Pattern.Check
import PropertyGraph.Match.Error
import PropertyGraph.Match.Context
import PropertyGraph.Match.Outcome
import PropertyGraph.Match.Walk
import PropertyGraph.Match.Operator
import PropertyGraph.Match.Plan
import PropertyGraph.Match.Collector
import PropertyGraph.Match.Condition
import PropertyGraph.Match.Run
import PropertyGraph.Codec.Document
import PropertyGraph.Codec.Records
import PropertyGraph.Codec.Matches
import PropertyGraph.Codec.Numeral
import PropertyGraph.Codec.Token
import PropertyGraph.Codec.Json
import PropertyGraph.Demo
import PropertyGraph.Main
import PropertyGraph.Proofs.Container.InsertionSet
import PropertyGraph.Proofs.Container.Refinement
import PropertyGraph.Proofs.Container.InsertionMap
import PropertyGraph.Proofs.Container.SetMap
import PropertyGraph.Proofs.Value.Comparison
import PropertyGraph.Proofs.Value.PartialOrder
import PropertyGraph.Proofs.Index.PropertyIndex
import PropertyGraph.Proofs.Index.Shape
import PropertyGraph.Proofs.Index.Acceptance
import PropertyGraph.Proofs.Index.Comparable
import PropertyGraph.Proofs.Index.Ledger
import PropertyGraph.Proofs.Index.Places
import PropertyGraph.Proofs.Index.IndexCatalog
import PropertyGraph.Proofs.Index.Return
import PropertyGraph.Proofs.Index.Likeness
import PropertyGraph.Proofs.Index.LabelBuckets
import PropertyGraph.Proofs.Index.Queries
import PropertyGraph.Proofs.Store.Integrity
import PropertyGraph.Proofs.Store.Listing
import PropertyGraph.Proofs.Store.Operations
import PropertyGraph.Proofs.Store.Detachment
import PropertyGraph.Proofs.Store.Counts
import PropertyGraph.Proofs.Store.Incidence
import PropertyGraph.Proofs.Store.Reachable
import PropertyGraph.Proofs.Store.Handles
import PropertyGraph.Proofs.Graph.Mirror
import PropertyGraph.Proofs.Graph.Reachable
import PropertyGraph.Proofs.Graph.Selection
import PropertyGraph.Proofs.Graph.Evolution
import PropertyGraph.Proofs.Graph.Incidence
import PropertyGraph.Proofs.Graph.Consistency
import PropertyGraph.Proofs.Graph.Lookup
import PropertyGraph.Proofs.Graph.Handles
import PropertyGraph.Proofs.Graph.Likeness
import PropertyGraph.Proofs.Graph.Reindexing
import PropertyGraph.Proofs.Graph.Atomicity
import PropertyGraph.Proofs.Graph.Return
import PropertyGraph.Proofs.Match.Semantics
import PropertyGraph.Proofs.Match.Expansion
import PropertyGraph.Proofs.Match.Findings
import PropertyGraph.Proofs.Match.Enumeration
import PropertyGraph.Proofs.Match.Verdicts
import PropertyGraph.Proofs.Match.Contexts
import PropertyGraph.Proofs.Match.Slots
import PropertyGraph.Proofs.Match.Readings
import PropertyGraph.Proofs.Match.Scans
import PropertyGraph.Proofs.Match.Steps
import PropertyGraph.Proofs.Match.Operators
import PropertyGraph.Proofs.Match.Tasks
import PropertyGraph.Proofs.Match.Layout
import PropertyGraph.Proofs.Pattern.Check
import PropertyGraph.Proofs.Match.Shapes
import PropertyGraph.Proofs.Match.Rows
import PropertyGraph.Proofs.Match.Exactness
import PropertyGraph.Proofs.Match.Candidates
import PropertyGraph.Proofs.Match.Scoping
import PropertyGraph.Proofs.Match.Assembling
import PropertyGraph.Proofs.Match.Clauses
import PropertyGraph.Proofs.Match.Restriction
import PropertyGraph.Proofs.Match.Joining
import PropertyGraph.Proofs.Match.Stopping
import PropertyGraph.Proofs.Match.Limits
import PropertyGraph.Proofs.Match.Estimates
import PropertyGraph.Proofs.Match.Suiting
import PropertyGraph.Proofs.Match.Underway
import PropertyGraph.Proofs.Match.Backtracking
import PropertyGraph.Proofs.Match.Faults
import PropertyGraph.Proofs.Match.Outward
import PropertyGraph.Proofs.Match.Handles
import PropertyGraph.Proofs.Match.Paths
import PropertyGraph.Proofs.Match.Descent
import PropertyGraph.Proofs.Match.Rejection
import PropertyGraph.Proofs.Match.Refusal
