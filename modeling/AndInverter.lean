import AndInverter.Aiger.Printer
import AndInverter.Aiger.Reader
import AndInverter.Circuit.Edit
import AndInverter.Circuit.Reduction
import AndInverter.Circuit.Sharing
import AndInverter.Circuit.Sweep
import AndInverter.Circuit.Trivial
import AndInverter.Report
import AndInverter.Sat.Answer
import AndInverter.Simulation
import AndInverter.Proofs.Acyclic
import AndInverter.Proofs.Audit
import AndInverter.Proofs.Classes
import AndInverter.Proofs.Contraction
import AndInverter.Proofs.DepthFirst
import AndInverter.Proofs.Edit
import AndInverter.Proofs.Encoding
import AndInverter.Proofs.FunctionalReduction
import AndInverter.Proofs.Integrity
import AndInverter.Proofs.LiveGates
import AndInverter.Proofs.LiveOrder
import AndInverter.Proofs.Ordered
import AndInverter.Proofs.Passes
import AndInverter.Proofs.Pipeline
import AndInverter.Proofs.Preservation
import AndInverter.Proofs.Preservation.Construction
import AndInverter.Proofs.Preservation.Reduction
import AndInverter.Proofs.Preservation.Sharing
import AndInverter.Proofs.Preservation.Sweep
import AndInverter.Proofs.Preservation.Trivial
import AndInverter.Proofs.Reduction
import AndInverter.Proofs.Sequencing
import AndInverter.Proofs.Session
import AndInverter.Proofs.Sharing
import AndInverter.Proofs.Sharing.Congruence
import AndInverter.Proofs.Simplification
import AndInverter.Proofs.Simulation
import AndInverter.Proofs.Value
import AndInverter.Proofs.WellFormed
import AndInverter.Proofs.WellFormed.Build
import AndInverter.Proofs.WellFormed.Reader
import AndInverter.Proofs.WellFormed.Redirect
import AndInverter.Proofs.WellFormed.Sweep
import AndInverter.Proofs.LiveCone
import AndInverter.Proofs.Merge
import AndInverter.Proofs.Simulation.Pattern
import AndInverter.Proofs.Encoding.Exact
import AndInverter.Proofs.Encoding.Refusal
import AndInverter.Proofs.Text.Numeral
import AndInverter.Proofs.Aiger.Description
import AndInverter.Proofs.Aiger.Grammar
import AndInverter.Proofs.Aiger.Sections
import AndInverter.Proofs.Aiger.Acceptance
import AndInverter.Proofs.Aiger.Denotation
import AndInverter.Proofs.Text.Layout
import AndInverter.Proofs.Aiger.Writable
import AndInverter.Proofs.Aiger.Rendering
import AndInverter.Proofs.Aiger.Printing
import AndInverter.Proofs.Aiger.Unambiguous
import AndInverter.Proofs.Aiger.RoundTrip
import AndInverter.Proofs.Aiger.Literals
import AndInverter.Proofs.Reduction.Schedule
import AndInverter.Proofs.Reduction.AnyOracle
import AndInverter.Proofs.Grouping
import AndInverter.Proofs.Shrinking
import AndInverter.Proofs.Reduction.Recording
import AndInverter.Proofs.Reduction.Transcript
import AndInverter.Proofs.Reduction.Queries
import AndInverter.Proofs.Reduction.Failure
import AndInverter.Proofs.Reduction.Coverage
import AndInverter.Proofs.Simulation.Sampling
import AndInverter.Proofs.Simulation.Course
import AndInverter.Proofs.Simulation.Exact
import AndInverter.Proofs.Walk.Recursion
import AndInverter.Proofs.Walk.Calls
import AndInverter.Proofs.LiveOrder.Listing
import AndInverter.Proofs.Sweep.Exact
import AndInverter.Proofs.Simulation.Groups
import AndInverter.Proofs.Report.Lines
import AndInverter.Proofs.Report.Cone
import AndInverter.Proofs.Simulation.Interrupted
import AndInverter.Proofs.Simulation.Refinement
import AndInverter.Proofs.Building
import AndInverter.Proofs.Aiger.Building
import AndInverter.Proofs.Walk.Duality
import AndInverter.Proofs.Report.Peers
