import DataflowIR.Analysis.AlphaEquiv
import DataflowIR.Build.Workshop
import DataflowIR.Check.Lines
import DataflowIR.Check.Program
import DataflowIR.Expr.Outline
import DataflowIR.Traversal.Actions
import DataflowIR.Traversal.Printer
import DataflowIR.Traversal.SymSubst
import DataflowIR.Traversal.TransformerTable
import DataflowIR.Traversal.Visitor
import DataflowIR.Proofs.Rewrite.Trail
import DataflowIR.Proofs.Rewrite.Becomes
import DataflowIR.Proofs.Rewrite.Steps
import DataflowIR.Proofs.Rewrite.Runs
import DataflowIR.Proofs.Rewrite.Apply
import DataflowIR.Proofs.Normalize.Retention
import DataflowIR.Proofs.Fusion.Semantics
import DataflowIR.Proofs.Scoping.Checks
import DataflowIR.Proofs.Fusion.Meaning
import DataflowIR.Proofs.Scoping.Replacements
import DataflowIR.Proofs.Fusion.Operations
import DataflowIR.Proofs.Fusion.Scoping
import DataflowIR.Proofs.Lowering.Operations
import DataflowIR.Proofs.Lowering.Regular
import DataflowIR.Proofs.Lowering.Scoping
import DataflowIR.Proofs.Traversal.Balance
import DataflowIR.Proofs.Traversal.Closing
import DataflowIR.Proofs.Normalize.Placements
import DataflowIR.Proofs.Normalize.Rest
import DataflowIR.Proofs.Normalize.Passage
import DataflowIR.Proofs.Normalize.Acceptance
import DataflowIR.Proofs.Normalize.Substitution
import DataflowIR.Proofs.Scoping.Confinement
import DataflowIR.Proofs.Normalize.References
import DataflowIR.Proofs.Emission.Scoping
import DataflowIR.Proofs.Emission.Holdings
import DataflowIR.Proofs.Emission.Typing
import DataflowIR.Proofs.Scoping.Lexical
import DataflowIR.Proofs.Alpha.Equivalence
import DataflowIR.Proofs.Alpha.Renamings
import DataflowIR.Proofs.Normalize.Verdict
import DataflowIR.Proofs.Traversal.Agreement
import DataflowIR.Proofs.Normalize.Admission
import DataflowIR.Proofs.Normalize.Completion
import DataflowIR.Proofs.Fusion.Completion
import DataflowIR.Proofs.Lowering.Dataflow
import DataflowIR.Proofs.Lowering.Calls
import DataflowIR.Proofs.Lowering.Expansion
import DataflowIR.Proofs.Pipeline.Functionwise
import DataflowIR.Proofs.Traversal.Order
import DataflowIR.Proofs.Traversal.Strictness
import DataflowIR.Build.Request
import DataflowIR.Proofs.Building.Exchanges
import DataflowIR.Proofs.Building.Blocks
import DataflowIR.Proofs.Building.Records
import DataflowIR.Proofs.Building.Refusals
import DataflowIR.Proofs.Building.Names
import DataflowIR.Proofs.Building.Sharing
import DataflowIR.Proofs.Building.Undoing
import DataflowIR.Proofs.Inference.Elementwise
import DataflowIR.Proofs.Text.Placement
import DataflowIR.Proofs.Text.Reading
import DataflowIR.Proofs.Text.Indentation
import DataflowIR.Proofs.Traversal.PostOrder
import DataflowIR.Proofs.Type.Occurrences
