import FormulaGraph.Workspace.Run
import FormulaGraph.Proofs.Meaning
import FormulaGraph.Proofs.Arguments
import FormulaGraph.Proofs.Undo
import FormulaGraph.Proofs.Running
import FormulaGraph.Proofs.Incremental
import FormulaGraph.Proofs.Plain
import FormulaGraph.Proofs.Rejecting
import FormulaGraph.Proofs.Applying
import FormulaGraph.Proofs.Stages
import FormulaGraph.Proofs.Counting
import FormulaGraph.Proofs.Writing
import FormulaGraph.Proofs.Rewiring
import FormulaGraph.Proofs.Mirroring
import FormulaGraph.Proofs.Cancelling
import FormulaGraph.Proofs.Peeking
import FormulaGraph.Proofs.Refusing
import FormulaGraph.Proofs.Validating
import FormulaGraph.Proofs.Saving
import FormulaGraph.Proofs.Lexing
import FormulaGraph.Proofs.Returning
import FormulaGraph.Proofs.Guarding
import FormulaGraph.Proofs.Descending
import FormulaGraph.Proofs.Locating
import FormulaGraph.Proofs.Reverting
import FormulaGraph.Proofs.Straying
import FormulaGraph.Proofs.Conforming
import FormulaGraph.Proofs.Converting
import FormulaGraph.Proofs.Overflowing
import FormulaGraph.Proofs.Separating
import FormulaGraph.Proofs.Indexing
import FormulaGraph.Proofs.Registering
import FormulaGraph.Proofs.Walking
import FormulaGraph.Proofs.Concurring
import FormulaGraph.Proofs.Fencing
import FormulaGraph.Proofs.Compounding
import FormulaGraph.Proofs.Preparing
import FormulaGraph.Proofs.Ranging
import FormulaGraph.Proofs.Halting
import FormulaGraph.Proofs.Representing
import FormulaGraph.Proofs.Agreeing
