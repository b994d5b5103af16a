import ClauseForest.Boosting.Ensemble
import ClauseForest.Boosting.InPlace
import ClauseForest.Boosting.Loss
import ClauseForest.Boosting.Training
import ClauseForest.Command.Basic
import ClauseForest.Command.Options
import ClauseForest.Command.Report
import ClauseForest.Command.Run
import ClauseForest.Dataset.Basic
import ClauseForest.Dataset.Lines
import ClauseForest.Dataset.Load
import ClauseForest.Dataset.ValueTable
import ClauseForest.Decimal.Binary
import ClauseForest.Decimal.Layout
import ClauseForest.Decimal.Places
import ClauseForest.Decimal.Reader
import ClauseForest.Decimal.Shortest
import ClauseForest.Files.FileTree
import ClauseForest.Files.Path
import ClauseForest.Json.Number
import ClauseForest.Json.Printer
import ClauseForest.Json.Reader
import ClauseForest.Json.Value
import ClauseForest.Logic.Bindings
import ClauseForest.Logic.Rule
import ClauseForest.Logic.RuleBase
import ClauseForest.Logic.Term
import ClauseForest.Logic.Variable
import ClauseForest.Main
import ClauseForest.Mode.Decl
import ClauseForest.Mode.Descent
import ClauseForest.Mode.Reader
import ClauseForest.Mode.Token
import ClauseForest.Model.Basic
import ClauseForest.Model.Reader
import ClauseForest.Proofs.Logic.Grounding
import ClauseForest.Proofs.Logic.Printable
import ClauseForest.Prover.Branch
import ClauseForest.Prover.Counting
import ClauseForest.Prover.Repetition
import ClauseForest.Prover.Search
import ClauseForest.Refinement.Candidates
import ClauseForest.Refinement.VariableTypes
import ClauseForest.Text.Blank
import ClauseForest.Text.Hidden
import ClauseForest.Text.Pieces
import ClauseForest.Text.Quoted
import ClauseForest.Tree.Basic
import ClauseForest.Tree.Builder
import ClauseForest.Tree.Growth
import ClauseForest.Tree.Leaf
import ClauseForest.Proofs.Logic.Matching
import ClauseForest.Proofs.Logic.Unification
import ClauseForest.Proofs.Prover.LeastModel
import ClauseForest.Proofs.Prover.Soundness
import ClauseForest.Proofs.Prover.Completeness
import ClauseForest.Proofs.Prover.Termination
import ClauseForest.Proofs.Prover.FactBase
import ClauseForest.Proofs.Prover.HandBack
import ClauseForest.Proofs.Mode.WellFormed
import ClauseForest.Proofs.Dataset.Background
import ClauseForest.Proofs.Tree.Answering
import ClauseForest.Proofs.Tree.Clauses
import ClauseForest.Proofs.Tree.Coverage
import ClauseForest.Proofs.Tree.Agreement
import ClauseForest.Proofs.Prover.StepLimit
import ClauseForest.Proofs.Prover.Threshold
import ClauseForest.Proofs.Prover.Dependencies
import ClauseForest.Proofs.Prover.Monotonicity
import ClauseForest.Proofs.Prover.Settling
import ClauseForest.Proofs.Tree.Settling
import ClauseForest.Proofs.Dataset.Values
import ClauseForest.Proofs.Boosting.Termination
import ClauseForest.Proofs.Tree.Visits
import ClauseForest.Proofs.Tree.Partition
import ClauseForest.Proofs.Decimal.Order
import ClauseForest.Proofs.Tree.Builder
import ClauseForest.Proofs.Tree.Induction
import ClauseForest.Proofs.Prover.Precedence
import ClauseForest.Proofs.Prover.Renaming
import ClauseForest.Proofs.Boosting.StepLimit
import ClauseForest.Proofs.Dataset.History
import ClauseForest.Proofs.Dataset.Target
import ClauseForest.Proofs.Boosting.Gradients
import ClauseForest.Proofs.Tree.Named
import ClauseForest.Proofs.Dataset.Assignment
import ClauseForest.Proofs.Decimal.Layout
import ClauseForest.Proofs.Tree.Records
import ClauseForest.Proofs.Json.Number
import ClauseForest.Proofs.Model.Saving
import ClauseForest.Proofs.Files.Keeping
import ClauseForest.Proofs.Dataset.Load
import ClauseForest.Proofs.Model.Learned
import ClauseForest.Proofs.Command.Basic
import ClauseForest.Proofs.Command.Help
import ClauseForest.Proofs.Command.Saved
import ClauseForest.Proofs.Decimal.Rounding
import ClauseForest.Proofs.Json.Magnitude
import ClauseForest.Proofs.Prover.Failure
import ClauseForest.Proofs.Tree.Failure
import ClauseForest.Proofs.Dataset.Validation
import ClauseForest.Proofs.Tree.Validation
import ClauseForest.Proofs.Boosting.Failure
import ClauseForest.Proofs.Boosting.Validation
import ClauseForest.Proofs.Tree.Distinctness
import ClauseForest.Proofs.Tree.Specificity
import ClauseForest.Proofs.Refinement.Enumeration
import ClauseForest.Proofs.Refinement.Selection
import ClauseForest.Proofs.Refinement.Typing
import ClauseForest.Proofs.Tree.Typing
import ClauseForest.Proofs.Mode.Lexing
import ClauseForest.Proofs.Mode.Grammar
import ClauseForest.Proofs.Mode.Reading
import ClauseForest.Proofs.Mode.Printing
import ClauseForest.Proofs.Mode.Descent
import ClauseForest.Proofs.Logic.HeadIndex
import ClauseForest.Proofs.Prover.Lookup
import ClauseForest.Proofs.Logic.OpenRule
import ClauseForest.Proofs.Tree.Reached
import ClauseForest.Proofs.Tree.ClauseTexts
import ClauseForest.Proofs.Dataset.Bookkeeping
import ClauseForest.Proofs.Boosting.ExampleLines
import ClauseForest.Proofs.Logic.NameSearch
import ClauseForest.Proofs.Dataset.Naming
import ClauseForest.Proofs.Text.Trimming
import ClauseForest.Proofs.Dataset.Lines
