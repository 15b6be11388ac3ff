import RuleProver.Alias
import RuleProver.Benchmark
import RuleProver.Buildability
import RuleProver.Chain
import RuleProver.CommandLine
import RuleProver.Composition
import RuleProver.Console
import RuleProver.Coverage
import RuleProver.Decimal
import RuleProver.Decimal.Shortest
import RuleProver.Digest
import RuleProver.Directive
import RuleProver.Expr
import RuleProver.Fault
import RuleProver.Files
import RuleProver.Functorial
import RuleProver.Goal.Step
import RuleProver.Goal.Tree
import RuleProver.History
import RuleProver.Main
import RuleProver.Message
import RuleProver.Numeral
import RuleProver.Object
import RuleProver.Object.Printer
import RuleProver.Path
import RuleProver.Profile
import RuleProver.Prover
import RuleProver.Reduction
import RuleProver.Result
import RuleProver.Round
import RuleProver.Script
import RuleProver.SelfCheck
import RuleProver.Session
import RuleProver.Symbol
import RuleProver.Text.Alphanumeric
import RuleProver.Text.Blank
import RuleProver.Text.Digit
import RuleProver.Text.Join
import RuleProver.Text.Pad
import RuleProver.Text.Printable
import RuleProver.Text.Quoted
import RuleProver.Text.Ranges
import RuleProver.Token
import RuleProver.Unification
import RuleProver.Value
import RuleProver.Value.Fingerprint
import RuleProver.Value.Reader
import RuleProver.Workload
import RuleProver.Workload.Bookkeeping
import RuleProver.Workload.Expression
import RuleProver.Workload.Replay
import RuleProver.Proofs.Equations
import RuleProver.Proofs.Freshening
import RuleProver.Proofs.GenericInstance
import RuleProver.Proofs.ComposedRules
import RuleProver.Proofs.Buildable
import RuleProver.Proofs.Heads
import RuleProver.Proofs.ProofOutline
import RuleProver.Proofs.ProofStep
import RuleProver.Proofs.Grants
import RuleProver.Proofs.Arguments
import RuleProver.Proofs.ProofRun
import RuleProver.Proofs.Marks
import RuleProver.Proofs.GroundComposition
import RuleProver.Proofs.GroundReduction
import RuleProver.Proofs.RuleApplication
import RuleProver.Proofs.Currying
import RuleProver.Proofs.ProofStatement
import RuleProver.Proofs.StatementRun
import RuleProver.Proofs.Borrowing
import RuleProver.Proofs.IndependentChecks
import RuleProver.Proofs.LiftedRule
import RuleProver.Proofs.PositionalUse
import RuleProver.Proofs.Grammar
import RuleProver.Proofs.Lexing
import RuleProver.Proofs.ReadingBack
import RuleProver.Proofs.Reachable
import RuleProver.Proofs.Undo
import RuleProver.Proofs.Journal
import RuleProver.Proofs.Imports
import RuleProver.Proofs.Rollback
import RuleProver.Proofs.UndoAll
import RuleProver.Proofs.FailedLines
import RuleProver.Proofs.MarkOrigins
import RuleProver.Proofs.GivenNames
import RuleProver.Proofs.NamedAxioms
import RuleProver.Proofs.KeptNames
import RuleProver.Proofs.ShownNames
import RuleProver.Proofs.ImportedNames
import RuleProver.Proofs.NameNotes
import RuleProver.Proofs.GoalNames
import RuleProver.Proofs.Unifiers
import RuleProver.Proofs.ChainForms
import RuleProver.Proofs.FocusScope
import RuleProver.Proofs.PatternMatching
import RuleProver.Proofs.StablePasses
import RuleProver.Proofs.VisitingOrder
import RuleProver.Proofs.BackwardTree
import RuleProver.Proofs.GoalInstances
import RuleProver.Proofs.KnownGoals
import RuleProver.Proofs.TokenPlaces
import RuleProver.Proofs.NumberNotation
import RuleProver.Proofs.RuleSymbols
import RuleProver.Proofs.GoalReplacement
import RuleProver.Proofs.RestoredNames
import RuleProver.Proofs.ExactRollback
import RuleProver.Proofs.LeftBehind
import RuleProver.Proofs.AddedBindings
import RuleProver.Proofs.CarefulProofs
