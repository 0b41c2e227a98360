import DeskCalculator.Text.Blank
import DeskCalculator.Text.LowerCase
import DeskCalculator.Text.Lines
import DeskCalculator.Number.Text
import DeskCalculator.Number.Rounding
import DeskCalculator.Number.Factorial
import DeskCalculator.Number.CubeRoot
import DeskCalculator.Operator.Apply
import DeskCalculator.Symbol
import DeskCalculator.Source
import DeskCalculator.Token
import DeskCalculator.Reading
import DeskCalculator.Machine
import DeskCalculator.Evaluation
import DeskCalculator.Calculator
import DeskCalculator.Session
import DeskCalculator.Script
import DeskCalculator.Terminal.Typed
import DeskCalculator.CommandLine
import DeskCalculator.Main
import DeskCalculator.Proofs.Lists
import DeskCalculator.Proofs.Tokens
import DeskCalculator.Proofs.Tree
import DeskCalculator.Proofs.Builder
import DeskCalculator.Proofs.Balance
import DeskCalculator.Proofs.Borrowing
import DeskCalculator.Proofs.Completion
import DeskCalculator.Proofs.Faults
import DeskCalculator.Proofs.Isolation
import DeskCalculator.Proofs.Course
import DeskCalculator.Proofs.Grammar
import DeskCalculator.Proofs.Acceptance
import DeskCalculator.Proofs.Commas
import DeskCalculator.Proofs.Pending
import DeskCalculator.Proofs.Climbing
import DeskCalculator.Proofs.History
import DeskCalculator.Proofs.Strictness
import DeskCalculator.Proofs.Agreement
import DeskCalculator.Proofs.Naming
import DeskCalculator.Proofs.Trimming
import DeskCalculator.Proofs.LastAnswer
import DeskCalculator.Proofs.Outline
import DeskCalculator.Proofs.Replacement
import DeskCalculator.Proofs.Parallel
import DeskCalculator.Proofs.Frame
import DeskCalculator.Proofs.Dependence
import DeskCalculator.Proofs.Finiteness
import DeskCalculator.Proofs.Spelling
import DeskCalculator.Proofs.ImpliedProduct
import DeskCalculator.Proofs.Tables
import DeskCalculator.Proofs.Transcript
import DeskCalculator.Proofs.ViablePrefix
import DeskCalculator.Proofs.Earliest
import DeskCalculator.Proofs.Bindings
import DeskCalculator.Proofs.Horizon
import DeskCalculator.Proofs.Complaints
import DeskCalculator.Proofs.ExactFloats
import DeskCalculator.Proofs.Readback
import DeskCalculator.Proofs.Walks
import DeskCalculator.Proofs.Descent
import DeskCalculator.Proofs.Progress
import DeskCalculator.Proofs.Retracing
import DeskCalculator.Proofs.StackBalance
import DeskCalculator.Proofs.StackOrder
