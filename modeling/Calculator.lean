import Calculator.Main
import Calculator.Proofs.Arith.Reading
import Calculator.Proofs.Formula.Reading
import Calculator.Proofs.Formula.Grammar
import Calculator.Proofs.Formula.Derivation
import Calculator.Proofs.Text.Scanning
import Calculator.Proofs.Formula.Products
import Calculator.Proofs.Formula.Arithmetic
import Calculator.Proofs.Complex.Rules
import Calculator.Proofs.Complex.Reading
import Calculator.Proofs.Complex.Derivation
import Calculator.Proofs.Arith.Placement
import Calculator.Proofs.Session.Consistency
import Calculator.Proofs.Complex.Placement
import Calculator.Proofs.Blanks
import Calculator.Proofs.Number.Plain
import Calculator.Proofs.Arith.Grouping
import Calculator.Proofs.Session.Keys
import Calculator.Proofs.Session.Substitution
import Calculator.Proofs.Function.Pointwise
import Calculator.Proofs.Function.Derivatives
import Calculator.Proofs.Number.ReadBack
import Calculator.Proofs.Arith.Printing
import Calculator.Proofs.Function.Printing
import Calculator.Proofs.Regions
import Calculator.Proofs.Brackets
import Calculator.Proofs.Session.Effects
import Calculator.Proofs.Session.Exchanges
import Calculator.Proofs.Session.Isolation
import Calculator.Proofs.Session.Recall
import Calculator.Proofs.Session.Commutation
import Calculator.Proofs.Number.FixedPlaces
import Calculator.Proofs.Number.Quotients
import Calculator.Proofs.Number.Operations
import Calculator.Proofs.Number.Zeros
import Calculator.Proofs.Complex.Printing
import Calculator.Proofs.Number.Reprinting
import Calculator.Proofs.Complex.Reprinting
import Calculator.Proofs.Text.Offsets
import Calculator.Proofs.Tokens
import Calculator.Proofs.Arith.Nodes
import Calculator.Proofs.Complex.Divisors
import Calculator.Proofs.Complex.ZeroDivisors
import Calculator.Proofs.Complex.RuleOrder
import Calculator.Proofs.Arith.Evaluation
import Calculator.Proofs.Formula.Expansion
import Calculator.Proofs.Text.Numerals
import Calculator.Proofs.Text.Mending
import Calculator.Proofs.Arith.Malformed
import Calculator.Proofs.Complex.Malformed
import Calculator.Proofs.Formula.Malformed
import Calculator.Proofs.Malformed
import Calculator.Proofs.Graph.Sampling
import Calculator.Proofs.Graph.Overflow
import Calculator.Proofs.Formula.Constants
import Calculator.Proofs.Graph.Changes
import Calculator.Proofs.Function.Coefficients
import Calculator.Proofs.Arith.Assertions
import Calculator.Proofs.Arith.Layout
import Calculator.Proofs.Formula.Remainders
