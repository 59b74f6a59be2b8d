import CaseSetup.Text.Alphanumeric
import CaseSetup.Text.DecimalDigit
import CaseSetup.Text.Blank
import CaseSetup.Text.Printable
import CaseSetup.Decimal.Style
import CaseSetup.Fault
import CaseSetup.Value.Equality
import CaseSetup.Grammar.Document
import CaseSetup.Files
import CaseSetup.Block.Change
import CaseSetup.Block.Query
import CaseSetup.Proofs.Block.History
import CaseSetup.Proofs.Evaluation.Between
import CaseSetup.Proofs.Evaluation.Lazy
import CaseSetup.Proofs.Evaluation.Order
import CaseSetup.Proofs.Evaluation.Power
import CaseSetup.Proofs.Grammar.Completeness
import CaseSetup.Proofs.Grammar.Blame
import CaseSetup.Proofs.Json.Export
import CaseSetup.Proofs.Writing.Evaluated
import CaseSetup.Proofs.Writing.Stable
import CaseSetup.Proofs.Writing.Writable
import CaseSetup.Proofs.Evaluation.Exact
import CaseSetup.Proofs.Evaluation.Redefined
import CaseSetup.Proofs.Evaluation.Trail
import CaseSetup.Proofs.Evaluation.Routes
import CaseSetup.Proofs.Block.Paths
import CaseSetup.Proofs.Grammar.Respelled
import CaseSetup.Proofs.Writing.Parentheses
import CaseSetup.Proofs.Grammar.Comments
import CaseSetup.Proofs.Token.Lines
import CaseSetup.Proofs.Token.Longest
import CaseSetup.Proofs.Writing.Hindrances
import CaseSetup.Proofs.Conversion
import CaseSetup.Proofs.Equality
import CaseSetup.Proofs.Block.Addresses
import CaseSetup.Proofs.Json.Members
import CaseSetup.Proofs.Token.Fragment
import CaseSetup.Proofs.Grammar.Returns
