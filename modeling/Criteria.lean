import Criteria.Dialect.Summary
import Criteria.Main
import Criteria.Query.Compile
import Criteria.Proofs.Fallible
import Criteria.Proofs.Expression.Grouping
import Criteria.Proofs.Expression.Postorder
import Criteria.Proofs.Expression.Reordering
import Criteria.Proofs.Expression.Balance
import Criteria.Proofs.Expression.Errors
import Criteria.Proofs.Expression.Offsets
import Criteria.Proofs.Expression.Sentences
import Criteria.Proofs.Expression.Folding
import Criteria.Proofs.Expression.Verdict
import Criteria.Proofs.Pattern.Consuming
import Criteria.Proofs.Pattern.Race
import Criteria.Proofs.Grammar.Building
import Criteria.Proofs.Grammar.Elements
import Criteria.Proofs.Grammar.Written
import Criteria.Proofs.Dialect.Patterns
import Criteria.Proofs.Dialect.Rules
import Criteria.Proofs.Dialect.BuiltinPatterns
import Criteria.Proofs.Pattern.Runs
import Criteria.Proofs.Pattern.Tails
import Criteria.Proofs.Scanning
import Criteria.Proofs.Scanning.Coverage
import Criteria.Proofs.Scanning.Segments
import Criteria.Proofs.Text.Variants
import Criteria.Proofs.Text.Pieces
import Criteria.Proofs.Dialect.Operands
import Criteria.Proofs.Dialect.SubDialect
import Criteria.Proofs.Dialect.Rendering
import Criteria.Proofs.Number.Digits
import Criteria.Proofs.Number.Nearest
import Criteria.Proofs.Number.Shortest
import Criteria.Proofs.Number.Decimals
import Criteria.Proofs.Literal.Numerals
import Criteria.Proofs.Literal.Doubles
import Criteria.Proofs.Literal.Readings
import Criteria.Proofs.Literal.Families
import Criteria.Proofs.Literal.Dates
import Criteria.Proofs.Literal.Classification
import Criteria.Proofs.Literal.NormalForm
import Criteria.Proofs.Expression.Paths
import Criteria.Proofs.Dialect.OperandTexts
import Criteria.Proofs.Dialect.RoundTrip
import Criteria.Proofs.Dialect.OperandTokens
import Criteria.Proofs.Dialect.OperandLiterals
import Criteria.Proofs.Dialect.Spacing
import Criteria.Proofs.Dialect.Spellings
import Criteria.Proofs.Dialect.Canonical
import Criteria.Proofs.Evaluation.Operands
import Criteria.Proofs.Evaluation.Integers
import Criteria.Proofs.Query.Steps
import Criteria.Proofs.Query.Relations
import Criteria.Proofs.Query.Recording
import Criteria.Proofs.Query.Duplicates
import Criteria.Proofs.Query.Sharing
import Criteria.Proofs.Query.Wildcards
import Criteria.Proofs.Query.Membership
import Criteria.Proofs.Expression.Origins
import Criteria.Proofs.Dialect.Calls
import Criteria.Proofs.Dialect.OperatorPatterns
import Criteria.Proofs.Number.Conversions
import Criteria.Proofs.Evaluation.Ordering
import Criteria.Proofs.Evaluation.Widths
import Criteria.Proofs.Evaluation.Failures
import Criteria.Proofs.Query.Reuse
import Criteria.Proofs.Query.Indices
import Criteria.Proofs.Query.Failures
import Criteria.Proofs.Value.Hashing
import Criteria.Proofs.Evaluation.Distinct
import Criteria.Proofs.Evaluation.Descent
import Criteria.Proofs.Json.Conversion
