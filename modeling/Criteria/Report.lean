import Criteria.Dialect.Builtin
import Criteria.Evaluation
import Criteria.Json.Document
import Criteria.Json.Reader
import Criteria.Postfix

/-!
# Reports on expressions

What can be asked about an expression given as text: whether it is valid, what its value is against
a JSON document, and which tokens it consists of. Dialects are asked for by name. Of several faults
the first one counts in the order dialect, expression, document, evaluation.
-/

namespace Criteria

/-- A cause for which there is no report. -/
inductive ReportError where
  | unknownDialect (name : String)
  | expression (e : SyntaxError)
  | invalidJson
  | evaluation (e : EvalError)
  deriving DecidableEq, Repr

/-- The wording of an error. -/
def ReportError.message : ReportError → String
  | unknownDialect name =>
    s!"Unknown dialect: '{name}'\nRun 'clause dialects' to see available dialects."
  | expression e =>
    let text := e.message
    s!"Syntax error: {text}"
  | invalidJson => "Invalid JSON"
  | evaluation e =>
    let text := e.message
    s!"Evaluation error: {text}"

/-- What to check. -/
structure CheckRequest where
  expression : String
  dialect : Option String := none
  /-- The text of the document that references are resolved in. -/
  input : Option String := none
  /-- Whether to leave the expression without a value. -/
  syntaxOnly : Bool := false
  deriving DecidableEq, Repr

/-- The outcome of a check. -/
inductive Verdict where
  /-- The expression is valid and reads so with all brackets. -/
  | valid (rendering : String)
  | result (value : Json)
  deriving Repr

namespace Report

/-- The dialect of expressions for which none is named. -/
def defaultDialect : String := "sharp"

/-- An error of an expression as an error of a report. -/
def ofSyntax {α : Type} : Except SyntaxError α → Except ReportError α :=
  Except.mapError .expression

/-- The dialect with the given name, or the default one. -/
def findDialect (name : Option String) : Except ReportError Dialect :=
  let name := name.getD defaultDialect
  match Dialect.builtin? name with
  | some built => ofSyntax built
  | none => .error (.unknownDialect name)

/-- Reads the text of a document. -/
def readDocument (text : String) : Except ReportError Value :=
  match Json.read? text with
  | some j => .ok (.ofJson j)
  | none => .error .invalidJson

/-- Checks an expression, and evaluates it unless only its form is asked for. -/
def check (r : CheckRequest) : Except ReportError Verdict := do
  let d ← findDialect r.dialect
  let o ← ofSyntax (d.parse r.expression)
  if r.syntaxOnly then return .valid o.render
  let document ← r.input.mapM readDocument
  let v ← (o.evaluate document).mapError .evaluation
  return .result v.toJson

/-- The tokens of an expression. -/
def tokens (expression : String) (dialect : Option String) :
    Except ReportError (List (Token TokenKind)) := do
  ofSyntax ((← findDialect dialect).tokenize expression)

/-- The names of the dialects. -/
def overview : String :=
  "Built-in dialects:\n" ++
    String.join (Dialect.builtinNames.map fun name => "  " ++ name ++ "\n") ++
    "\nRun 'clause dialects <name>' to see a dialect's operators.\n"

/-- A spelling with its category, its operator and the precedence, in columns. -/
def describeSpelling (s : Spelling) : String :=
  "  " ++ Text.padRight 16 s.text ++ " " ++ Text.padRight 16 s.kind.name ++ " " ++
    Text.padRight 8 s.operator.name ++ " precedence " ++ toString s.operator.precedence ++ "\n"

/-- The spellings of a dialect. -/
def describe (name : String) : Except ReportError String := do
  let d ← findDialect name
  return "Dialect '" ++ d.name ++ "'\n" ++ String.join (d.spellings.map describeSpelling)

end Report

end Criteria
