/-!
# Errors in expressions, grammars and dialects

What can be wrong with a text that is scanned or parsed, or with the parts that a grammar or a
dialect is put together from. `SyntaxError.message` gives the wording.
-/

namespace Criteria

/-- A cause for which scanning, parsing or building fails. Offsets count bytes. -/
inductive SyntaxError where
  /-- No accepted token starts at the offset; `remainder` is the input from there on. -/
  | unexpectedInput (offset : Nat) (remainder : String)
  /-- A bracket without its partner. -/
  | unbalancedBracket (bracket : String) (offset : Nat)
  /-- A method that is not called. -/
  | missingMethodBracket (method : String) (offset : Nat)
  /-- A method called with a wrong number of arguments. -/
  | argumentCount (method : String) (expected found offset : Nat)
  /-- A separator outside the brackets of a call. -/
  | misplacedSeparator (offset : Nat)
  /-- A spelling for which the dialect has no operator. -/
  | unknownOperator (spelling : String) (offset : Nat)
  /-- An operator with too few operands. -/
  | missingOperand (operator : String)
  /-- Operands and operators that do not make up one operation. -/
  | noOperation (reason : String)
  /-- A second transition of a state for the same category. -/
  | ambiguousTransition (state category : String)
  /-- A state that is not declared. -/
  | unknownState (name : String)
  /-- A grammar without states. -/
  | noInitialState
  /-- A text that describes no grammar. -/
  | invalidGrammar (offset : Nat) (reason : String)
  /-- A text that is no pattern. -/
  | invalidPattern (source : String)
  deriving DecidableEq, Repr

/-- The wording of an error. -/
def SyntaxError.message : SyntaxError → String
  | unexpectedInput offset remainder => s!"unexpected input at offset {offset}: '{remainder}'"
  | unbalancedBracket bracket offset => s!"unbalanced bracket '{bracket}' at offset {offset}"
  | missingMethodBracket method offset =>
    s!"expected opening bracket after method name '{method}' at offset {offset}"
  | argumentCount method expected found offset =>
    s!"method '{method}' at offset {offset} takes {expected} argument(s), got {found}"
  | misplacedSeparator offset => s!"argument separator outside a method call at offset {offset}"
  | unknownOperator spelling offset => s!"unknown operator '{spelling}' at offset {offset}"
  | missingOperand operator => s!"missing operand for operator '{operator}'"
  | noOperation reason => s!"no operation produced: {reason}"
  | ambiguousTransition state category =>
    s!"ambiguous transition in state '{state}': token {category} already has a target"
  | unknownState name => s!"unknown state '{name}'"
  | noInitialState => "grammar has no initial state"
  | invalidGrammar offset reason =>
    s!"invalid grammar description at offset {offset}: {reason}"
  | invalidPattern source => s!"invalid pattern '{source}'"

end Criteria
