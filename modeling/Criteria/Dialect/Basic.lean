import Criteria.Lexer
import Criteria.Term

/-!
# Dialects

A dialect says how expressions are written: which patterns make up each category of tokens, in order
of preference, and which spelling stands for which operator. The order of tokens is the same for
every dialect, `expressionGrammar`.

`DialectDraft` collects spellings and patterns. Where it asks for operators, patterns are generated
from the spellings: symbols and words apart, each the longest first, so that `>=` is found before
`>`. A word has to end where it is found, and a method has to be followed by an opening bracket, so
that a field may have the name of a method.
-/

namespace Criteria

/-- The order of tokens in an expression. It is looser than the language; brackets and arguments are
checked when the tokens are put in order. -/
def expressionGrammar : Grammar TokenKind where
  states :=
    [ ⟨"expect_operand",
        [⟨[.bracketOpen, .unaryOperator, .separator, .method], 0⟩, ⟨[.operand, .null], 1⟩]⟩,
      ⟨"expect_operator", [⟨[.bracketClose], 1⟩, ⟨[.binaryOperator, .separator], 0⟩]⟩ ]
  initial := 0

/-- A spelling of an operator in a category of tokens. -/
structure Spelling where
  text : String
  kind : TokenKind
  operator : Operator
  deriving DecidableEq, Repr

/-- The text of a pattern for a category of tokens, and of the guard on what follows. -/
structure TokenRule where
  kind : TokenKind
  source : String
  follow : Option String := none
  deriving DecidableEq, Repr

/-- Spellings of operators and patterns of tokens. -/
structure Dialect where
  name : String
  caseSensitive : Bool
  spellings : List Spelling
  rules : List TokenRule
  lexer : Lexer TokenKind

namespace Dialect

/-- Whether a text is the given spelling; case is ignored unless the dialect is sensitive to it. -/
def spells (d : Dialect) (s : Spelling) (text : String) : Bool :=
  if d.caseSensitive then s.text == text else Text.sameIgnoringCase s.text text

/-- The operator with the given spelling in a category of tokens. -/
def operator? (d : Dialect) (text : String) (kind : TokenKind) : Option Operator :=
  (d.spellings.find? fun s => s.kind == kind && d.spells s text).map (·.operator)

/-- The tokens of an input. -/
def tokenize (d : Dialect) (input : String) : Except SyntaxError (List (Token TokenKind)) :=
  d.lexer.tokenize input

end Dialect

/-- The end of a word. -/
def wordEnd : String := "\\W|$"

/-- The opening bracket of a call. -/
def callOpen : String := "\\s*\\("

/-- The patterns of operands: strings, date-times in quotes, lists, identifiers, date-times, dates,
numbers and paths. -/
def operandRules : List TokenRule :=
  [ ⟨.operand, "'(?:[^']|'')*'", none⟩,
    ⟨.operand, "(?i:datetime)'[^']*'", none⟩,
    ⟨.operand, "\\[[^\\]]*\\]", none⟩,
    ⟨.operand, "[0-9a-fA-F]\x7b8\x7d-[0-9a-fA-F]\x7b4\x7d-[0-9a-fA-F]\x7b4\x7d-" ++
      "[0-9a-fA-F]\x7b4\x7d-[0-9a-fA-F]\x7b12\x7d", some wordEnd⟩,
    ⟨.operand, "[0-9]\x7b4\x7d-[0-9]\x7b2\x7d-[0-9]\x7b2\x7d[Tt][0-9]\x7b2\x7d:[0-9]\x7b2\x7d" ++
      "(?::[0-9]\x7b2\x7d(?:\\.[0-9]+)?)?", some wordEnd⟩,
    ⟨.operand, "[0-9]\x7b4\x7d-[0-9]\x7b2\x7d-[0-9]\x7b2\x7d", some wordEnd⟩,
    ⟨.operand, "[-+]?(?:[0-9]+\\.[0-9]*|\\.[0-9]+|[0-9]+)(?:[eE][-+]?[0-9]+)?[lLdDfF]?",
      some wordEnd⟩,
    ⟨.operand, "[A-Za-z_$@][\\w$@]*(?:[./\\\\][\\w$@]+)*", none⟩ ]

/-- The pattern text of any of the given spellings, the longest by preference. -/
def alternation (texts : List String) : String :=
  let sorted := texts.mergeSort fun a b =>
    Text.byteLength b.toList ≤ Text.byteLength a.toList
  Text.join "|" (sorted.map fun t => String.ofList (Pattern.escape t.toList))

/-- Whether a spelling is a word. -/
def isWordSpelling (text : String) : Bool :=
  Text.allChars (fun c => Text.isAlphanumeric c || c == '_') text

/-- The patterns generated from the spellings of one category: first the symbols, then the
words. -/
def operatorRules (spellings : List Spelling) (kind : TokenKind) : List TokenRule :=
  let texts := (spellings.filter (·.kind = kind)).map (·.text)
  let (words, symbols) := texts.partition isWordSpelling
  let (symbolFollow, wordFollow) :=
    if kind = .method then (some callOpen, some callOpen) else (none, some wordEnd)
  (if symbols.isEmpty then [] else [⟨kind, alternation symbols, symbolFollow⟩]) ++
    (if words.isEmpty then [] else [⟨kind, alternation words, wordFollow⟩])

/-- A part of a dialect under construction: one pattern, or those of all operators. -/
inductive DialectPart where
  | rule (r : TokenRule)
  | operators
  deriving DecidableEq, Repr

/-- A dialect under construction. -/
structure DialectDraft where
  name : String
  caseSensitive : Bool := false
  spellings : List Spelling := []
  parts : List DialectPart := []
  deriving DecidableEq, Repr

/-- The category of tokens that the place of an operator implies. -/
def Placement.tokenKind : Placement → TokenKind
  | .between => .binaryOperator
  | .before => .unaryOperator
  | .call => .method

namespace DialectDraft

/-- Adds a spelling in a given category of tokens. -/
def operatorAs (d : DialectDraft) (text : String) (op : Operator) (kind : TokenKind) :
    DialectDraft :=
  { d with spellings := d.spellings ++ [⟨text, kind, op⟩] }

/-- Adds a spelling in the category that the place of the operator implies. -/
def operator (d : DialectDraft) (text : String) (op : Operator) : DialectDraft :=
  d.operatorAs text op op.placement.tokenKind

/-- Adds several spellings. -/
def operators (d : DialectDraft) (spellings : List (String × Operator)) : DialectDraft :=
  spellings.foldl (fun d s => d.operator s.1 s.2) d

/-- Adds the pattern of a category. -/
def token (d : DialectDraft) (r : TokenRule) : DialectDraft :=
  { d with parts := d.parts ++ [.rule r] }

/-- Adds brackets, the separator and the word `null`. -/
def punctuation (d : DialectDraft) : DialectDraft :=
  (((d.token ⟨.bracketOpen, "\\(", none⟩).token ⟨.bracketClose, "\\)", none⟩).token
    ⟨.separator, ",", none⟩).token ⟨.null, "null", some wordEnd⟩

/-- Adds the patterns of all spellings of the finished dialect. -/
def operatorTokens (d : DialectDraft) : DialectDraft := { d with parts := d.parts ++ [.operators] }

/-- Adds the patterns of operands. -/
def operandTokens (d : DialectDraft) : DialectDraft := operandRules.foldl token d

/-- The patterns of a part; methods come before operators in front, and these before operators in
between. -/
def expand (spellings : List Spelling) : DialectPart → List TokenRule
  | .rule r => [r]
  | .operators =>
    [TokenKind.method, .unaryOperator, .binaryOperator].flatMap (operatorRules spellings)

/-- The patterns of the finished dialect in order. -/
def rules (d : DialectDraft) : List TokenRule := d.parts.flatMap (expand d.spellings)

/-- The finished dialect, if every pattern can be read. -/
def build (d : DialectDraft) : Except SyntaxError Dialect := do
  let definitions ← d.rules.mapM fun r =>
    Definition.ofText? r.kind (!d.caseSensitive) r.source r.follow
  return {
    name := d.name
    caseSensitive := d.caseSensitive
    spellings := d.spellings
    rules := d.rules
    lexer := ⟨.ofDefinitions definitions, expressionGrammar⟩ }

end DialectDraft

end Criteria
