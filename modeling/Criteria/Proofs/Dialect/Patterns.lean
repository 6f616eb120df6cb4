import Criteria.Dialect.Builtin
import Criteria.Proofs.Scanning

/-!
# The patterns of `java` and `sharp`

Every built-in dialect reads operands by the same eight patterns. `sharp` has the patterns of `java`
and two more: the methods, in front of the symbol that stands before its operand, and the words
between operands, behind the symbols.

The sources of the patterns are read here once and for all (`build_java`, `build_sharp`), so that
what follows is about patterns and not about their sources.
-/

namespace Criteria

open Literal (anyOf decimalDigit digits)

namespace Pattern

/-- A spelling, in any case of its letters. -/
def spelled (s : String) : Pattern :=
  .seqAll (s.toList.map fun c => if c.isAlpha then anyOf (.only c) else .char c)

/-- Any of the given spellings, the earlier ones by preference. -/
def spelledAny (spellings : List String) : Pattern := .altAll (spellings.map spelled)

/-- What follows a word. -/
def endOfWord : Pattern := .alt (.one (.compl .word)) (.anchor .textEnd)

/-- What follows the name of a method. -/
def openingOfCall : Pattern := .seq (.star true (.one .blank)) (.char '(')

end Pattern

open Pattern

namespace Operand

/-! ### Operands -/

/-- Any character but the given one. -/
def except (c : Char) : Pattern := .one (.compl (.folded (.only c)))

/-- A string in quotes. -/
def string : Pattern :=
  .seqAll [.char '\x27', .star true (.alt (except '\x27') (.seqAll [.char '\x27', .char '\x27'])),
    .char '\x27']

/-- A date and time in quotes. -/
def quotedDateTime : Pattern :=
  .seqAll (("datetime".toList.map fun c => anyOf (.only c)) ++
    [.char '\x27', .star true (except '\x27'), .char '\x27'])

/-- A list in brackets. -/
def list : Pattern := .seqAll [.char '[', .star true (except ']'), .char ']']

/-- A hexadecimal digit. -/
def hexDigit : Pattern := anyOf (.unionAll [.range '0' '9', .range 'a' 'f', .range 'A' 'F'])

/-- A globally unique identifier. -/
def guid : Pattern :=
  .seqAll [hexDigit.times 8, .char '-', hexDigit.times 4, .char '-', hexDigit.times 4, .char '-',
    hexDigit.times 4, .char '-', hexDigit.times 12]

/-- Year, month and day. -/
def dateParts : List Pattern :=
  [decimalDigit.times 4, .char '-', decimalDigit.times 2, .char '-', decimalDigit.times 2]

/-- A date. -/
def date : Pattern := .seqAll dateParts

/-- A date and time. -/
def dateTime : Pattern :=
  .seqAll (dateParts ++ [anyOf (.unionAll [.only 'T', .only 't']), decimalDigit.times 2, .char ':',
    decimalDigit.times 2, .opt true (.seqAll [.char ':', decimalDigit.times 2,
      .opt true (.seqAll [.char '.', digits])])])

/-- A sign, or none. -/
def sign : Pattern := .opt true (anyOf (.unionAll [.only '-', .only '+']))

/-- Digits with a point in, before or behind them, or without a point. -/
def magnitude : Pattern :=
  .altAll [.seqAll [digits, .char '.', .star true decimalDigit], .seqAll [.char '.', digits], digits]

/-- A number, perhaps with the mark of its width. -/
def number : Pattern :=
  .seqAll [sign, magnitude,
    .opt true (.seqAll [anyOf (.unionAll [.only 'e', .only 'E']), sign, digits]),
    .opt true (anyOf (.unionAll [.only 'l', .only 'L', .only 'd', .only 'D', .only 'f', .only 'F']))]

/-- The first characters of paths. -/
def pathStart : CharSet :=
  .folded (.unionAll [.range 'A' 'Z', .range 'a' 'z', .only '_', .only '$', .only '@'])

/-- The characters of segments. -/
def pathChar : CharSet := .folded (.unionAll [.word, .only '$', .only '@'])

/-- The characters between segments. -/
def pathSeparator : CharSet := .folded (.unionAll [.only '.', .only '/', .only '\\'])

/-- Any number of segments behind the first. -/
def segments : Pattern :=
  .star true (.seqAll [.one pathSeparator, .plus true (.one pathChar)])

/-- A path. -/
def path : Pattern := .seqAll [.one pathStart, .star true (.one pathChar), segments]

end Operand

/-! ### Tokens -/

namespace TokenPattern

/-- The patterns of brackets, the separator and `null`. -/
def punctuation : List (TokenPattern TokenKind) :=
  [⟨.bracketOpen, spelled "(", none⟩, ⟨.bracketClose, spelled ")", none⟩,
    ⟨.separator, spelled ",", none⟩, ⟨.null, spelled "null", some endOfWord⟩]

/-- The names of methods, the longest first. -/
def methodNames : List String :=
  ["count_distinct", "startsWith", "substring", "endsWith", "concat", "count", "if"]

/-- The pattern of methods. -/
def method : TokenPattern TokenKind := ⟨.method, spelledAny methodNames, some openingOfCall⟩

/-- The pattern of the symbol in front of its operand. -/
def negation : TokenPattern TokenKind := ⟨.unaryOperator, spelled "!", none⟩

/-- The symbols between operands, the longest first. -/
def symbolNames : List String :=
  ["==", "!=", ">=", "<=", "&&", "||", ">", "<", "+", "-", "*", "/", "%"]

/-- The pattern of the symbols between operands. -/
def symbol : TokenPattern TokenKind := ⟨.binaryOperator, spelledAny symbolNames, none⟩

/-- The pattern of the words between operands. -/
def word : TokenPattern TokenKind := ⟨.binaryOperator, spelledAny ["in", "as"], some endOfWord⟩

/-- The patterns of operands other than paths. -/
def literals : List (TokenPattern TokenKind) :=
  [⟨.operand, Operand.string, none⟩, ⟨.operand, Operand.quotedDateTime, none⟩,
    ⟨.operand, Operand.list, none⟩, ⟨.operand, Operand.guid, some endOfWord⟩,
    ⟨.operand, Operand.dateTime, some endOfWord⟩, ⟨.operand, Operand.date, some endOfWord⟩,
    ⟨.operand, Operand.number, some endOfWord⟩]

/-- The pattern of paths. -/
def path : TokenPattern TokenKind := ⟨.operand, Operand.path, none⟩

/-- The patterns of operands. -/
def operands : List (TokenPattern TokenKind) := literals ++ [path]

/-- The patterns of `java`. -/
def java : List (TokenPattern TokenKind) := punctuation ++ [negation, symbol] ++ operands

/-- The patterns of `sharp`. -/
def sharp : List (TokenPattern TokenKind) :=
  punctuation ++ [method] ++ [negation, symbol] ++ [word] ++ operands

theorem plain_sharp : ∀ t ∈ sharp, t.plain = true := by decide

end TokenPattern

namespace Dialect

/-- The dialect of a draft whose patterns have been read. -/
def ofDraft (draft : DialectDraft) (patterns : List (TokenPattern TokenKind)) : Dialect where
  name := draft.name
  caseSensitive := draft.caseSensitive
  spellings := draft.spellings
  rules := draft.rules
  lexer := ⟨.ofDefinitions (patterns.map TokenPattern.definition), expressionGrammar⟩

/-- The dialect of symbols. -/
def java : Dialect := ofDraft .java TokenPattern.java

/-- The dialect of trees. -/
def sharp : Dialect := ofDraft .sharp TokenPattern.sharp

end Dialect

/-! ### Reading the sources -/

open TokenPattern

theorem alternation_methods :
    alternation ["substring", "startsWith", "endsWith", "concat", "if", "count",
      "count_distinct"] = "count_distinct|startsWith|substring|endsWith|concat|count|if" := by
  simp +decide [alternation, List.mergeSort, List.MergeSort.Internal.splitInTwo]

theorem alternation_symbols :
    alternation ["==", "!=", ">=", "<=", ">", "<", "&&", "||", "+", "-", "*", "/", "%"] =
      "==|!=|>=|<=|\\&\\&|\\|\\||>|<|\\+|\\-|\\*|/|%" := by
  simp +decide [alternation, List.mergeSort, List.MergeSort.Internal.splitInTwo]

theorem alternation_negation : alternation ["!"] = "!" := by
  simp +decide [alternation]

theorem alternation_words : alternation ["in", "as"] = "in|as" := by
  simp +decide [alternation, List.mergeSort, List.MergeSort.Internal.splitInTwo]

/-- Reading a rule without a guard. -/
theorem ofText?_eq {kind : TokenKind} {source : String} {p : Pattern}
    (hp : anchored? true source = some p.atStart) :
    Definition.ofText? kind true source none = .ok (definition ⟨kind, p, none⟩) := by
  simp only [Definition.ofText?, hp]
  rfl

/-- Reading a rule with a guard. -/
theorem ofText?_guarded_eq {kind : TokenKind} {source guardSource : String} {p q : Pattern}
    (hp : anchored? true source = some p.atStart)
    (hq : anchored? true guardSource = some q.atStart) :
    Definition.ofText? kind true source (some guardSource) =
      .ok (definition ⟨kind, p, some q⟩) := by
  simp only [Definition.ofText?, hp, hq]
  rfl

theorem anchored?_wordEnd {ignoreCase : Bool} :
    anchored? ignoreCase wordEnd = some endOfWord.atStart := by
  cases ignoreCase <;> decide

theorem anchored?_callOpen : anchored? true callOpen = some openingOfCall.atStart := by
  decide

/-- The patterns of operands can be read. -/
theorem mapM_operandRules :
    operandRules.mapM (fun r => Definition.ofText? r.kind true r.source r.follow) =
      .ok (operands.map definition) := by
  simp only [operandRules, List.mapM_cons, List.mapM_nil]
  rw [ofText?_eq (p := Operand.string) (by decide),
    ofText?_eq (p := Operand.quotedDateTime) (by decide),
    ofText?_eq (p := Operand.list) (by decide),
    ofText?_guarded_eq (p := Operand.guid) (by decide) anchored?_wordEnd,
    ofText?_guarded_eq (p := Operand.dateTime) (by decide) anchored?_wordEnd,
    ofText?_guarded_eq (p := Operand.date) (by decide) anchored?_wordEnd,
    ofText?_guarded_eq (p := Operand.number) (by decide) anchored?_wordEnd,
    ofText?_eq (p := Operand.path) (by decide)]
  rfl

/-- The rules of brackets, the separator and `null`. -/
def punctuationRules : List TokenRule :=
  [⟨.bracketOpen, "\\(", none⟩, ⟨.bracketClose, "\\)", none⟩, ⟨.separator, ",", none⟩,
    ⟨.null, "null", some wordEnd⟩]

/-- The patterns of punctuation can be read. -/
theorem mapM_punctuationRules :
    punctuationRules.mapM (fun r => Definition.ofText? r.kind true r.source r.follow) =
      .ok (punctuation.map definition) := by
  simp only [punctuationRules, List.mapM_cons, List.mapM_nil]
  rw [ofText?_eq (p := spelled "(") (by decide),
    ofText?_eq (p := spelled ")") (by decide),
    ofText?_eq (p := spelled ",") (by decide),
    ofText?_guarded_eq (p := spelled "null") (by decide) anchored?_wordEnd]
  rfl

theorem rules_java :
    DialectDraft.java.rules = punctuationRules ++ ([⟨.unaryOperator, "!", none⟩,
      ⟨.binaryOperator, "==|!=|>=|<=|\\&\\&|\\|\\||>|<|\\+|\\-|\\*|/|%", none⟩] ++
      operandRules) := by
  rw [← alternation_symbols, ← alternation_negation]
  rfl

theorem rules_sharp :
    DialectDraft.sharp.rules = punctuationRules ++
      ([⟨.method, "count_distinct|startsWith|substring|endsWith|concat|count|if", some callOpen⟩,
        ⟨.unaryOperator, "!", none⟩,
        ⟨.binaryOperator, "==|!=|>=|<=|\\&\\&|\\|\\||>|<|\\+|\\-|\\*|/|%", none⟩,
        ⟨.binaryOperator, "in|as", some wordEnd⟩] ++ operandRules) := by
  rw [← alternation_methods, ← alternation_symbols, ← alternation_words, ← alternation_negation]
  rfl

theorem ofText?_methods :
    Definition.ofText? TokenKind.method true
      "count_distinct|startsWith|substring|endsWith|concat|count|if" (some callOpen) =
        .ok method.definition := ofText?_guarded_eq (by decide) anchored?_callOpen

theorem ofText?_negation :
    Definition.ofText? TokenKind.unaryOperator true "!" none = .ok negation.definition :=
  ofText?_eq (by decide)

theorem ofText?_symbols :
    Definition.ofText? TokenKind.binaryOperator true
      "==|!=|>=|<=|\\&\\&|\\|\\||>|<|\\+|\\-|\\*|/|%" none = .ok symbol.definition :=
  ofText?_eq (by decide)

/-- A dialect is built once the rules of its operators are read. -/
theorem build_of_rules {draft : DialectDraft} (hcase : draft.caseSensitive = false)
    {rules : List TokenRule} (hrules : draft.rules = punctuationRules ++ (rules ++ operandRules))
    (patterns : List (TokenPattern TokenKind))
    (hread : rules.mapM (fun r => Definition.ofText? r.kind true r.source r.follow) =
      .ok (patterns.map definition)) :
    draft.build = .ok (.ofDraft draft (punctuation ++ patterns ++ operands)) := by
  unfold DialectDraft.build
  rw [hcase, Bool.not_false, hrules, List.mapM_append, mapM_punctuationRules, List.mapM_append, hread,
    mapM_operandRules]
  simp only [Dialect.ofDraft, hrules, hcase, List.map_append, List.append_assoc]
  rfl

/-- The patterns of `java` can be read. -/
theorem build_java : DialectDraft.java.build = .ok Dialect.java := by
  refine build_of_rules rfl rules_java [negation, symbol] ?_
  simp only [List.mapM_cons, List.mapM_nil]
  rw [ofText?_negation, ofText?_symbols]
  rfl

/-- The patterns of `sharp` can be read. -/
theorem build_sharp : DialectDraft.sharp.build = .ok Dialect.sharp := by
  have hw : Definition.ofText? TokenKind.binaryOperator true "in|as" (some wordEnd) =
      .ok word.definition := ofText?_guarded_eq (by decide) anchored?_wordEnd
  refine build_of_rules rfl rules_sharp [method, negation, symbol, word] ?_
  simp only [List.mapM_cons, List.mapM_nil]
  rw [ofText?_methods, ofText?_negation, ofText?_symbols, hw]
  rfl

end Criteria
