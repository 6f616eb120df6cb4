import Criteria.Proofs.Dialect.Rules

/-!
# The patterns of the built-in dialects

`odata` and `sql` are read here as `java` and `sharp` were before. What the dialects do not share
are the names of their operators: in each of them a pattern of operators is a choice between names of
one category (`OperatorNames`), and `exists_operatorNames` says that these are spellings of the
dialect.
-/

namespace Criteria

open Pattern TokenPattern

/-- Names of operators of one category, the earlier ones by preference, and what follows them. -/
structure OperatorNames where
  kind : TokenKind
  names : List String
  follow : Option Pattern := none
  deriving DecidableEq

namespace OperatorNames

/-- The pattern of the names. -/
def pattern (o : OperatorNames) : TokenPattern TokenKind := ⟨o.kind, spelledAny o.names, o.follow⟩

/-- The operators of `odata`. -/
def odata : List OperatorNames :=
  [⟨.method, ["startswith", "substring", "endswith"], some openingOfCall⟩,
    ⟨.unaryOperator, ["not"], some endOfWord⟩,
    ⟨.binaryOperator, ["and", "add", "sub", "mul", "div", "mod", "eq", "ne", "gt", "ge", "lt", "le",
      "or", "in"], some endOfWord⟩]

/-- The operators of `java`. -/
def java : List OperatorNames :=
  [⟨.unaryOperator, ["!"], none⟩, ⟨.binaryOperator, symbolNames, none⟩]

/-- The operators of `sharp`. -/
def sharp : List OperatorNames :=
  ⟨.method, methodNames, some openingOfCall⟩ :: java ++
    [⟨.binaryOperator, ["in", "as"], some endOfWord⟩]

/-- The operators of `sql`. -/
def sql : List OperatorNames :=
  [⟨.method, methodNames, some openingOfCall⟩, ⟨.unaryOperator, ["not"], some endOfWord⟩,
    ⟨.binaryOperator, ["<>", ">=", "<=", "||", "=", ">", "<", "+", "-", "*", "/", "%"], none⟩,
    ⟨.binaryOperator, ["and", "or", "in", "as"], some endOfWord⟩]

/-- The patterns of a dialect with the given operators. -/
def patterns (operators : List OperatorNames) : List (TokenPattern TokenKind) :=
  punctuation ++ operators.map pattern ++ operands

end OperatorNames

/-- The dialect of words. -/
def Dialect.odata : Dialect := ofDraft .odata (OperatorNames.patterns OperatorNames.odata)

/-- The dialect of queries. -/
def Dialect.sql : Dialect := ofDraft .sql (OperatorNames.patterns OperatorNames.sql)

/-! ### Reading the sources -/

theorem alternation_odata_methods :
    alternation ["startswith", "endswith", "substring"] = "startswith|substring|endswith" := by
  simp +decide [alternation, List.mergeSort, List.MergeSort.Internal.splitInTwo]

theorem alternation_odata_words :
    alternation ["eq", "ne", "gt", "ge", "lt", "le", "and", "or", "in", "add", "sub", "mul", "div",
      "mod"] = "and|add|sub|mul|div|mod|eq|ne|gt|ge|lt|le|or|in" := by
  simp +decide [alternation, List.mergeSort, List.MergeSort.Internal.splitInTwo]

theorem alternation_not : alternation ["not"] = "not" := by
  simp +decide [alternation]

theorem alternation_sql_methods :
    alternation ["concat", "substring", "startsWith", "endsWith", "if", "count",
      "count_distinct"] = "count_distinct|startsWith|substring|endsWith|concat|count|if" := by
  simp +decide [alternation, List.mergeSort, List.MergeSort.Internal.splitInTwo]

theorem alternation_sql_symbols :
    alternation ["=", "<>", ">=", "<=", ">", "<", "||", "+", "-", "*", "/", "%"] =
      "<>|>=|<=|\\|\\||=|>|<|\\+|\\-|\\*|/|%" := by
  simp +decide [alternation, List.mergeSort, List.MergeSort.Internal.splitInTwo]

theorem alternation_sql_words : alternation ["and", "or", "in", "as"] = "and|or|in|as" := by
  simp +decide [alternation, List.mergeSort, List.MergeSort.Internal.splitInTwo]

theorem rules_odata :
    DialectDraft.odata.rules = punctuationRules ++
      ([⟨.method, "startswith|substring|endswith", some callOpen⟩,
        ⟨.unaryOperator, "not", some wordEnd⟩,
        ⟨.binaryOperator, "and|add|sub|mul|div|mod|eq|ne|gt|ge|lt|le|or|in", some wordEnd⟩] ++
        operandRules) := by
  rw [← alternation_odata_methods, ← alternation_not, ← alternation_odata_words]
  rfl

theorem rules_sql :
    DialectDraft.sql.rules = punctuationRules ++
      ([⟨.method, "count_distinct|startsWith|substring|endsWith|concat|count|if", some callOpen⟩,
        ⟨.unaryOperator, "not", some wordEnd⟩,
        ⟨.binaryOperator, "<>|>=|<=|\\|\\||=|>|<|\\+|\\-|\\*|/|%", none⟩,
        ⟨.binaryOperator, "and|or|in|as", some wordEnd⟩] ++ operandRules) := by
  rw [← alternation_sql_methods, ← alternation_not, ← alternation_sql_symbols,
    ← alternation_sql_words]
  rfl

/-- A choice between names that has to be followed by the end of a word. -/
theorem ofText?_words {kind : TokenKind} {source : String} (names : List String)
    (h : anchored? true source = some (spelledAny names).atStart) :
    Definition.ofText? kind true source (some wordEnd) =
      .ok (OperatorNames.pattern ⟨kind, names, some endOfWord⟩).definition :=
  ofText?_guarded_eq h anchored?_wordEnd

/-- The patterns of `odata` can be read. -/
theorem build_odata : DialectDraft.odata.build = .ok Dialect.odata := by
  refine build_of_rules rfl rules_odata (OperatorNames.odata.map OperatorNames.pattern) ?_
  have hmethods : Definition.ofText? TokenKind.method true "startswith|substring|endswith"
      (some callOpen) = .ok (OperatorNames.pattern
        ⟨.method, ["startswith", "substring", "endswith"], some openingOfCall⟩).definition :=
    ofText?_guarded_eq (by decide) anchored?_callOpen
  simp only [List.mapM_cons, List.mapM_nil]
  rw [hmethods, ofText?_words ["not"] (by decide),
    ofText?_words ["and", "add", "sub", "mul", "div", "mod", "eq", "ne", "gt", "ge", "lt", "le", "or",
      "in"] (by decide)]
  rfl

/-- The patterns of `sql` can be read. -/
theorem build_sql : DialectDraft.sql.build = .ok Dialect.sql := by
  refine build_of_rules rfl rules_sql (OperatorNames.sql.map OperatorNames.pattern) ?_
  have hsymbols : Definition.ofText? TokenKind.binaryOperator true
      "<>|>=|<=|\\|\\||=|>|<|\\+|\\-|\\*|/|%" none = .ok (OperatorNames.pattern
        ⟨.binaryOperator, ["<>", ">=", "<=", "||", "=", ">", "<", "+", "-", "*", "/", "%"],
          none⟩).definition := ofText?_eq (by decide)
  simp only [List.mapM_cons, List.mapM_nil]
  rw [ofText?_methods, ofText?_words ["not"] (by decide), hsymbols,
    ofText?_words ["and", "or", "in", "as"] (by decide)]
  rfl

/-- Whether the names of a pattern of operators are spellings, and trying finds what it matches. -/
structure OperatorNames.Serves (o : OperatorNames) (spellings : List Spelling) : Prop where
  nonempty : o.names ≠ []
  spelled : ∀ n ∈ o.names, ∃ s ∈ spellings, s.text = n ∧ s.kind = o.kind
  plain : o.pattern.plain = true
  unconditional : o.pattern.pattern.unconditional = true

instance (o : OperatorNames) (spellings : List Spelling) : Decidable (o.Serves spellings) :=
  decidable_of_iff (o.names ≠ [] ∧ (∀ n ∈ o.names, ∃ s ∈ spellings, s.text = n ∧ s.kind = o.kind) ∧
      o.pattern.plain = true ∧ o.pattern.pattern.unconditional = true)
    ⟨fun ⟨h₁, h₂, h₃, h₄⟩ => ⟨h₁, h₂, h₃, h₄⟩, fun ⟨h₁, h₂, h₃, h₄⟩ => ⟨h₁, h₂, h₃, h₄⟩⟩

/-- **In every built-in dialect a pattern of operators is a choice between spellings.** -/
theorem exists_operatorNames {draft : DialectDraft} (h : draft ∈ DialectDraft.builtins) :
    ∃ operators, draft.build = .ok (.ofDraft draft (OperatorNames.patterns operators)) ∧
      ∀ o ∈ operators, o.Serves draft.spellings := by
  simp only [DialectDraft.builtins, List.mem_cons, List.not_mem_nil, or_false] at h
  rcases h with rfl | rfl | rfl | rfl
  · exact ⟨OperatorNames.odata, build_odata, by decide⟩
  · exact ⟨OperatorNames.java, build_java, by decide⟩
  · exact ⟨OperatorNames.sharp, build_sharp, by decide⟩
  · exact ⟨OperatorNames.sql, build_sql, by decide⟩

end Criteria
