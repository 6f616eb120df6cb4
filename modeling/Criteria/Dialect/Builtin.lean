import Criteria.Dialect.Basic

/-!
# The built-in dialects

* `odata` has words for operators: `name eq 'x' and not (age lt 18)`;
* `java` has symbols: `name == 'x' && !(age < 18)`;
* `sharp` has the symbols and all other operators under the names of the catalogue, so that it reads
  what `Term.render` writes;
* `sql` has the symbols of that language: `name = 'x' and age <> 18`.
-/

namespace Criteria.DialectDraft

/-- The draft with punctuation, the patterns of its operators and the patterns of operands. -/
def usual (d : DialectDraft) : DialectDraft := d.punctuation.operatorTokens.operandTokens

/-- Operators as words. -/
def odata : DialectDraft :=
  (operators { name := "odata" }
    [("eq", .equals), ("ne", .notEquals), ("gt", .greater), ("ge", .greaterOrEqual),
      ("lt", .less), ("le", .lessOrEqual), ("and", .and), ("or", .or), ("in", .isIn),
      ("add", .add), ("sub", .subtract), ("mul", .multiply), ("div", .divide), ("mod", .modulo),
      ("not", .not), ("startswith", .startsWith), ("endswith", .endsWith),
      ("substring", .contains)]).usual

/-- The symbols that `java` and `sharp` share. -/
def symbols : List (String × Operator) :=
  [("==", .equals), ("!=", .notEquals), (">=", .greaterOrEqual), ("<=", .lessOrEqual),
    (">", .greater), ("<", .less), ("&&", .and), ("||", .or), ("+", .add), ("-", .subtract),
    ("*", .multiply), ("/", .divide), ("%", .modulo), ("!", .not)]

/-- Operators as symbols only. -/
def java : DialectDraft := (operators { name := "java" } symbols).usual

/-- Operators as symbols, and methods; trees are written in this dialect. -/
def sharp : DialectDraft :=
  (operators { name := "sharp" } (symbols ++
    [("in", .isIn), ("as", .named), ("substring", .contains), ("startsWith", .startsWith),
      ("endsWith", .endsWith), ("concat", .concat), ("if", .conditional), ("count", .count),
      ("count_distinct", .countDistinct)])).usual

/-- Operators of a query language. -/
def sql : DialectDraft :=
  (((operators { name := "sql" }
    [("=", .equals), ("<>", .notEquals), (">=", .greaterOrEqual), ("<=", .lessOrEqual),
      (">", .greater), ("<", .less), ("and", .and), ("or", .or), ("in", .isIn),
      ("as", .named)]).operatorAs "||" .concat .binaryOperator).operators
    [("concat", .concat), ("+", .add), ("-", .subtract), ("*", .multiply), ("/", .divide),
      ("%", .modulo), ("not", .not), ("substring", .contains), ("startsWith", .startsWith),
      ("endsWith", .endsWith), ("if", .conditional), ("count", .count),
      ("count_distinct", .countDistinct)]).usual

/-- The built-in dialects in the order in which they are listed. -/
def builtins : List DialectDraft := [odata, java, sharp, sql]

end Criteria.DialectDraft

namespace Criteria.Dialect

/-- The names of the built-in dialects. -/
def builtinNames : List String := DialectDraft.builtins.map (·.name)

/-- The built-in dialect with the given name, in any case. -/
def builtin? (name : String) : Option (Except SyntaxError Dialect) :=
  (DialectDraft.builtins.find? fun d => Text.sameIgnoringCase d.name name).map (·.build)

end Criteria.Dialect
