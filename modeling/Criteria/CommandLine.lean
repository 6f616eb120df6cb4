import Criteria.Report

/-!
# The command line

`CommandLine.read` turns the arguments of the program into a `Request`, or says why there is none:
help or the version is asked for, or an argument is refused. Arguments are taken in order and the
first of these wins.

* An option is given once by its word, as in `--dialect sql` or `--dialect=sql`, or by its letter.
  Letters may be joined, `-pi X`, and the value of the last one may follow at once, `-dsql` or
  `-d=sql`.
* A value that stands alone does not begin with a hyphen, unless it is only a hyphen.
* Behind `--` there are no options.

`Request.run` answers a request.
-/

namespace Criteria.CommandLine

/-- The options. -/
inductive Setting where
  | verbose
  | help
  | version
  | dialect
  | input
  | pretty
  | syntaxOnly
  deriving DecidableEq, Repr

namespace Setting

/-- The letter of an option. -/
def letter? : Setting → Option Char
  | verbose => some 'v'
  | help => some 'h'
  | version => some 'V'
  | dialect => some 'd'
  | input => some 'i'
  | pretty => some 'p'
  | syntaxOnly => none

/-- The word of an option. -/
def word : Setting → String
  | verbose => "verbose"
  | help => "help"
  | version => "version"
  | dialect => "dialect"
  | input => "input"
  | pretty => "pretty"
  | syntaxOnly => "syntax-only"

/-- Whether an option has a value. -/
def takesValue : Setting → Bool
  | dialect | input => true
  | _ => false

end Setting

/-- The commands. -/
inductive Command where
  | check
  | tokens
  | dialects
  deriving DecidableEq, Repr

namespace Command

/-- The command with the given name. -/
def ofName? : String → Option Command
  | "check" => some check
  | "tokens" => some tokens
  | "dialects" => some dialects
  | _ => none

/-- The options behind a command. -/
def settings : Command → List Setting
  | check => [.verbose, .help, .dialect, .input, .pretty, .syntaxOnly]
  | tokens => [.verbose, .help, .dialect]
  | dialects => [.verbose, .help]

end Command

/-- The options in front of a command. -/
def generalSettings : List Setting := [.verbose, .help, .version]

/-- Why there is nothing to do. -/
inductive Stop where
  | help
  | version
  | refused
  deriving DecidableEq, Repr

/-- Options given so far, with an empty value if they have none, and operands. -/
structure Given where
  settings : List (Setting × String) := []
  operands : List String := []
  deriving DecidableEq, Repr

namespace Given

/-- The value of an option. -/
def value? (g : Given) (s : Setting) : Option String :=
  (g.settings.find? fun entry => entry.1 = s).map (·.2)

/-- Whether an option is given. -/
def has (g : Given) (s : Setting) : Bool := (g.value? s).isSome

/-- Adds an option that is not given yet. -/
def add (g : Given) (s : Setting) (value : String) : Except Stop Given :=
  match s with
  | .help => .error .help
  | .version => .error .version
  | s => if g.has s then .error .refused else .ok { g with settings := (s, value) :: g.settings }

end Given

/-- What an argument or several have led to: an option may wait for its value. -/
abbrev Progress := Given × Option Setting

/-- Reads an option given by its word, perhaps with a value behind an equals sign. -/
def readWord (allowed : List Setting) (g : Given) (text : List Char) : Except Stop Progress :=
  let (name, rest) := text.span (· != '=')
  match allowed.find? fun s => s.word == String.ofList name with
  | none => .error .refused
  | some s =>
    match rest, s.takesValue with
    | [], true => .ok (g, some s)
    | [], false => return (← g.add s "", none)
    | _ :: value, true => return (← g.add s (String.ofList value), none)
    | _ :: _, false => .error .refused

/-- Reads joined letters. What follows the letter of an option with a value is the value. -/
def readLetters (allowed : List Setting) : Given → List Char → Except Stop Progress
  | g, [] => .ok (g, none)
  | g, c :: rest =>
    match allowed.find? fun s => s.letter? = some c with
    | none => .error .refused
    | some s =>
      if s.takesValue then
        match rest with
        | [] => .ok (g, some s)
        | '=' :: value => return (← g.add s (String.ofList value), none)
        | value => return (← g.add s (String.ofList value), none)
      else do readLetters allowed (← g.add s "") rest

/-- What an argument is by its first characters. -/
inductive Argument where
  | word (text : List Char)
  | letters (text : List Char)
  /-- Two hyphens, behind which there are no options. -/
  | endOfSettings
  | plain
  deriving DecidableEq, Repr

/-- Tells arguments apart. -/
def Argument.ofText (text : String) : Argument :=
  match text.toList with
  | ['-', '-'] => .endOfSettings
  | '-' :: '-' :: cs => .word cs
  | ['-'] => .plain
  | '-' :: cs => .letters cs
  | _ => .plain

/-- Reads the arguments behind a command, with room for one operand. -/
def readArguments (allowed : List Setting) : Progress → List String → Except Stop Given
  | (g, none), [] => .ok g
  | (_, some _), [] => .error .refused
  | (g, some s), text :: rest =>
    match Argument.ofText text with
    | .plain => do readArguments allowed (← g.add s text, none) rest
    | _ => .error .refused
  | (g, none), text :: rest =>
    match Argument.ofText text with
    | .word cs => do readArguments allowed (← readWord allowed g cs) rest
    | .letters cs => do readArguments allowed (← readLetters allowed g cs) rest
    | .endOfSettings =>
      let operands := g.operands ++ rest
      if operands.length ≤ 1 then .ok { g with operands } else .error .refused
    | .plain =>
      if g.operands.isEmpty then readArguments allowed ({ g with operands := [text] }, none) rest
      else .error .refused

/-- What the program is asked to do. -/
inductive Request where
  /-- To check an expression, and whether to write its value with indentation. -/
  | check (request : CheckRequest) (pretty : Bool)
  | tokens (expression : String) (dialect : Option String)
  | overview
  | describe (dialect : String)
  deriving DecidableEq, Repr

/-- The request of a command with what is given behind it. A dialect that is not given is the one
of the environment. -/
def request (c : Command) (g : Given) (environment : Option String) : Except Stop Request :=
  let dialect := (g.value? .dialect).or environment
  match c, g.operands with
  | .check, [expression] =>
    .ok (.check ⟨expression, dialect, g.value? .input, g.has .syntaxOnly⟩ (g.has .pretty))
  | .tokens, [expression] => .ok (.tokens expression dialect)
  | .dialects, [] => .ok .overview
  | .dialects, [name] => .ok (.describe name)
  | _, _ => .error .refused

/-- Help on the program or one of its commands. -/
def readHelp : List String → Stop
  | [] => .help
  | [name] => if name == "help" || (Command.ofName? name).isSome then .help else .refused
  | _ => .refused

/-- Reads arguments from the general options on. -/
def readFrom (environment : Option String) : Given → List String → Except Stop Request
  | _, [] => .error .refused
  | g, text :: rest =>
    match Argument.ofText text with
    | .word cs => do readFrom environment (← readWord generalSettings g cs).1 rest
    | .letters cs => do readFrom environment (← readLetters generalSettings g cs).1 rest
    | .endOfSettings => .error .refused
    | .plain =>
      if text == "help" then .error (readHelp rest)
      else
        match Command.ofName? text with
        | some c => do request c (← readArguments c.settings ({}, none) rest) environment
        | none => .error .refused

/-- Reads the arguments of the program. The environment may name a dialect. -/
def read (arguments : List String) (environment : Option String) : Except Stop Request :=
  readFrom environment {} arguments

/-- What the program writes and how it ends. -/
structure Outcome where
  exitCode : UInt8
  output : String := ""
  errors : String := ""
  deriving DecidableEq, Repr

namespace Request

/-- Whether a request takes its document from the standard input. -/
def needsInput : Request → Bool
  | check r _ => r.input.isNone && !r.syntaxOnly
  | _ => false

/-- The request with the document from the standard input if it needs one. -/
def withInput (r : Request) (text : String) : Request :=
  match r with
  | check c pretty => if r.needsInput then check { c with input := some text } pretty else r
  | r => r

/-- The text that answers a request. -/
def answer : Request → Except ReportError String
  | check r pretty => do
    match ← Report.check r with
    | .valid rendering => return "Syntax is valid: " ++ rendering ++ "\n"
    | .result j => return (if pretty then j.renderPretty else j.render) ++ "\n"
  | tokens expression dialect => do
    return String.join ((← Report.tokens expression dialect).map fun t => t.render ++ "\n")
  | overview => .ok Report.overview
  | describe dialect => Report.describe dialect

/-- Answers a request. -/
def run (r : Request) : Outcome :=
  match r.answer with
  | .ok text => ⟨0, text, ""⟩
  | .error e => ⟨1, "", e.message ++ "\n"⟩

end Request

/-- How to use the program. -/
def usage : String :=
  "Parse, check and evaluate filter expressions in several dialects

Usage: clause [-v] check <EXPRESSION> [-d DIALECT] [-i JSON] [-p] [--syntax-only]
       clause [-v] tokens <EXPRESSION> [-d DIALECT]
       clause [-v] dialects [NAME]
"

/-- The outcome if there is nothing to do. -/
def Stop.outcome : Stop → Outcome
  | help => ⟨0, usage, ""⟩
  | version => ⟨0, "clause 0.1.0\n", ""⟩
  | refused => ⟨2, "", usage⟩

/-- Runs the program; only a request that needs it looks at the standard input, if there is one. -/
def run (arguments : List String) (environment input : Option String) : Outcome :=
  match read arguments environment with
  | .error stop => stop.outcome
  | .ok r => ((input.map r.withInput).getD r).run

end Criteria.CommandLine
