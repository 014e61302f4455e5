import Primer.Operator
import Primer.Span
import Primer.Statement.Kind
import Primer.Store

/-!
# Diagnostics

Everything that can go wrong with a program is a `Cause`; its kind, wording and help are fixed
here and nowhere else.  A `Diagnostic` puts a cause at a place in the text of a statement, and a
context says which statement that was.
-/

namespace Primer

/-- The four families of errors. -/
inductive ErrorKind where
  | lexical
  | syntactic
  | expression
  | semantic
  deriving DecidableEq, Repr

/-- What went wrong. -/
inductive Cause where
  -- elements
  | unclosedString
  | unrecognized (text : String)
  | notNumber (text : String)
  -- lines of a program
  | invalidLabel (label : String)
  | bareLabel
  | duplicateLabel (label : String) (statement : Nat)
  | missingStop
  -- forms of statements
  | unknownStatement
  | missingKeyword (word : Keyword)
  | quotedTarget
  | missingTarget
  | missingIndex
  | unclosedTarget
  | invalidTarget (text : String)
  | missingSemicolon
  | missingEqual
  | missingParentheses
  | missingGoto
  | missingLabel
  | invalidArrayName (text : String)
  | invalidArrayForm
  | invalidPrint
  | missingComma
  | missingVariable
  | trailing (kind : StatementKind)
  -- expressions
  | missingExpression
  | unclosedIndex
  | adjacentOperands
  | operandBeforeParen
  | emptyParens
  | unfinishedParens
  | unopenedParen
  | unclosedParen
  | repeatedSign (previous : UnaryOp) (op : Operator)
  | missingLeft (op : Operator)
  | notBinary (op : Operator)
  | trailingOperator
  | stringOperand
  | unexpected (lexeme : String)
  | malformed
  -- names, values and streams
  | unassigned (name : String) (isArray : Bool)
  | uninitialized (name : String) (index : Float)
  | store (error : StoreError)
  | undefinedLabel (label : String)
  | unwritable (reason : String)
  | unreadable (reason : String)
  | endOfInput (name : String)
  | invalidInput (entry : String)
  -- control
  | ranOff
  | afterEnd
  -- reported from elsewhere
  | stated (kind : ErrorKind) (message : String) (help : Option String)
  deriving DecidableEq

namespace Cause

def kind : Cause → ErrorKind
  | .unclosedString | .unrecognized _ | .notNumber _ => .lexical
  | .invalidLabel _ | .bareLabel | .duplicateLabel .. => .syntactic
  | .unknownStatement | .missingKeyword _ | .quotedTarget | .missingTarget | .missingIndex
  | .unclosedTarget | .invalidTarget _ | .missingSemicolon | .missingEqual | .missingParentheses
  | .missingGoto | .missingLabel | .invalidArrayName _ | .invalidArrayForm | .invalidPrint
  | .missingComma | .missingVariable | .trailing _ | .unclosedIndex => .syntactic
  | .missingExpression | .adjacentOperands | .operandBeforeParen | .emptyParens
  | .unfinishedParens | .unopenedParen | .unclosedParen | .repeatedSign .. | .missingLeft _
  | .notBinary _ | .trailingOperator | .stringOperand | .unexpected _ | .malformed => .expression
  | .missingStop | .unassigned .. | .uninitialized .. | .store _ | .undefinedLabel _
  | .unwritable _ | .unreadable _ | .endOfInput _ | .invalidInput _ | .ranOff | .afterEnd => .semantic
  | .stated kind .. => kind

def message : Cause → String
  | .unclosedString => "Bad syntax. End of string not defined. '\"' character is missing."
  | .unrecognized text => s!"'{text}' is an unrecognized expression."
  | .notNumber text => s!"'{text}' is not a valid number."
  | .invalidLabel label => s!"'{label}' is an invalid label name."
  | .bareLabel => "Labeled line has no adjoining statement."
  | .duplicateLabel label statement =>
    s!"Multiple labels with the same name: '{label}' already labels statement {statement}."
  | .missingStop => "Missing stop statement."
  | .unknownStatement => "Unable to determine statement type"
  | .missingKeyword .dim => "Invalid array declaration statement."
  | .missingKeyword .read => "Invalid read statement."
  | .missingKeyword .goto => "Invalid goto statement."
  | .missingKeyword .if => "Invalid if statement."
  | .missingKeyword .print => "Invalid print statement."
  | .missingKeyword .stop => "Invalid stop statement"
  | .missingKeyword .end => "Invalid end statement"
  | .quotedTarget => "Invalid syntax."
  | .missingTarget =>
    "Invalid arithmetic statement. No proper variable or array to assign value to."
  | .missingIndex => "Array index unspecified"
  | .unclosedTarget => "Missing ']' character to end array expression."
  | .invalidTarget text => s!"{text} is an invalid expression to which to assign a value."
  | .missingSemicolon => "';' is missing from end of statement"
  | .missingEqual => "Invalid arithmetic statement. '=' is missing."
  | .missingParentheses => "If statement conditions must be enclosed by parentheses."
  | .missingGoto => "Invalid statement. If statement must have a goto."
  | .missingLabel => "Goto statement must be followed by a label"
  | .invalidArrayName text => s!"'{text}' is an invalid array name."
  | .invalidArrayForm =>
    "Array variable name must be of the form: 'dim <array name>[<array size>]'."
  | .invalidPrint => "Invalid print statement."
  | .missingComma => "Need comma separation in read statement"
  | .missingVariable => "Invalid syntax for read statement. Expected a variable to read into."
  | .trailing .assignment => "Extraneous elements at the end of arithmetic statement."
  | .trailing .if => "Extraneous elements at the end of an if statement."
  | .trailing .goto => "Extraneous elements at the end of a goto statement."
  | .trailing .dim => "Incorrect syntax for array declaration statement."
  | .trailing .print => "Extraneous elements at the end of print statement."
  | .trailing .read => "Extraneous elements at the end of read statement."
  | .trailing .stop => "Invalid stop statement"
  | .trailing .end => "Invalid end statement"
  | .unclosedIndex => "Invalid syntax for using arrays. ']' character is missing."
  | .missingExpression => "Arithmetic expression missing."
  | .adjacentOperands =>
    "Invalid arithmetic expression. Numbers must have an operator between them."
  | .operandBeforeParen => "Invalid arithmetic expression. An operand cannot precede '('."
  | .emptyParens =>
    "Invalid arithmetic expression. There must be an arithmetic expression inside parentheses."
  | .unfinishedParens => "Invalid arithmetic expression."
  | .unopenedParen => "Invalid arithmetic expression. Opening parenthesis missing."
  | .unclosedParen => "Invalid Arithmetic Expression. Ending parenthesis missing."
  | .repeatedSign previous op => s!"{previous.symbol}{op.symbol} is an invalid operation"
  | .missingLeft op =>
    s!"Invalid Arithmetic Expression. '{op.symbol}' needs a value on its left."
  | .notBinary op => s!"Invalid Arithmetic Expression. '{op.symbol}' is not a binary operator."
  | .trailingOperator =>
    "Invalid arithmetic expression. Arithmetic expressions cannot end with operators."
  | .stringOperand =>
    "Invalid syntax for arithmetic expression. Strings cannot be used as values."
  | .unexpected lexeme => s!"Invalid syntax for arithmetic expression. Unexpected '{lexeme}'."
  | .malformed => "Invalid Arithmetic Expression"
  | .unassigned name _ => s!"The variable {name} has not been assigned a value."
  | .uninitialized name index =>
    s!"The value at index {Number.render index} of the array {name} has not been initialized."
  | .store error => error.message
  | .undefinedLabel label => s!"'{label}' is an undefined label"
  | .unwritable reason => s!"Could not write output: {reason}"
  | .unreadable reason => s!"Could not read input: {reason}"
  | .endOfInput name => s!"Unexpected end of input while reading '{name}'."
  | .invalidInput entry => s!"Input value '{entry}' is not a valid number"
  | .ranOff => "Ran off the end of the program. No more lines to execute."
  | .afterEnd => "There can be no statements after the end statement."
  | .stated _ message _ => message

/-- The help on statements that go on where they should end. -/
def endingHelp : String := "every statement ends with a single ';' and nothing after it"

def help? : Cause → Option String
  | .invalidLabel _ => some "labels are identifiers that are not keywords"
  | .missingStop => some "every program needs at least one 'stop;' to finish"
  | .invalidTarget _ => some "assign to a variable 'x = ...;' or an array element 'a[i] = ...;'"
  | .invalidPrint => some "print takes quoted strings and expressions separated by ','"
  | .trailing _ => some endingHelp
  | .operandBeforeParen => some "put an operator between the value and the parenthesis"
  | .unassigned name true => some s!"'{name}' is an array; index it as {name}[<index>]"
  | .store error => error.help?
  | .ranOff => some "a program finishes only by executing 'stop;'"
  | .stated _ _ help => help
  | _ => none

end Cause

/-- The statement in which something went wrong. -/
structure Context where
  /-- The number of the statement, counted from one. -/
  number : Nat
  text : String
  /-- The byte position of `text` in the source. -/
  offset : Nat
  deriving DecidableEq

/-- A cause at a place in the text of a statement. -/
structure Diagnostic where
  cause : Cause
  span : Span
  context : Option Context := none
  deriving DecidableEq

namespace Diagnostic

/-- Pins the diagnostic to a statement; one that is pinned stays where it is. -/
def within (d : Diagnostic) (context : Context) : Diagnostic :=
  { d with context := d.context <|> some context }

/-- The report in one line. -/
def headline (d : Diagnostic) : String :=
  match d.context with
  | some c => s!"Error: Line {c.number}: \"{c.text}\": {d.cause.message}"
  | none => s!"Error: {d.cause.message}"

end Diagnostic

end Primer
