import Primer.Machine.Basic

/-!
# Execution of statements

One action for each kind of statement, read from its tokens while it takes effect, and
`Machine.step`, which executes the statement under the program counter.
-/

namespace Primer

/-- What a statement does to the order of execution. -/
inductive Flow where
  | next
  | jump (target : Nat)
  | terminate
  | stop
  deriving DecidableEq

variable {I O : Type}

namespace Action

/-- Requires the end of a statement. -/
def finish (kind : StatementKind) : Action I O Unit :=
  parse (Parse.finish (.trailing kind))

/-- The index of an array element, if the name before it opens a bracket. -/
def index? : Action I O (Option Float) := do
  if ← parse (Parse.skip .leftBracket) then return some (← subscript)
  else return none

/-- `name = expr;` or `name[expr] = expr;` -/
def assignment : Action I O Flow := do
  let name ← parse (Parse.identifier .missingTarget)
  let index ← index?
  let span := name.span.union (← here)
  let _ ← parse (Parse.punctuation .equal .missingEqual)
  let value ← expression
  finish .assignment
  store name index value span
  return .next

/-- Requires `goto` behind the parenthesis that closes a condition. -/
def checkCondition : Action I O Unit := do
  let cursor := (← get).cursor
  if !cursor.isAt .leftParen then fail .missingParentheses cursor.here
  match afterClosing? .leftParen .rightParen 0 cursor.rest with
  | some (t :: _) => if !t.isKeyword .goto then fail .missingGoto t.span
  | _ => return

/-- `(expr) goto label;` behind `if` -/
def conditional : Action I O Flow := do
  checkCondition
  let condition ← expression
  let _ ← parse (Parse.keyword .goto .missingGoto)
  let label ← parse (Parse.identifier .missingLabel)
  finish .if
  if condition != 0 then return .jump (← target label) else return .next

/-- `label;` behind `goto` -/
def goto : Action I O Flow := do
  let label ← parse (Parse.identifier .missingLabel)
  finish .goto
  return .jump (← target label)

/-- The name of an array to declare. -/
def arrayName : Action I O Token := do
  match ← peek? with
  | some t => parse (Parse.identifier (.invalidArrayName t.lexeme))
  | none => parse (Parse.identifier .invalidArrayForm)

/-- `name[expr];` behind `dim` -/
def dim : Action I O Flow := do
  let name ← arrayName
  let _ ← parse (Parse.punctuation .leftBracket .invalidArrayForm)
  let size ← expression
  let _ ← parse (Parse.punctuation .rightBracket .invalidArrayForm)
  let span := name.span.union (← here)
  finish .dim
  let size ← declare name size span
  note (.declared name.lexeme size)
  return .next

/-- Whether an expression to print can start with this token. -/
def startsExpression (t : Token) : Bool :=
  match t.kind with
  | .number _ | .identifier | .operator _ | .punctuation .leftParen => true
  | _ => false

variable [Reader I] [Writer O]

/-- Writes one item: a string, or the value of an expression. -/
def printItem : Action I O Unit := do
  match ← peek? with
  | some t =>
    if t.isString then
      let _ ← parse Parse.advance
      write t.lexeme
    else if startsExpression t then
      let value ← expression
      write (Number.render value)
    else fail .invalidPrint (← here)
  | none => fail .invalidPrint (← here)

/-- Writes items as long as commas follow.  Each item takes a token, so `fuel` beyond the number of
tokens is enough. -/
def printItems : Nat → Action I O Unit
  | 0 => return
  | fuel + 1 => do
    printItem
    if ← parse (Parse.skip .comma) then printItems fuel

/-- `item, item, ...;` behind `print` -/
def print : Action I O Flow := do
  printItems ((← get).cursor.rest.length + 1)
  write "\n"
  finish .print
  return .next

/-- Reads the value of the next entry, for the variable `name`. -/
def readNumber (name : Token) : Action I O Float := do
  flush
  match ← entry with
  | .ended => fail (.endOfInput name.lexeme) name.span
  | .failed reason => fail (.unreadable reason) name.span
  | .text entry =>
    match if Word.isNumber entry then Number.read? entry else none with
    | some value => return value
    | none => fail (.invalidInput (String.ofList entry)) name.span

/-- Reads a value into a variable or an array element.  The value comes before the index. -/
def readTarget : Action I O Unit := do
  let name ← parse (Parse.identifier .missingVariable)
  let value ← readNumber name
  let index ← index?
  store name index value (name.span.union (← here))

/-- Reads into targets as long as commas follow, with `fuel` as for `printItems`. -/
def readTargets : Nat → Action I O Unit
  | 0 => return
  | fuel + 1 => do
    readTarget
    if ← parse (Parse.skip .comma) then readTargets fuel

/-- Writes the prompt of a `read`, if it has one. -/
def prompt : Action I O Unit := do
  match ← peek? with
  | some t =>
    if t.isString then
      let _ ← parse Parse.advance
      write t.lexeme
      let _ ← parse (Parse.punctuation .comma .missingComma)
  | none => return

/-- `"prompt", target, target, ...;` behind `read` -/
def read : Action I O Flow := do
  prompt
  readTargets ((← get).cursor.rest.length + 1)
  finish .read
  return .next

/-- Takes the keyword that a statement starts with. -/
def heading (word : Keyword) : Action I O Token :=
  parse (Parse.keyword word (.missingKeyword word))

/-- Executes a statement of the given kind, from its first token. -/
def statement : StatementKind → Action I O Flow
  | .assignment => assignment
  | .if => do let _ ← heading .if; conditional
  | .goto => do let _ ← heading .goto; goto
  | .dim => do let _ ← heading .dim; dim
  | .print => do let _ ← heading .print; print
  | .read => do let _ ← heading .read; read
  | .stop => do let _ ← heading .stop; finish .stop; return .stop
  | .end => do let _ ← heading .end; finish .end; return .terminate

end Action

/-- The outcome of a step. -/
inductive Step where
  | continue
  | stopped
  deriving DecidableEq, Repr

namespace Machine

/-- Moves the program counter as a statement asks. -/
def follow (m : Machine I O) : Flow → Step × Machine I O
  | .next => (.continue, { m with counter := m.counter + 1 })
  | .jump target =>
    (.continue, { m.note (.jumped (m.counter + 1) (target + 1)) with counter := target })
  | .terminate => (.continue, { m with phase := .terminated, counter := m.counter + 1 })
  | .stop => (.stopped, m)

/-- Whether a text ends in a semicolon, apart from blanks. -/
def isClosed (text : String) : Bool :=
  (Text.trimEnd isBlank text.toList).getLast? = some ';'

variable [Reader I] [Writer O]

/-- Executes a statement. -/
def execute (m : Machine I O) (s : Statement) : Except Diagnostic Step × Machine I O :=
  if !isClosed s.text then
    (.error ⟨.missingSemicolon, .single (s.text.utf8ByteSize - 1), none⟩, m)
  else
    match m.tokensOf m.counter s.text with
    | (.error d, m) => (.error d, m)
    | (.ok tokens, m) =>
      match classify s.text tokens with
      | .error d => (.error d, m)
      | .ok kind =>
        let m := m.note (.executing (m.counter + 1) s.line kind s.text)
        match Action.statement kind ⟨.ofTokens tokens s.text.utf8ByteSize, m⟩ with
        | .error d w => (.error d, w.machine)
        | .ok flow w =>
          let (step, m) := w.machine.follow flow
          (.ok step, m)

/-- Executes the statement under the program counter.  Its faults are pinned to it. -/
def step (m : Machine I O) : Except Diagnostic Step × Machine I O :=
  match m.program.statements[m.counter]? with
  | none => (.error ⟨.ranOff, .single 0, none⟩, m)
  | some s =>
    let context : Context := ⟨m.counter + 1, s.text, s.offset⟩
    match m.phase with
    | .terminated => (.error ⟨.afterEnd, ⟨0, s.text.utf8ByteSize⟩, some context⟩, m)
    | .running =>
      let (result, m) := m.execute s
      (result.mapError (·.within context), m)

end Machine

end Primer
