import Primer.Cursor
import Primer.Token.Lexer

/-!
# Expressions

An expression is evaluated while it is read, with a stack of operators that wait for their right
operand and a stack of operands.  Operators of higher precedence are applied first, equal ones from
the left, and a sign before a value binds tightest.  The index of an array element is an expression
of its own: the outer one is suspended until its bracket closes.  `Yard.step` takes one element,
and `evaluate` takes them up to the end of the expression.
-/

namespace Primer

namespace Token

/-- A comma, a semicolon, a closing bracket or `goto` ends an expression and is left unread. -/
def isTerminator (t : Token) : Bool :=
  t.isPunctuation .comma || t.isPunctuation .semicolon || t.isPunctuation .rightBracket ||
    t.isKeyword .goto

end Token

namespace Expression

/-- What can wait on the operator stack. -/
inductive Entry where
  | paren
  | unary (op : UnaryOp)
  | binary (op : BinaryOp)
  deriving DecidableEq

def Entry.precedence : Entry → Nat
  | .paren => 1
  | .binary op => op.precedence
  | .unary _ => 5

/-- The application of one operator. -/
inductive Reduction where
  | unary (op : UnaryOp) (operand result : Float)
  | binary (op : BinaryOp) (left right result : Float)

/-- What was read last in an expression; it tells a sign from an operation. -/
inductive Last where
  | nothing
  | operand
  | operator
  deriving DecidableEq

/-- The two stacks, tops first. -/
structure Stacks where
  operators : List (Entry × Span)
  operands : List Float

/-- One expression under way: where it began, its stacks and what was read last. -/
structure Level where
  start : Span
  held : Stacks
  last : Last

/-- An expression that waits for the index of the array `name`. -/
structure Suspended where
  name : Token
  level : Level

/-- The state between two elements: the expression under way, those around it, innermost first, the
tokens to come, and the operators applied so far, latest first. -/
structure Yard where
  level : Level
  outer : List Suspended
  rest : List Token
  trace : List Reduction

/-- The outcome of an evaluation: its value, the tokens left unread, and the operators applied. -/
structure Evaluation where
  value : Except Diagnostic Float
  rest : List Token
  trace : List Reduction

/-! ### Applying operators -/

/-- Applies one operator to the operands on top; `none` if they do not suffice. -/
def Entry.apply? : Entry → List Float → Option (Reduction × List Float)
  | .unary op, x :: xs => some (.unary op x (op.apply x), op.apply x :: xs)
  | .binary op, right :: left :: xs =>
    some (.binary op left right (op.apply left right), op.apply left right :: xs)
  | _, _ => none

/-- The outcome of applying operators from the top of a stack down. -/
structure Unwound where
  /-- The place of an operator that lacked an operand. -/
  fault : Option Span
  held : Stacks
  trace : List Reduction

/-- Applies the operators on top as long as `p` holds of them. -/
def unwind (p : Entry → Bool) : List (Entry × Span) → List Float → List Reduction → Unwound
  | [], operands, trace => ⟨none, ⟨[], operands⟩, trace⟩
  | (entry, span) :: operators, operands, trace =>
    if p entry then
      match entry.apply? operands with
      | some (reduction, operands) => unwind p operators operands (reduction :: trace)
      | none => ⟨some span, ⟨operators, operands⟩, trace⟩
    else ⟨none, ⟨(entry, span) :: operators, operands⟩, trace⟩

/-- What an action on a level leads to: another level, or a fault in it. -/
structure Move where
  result : Except Diagnostic Level
  trace : List Reduction

def fault (cause : Cause) (span : Span) (trace : List Reduction) : Move :=
  ⟨.error ⟨cause, span, none⟩, trace⟩

namespace Level

def init (start : Span) : Level := ⟨start, ⟨[], []⟩, .nothing⟩

/-- A value has been read. -/
def push (l : Level) (value : Float) : Level :=
  { l with held := { l.held with operands := value :: l.held.operands }, last := .operand }

/-- An operator or an opening parenthesis has been read. -/
def wait (l : Level) (entry : Entry) (span : Span) : Level :=
  { l with
    held := { l.held with operators := (entry, span) :: l.held.operators }, last := .operator }

def unwind (l : Level) (p : Entry → Bool) (trace : List Reduction) : Unwound :=
  Expression.unwind p l.held.operators l.held.operands trace

/-- Reads an opening parenthesis. -/
def openParen (l : Level) (span : Span) (trace : List Reduction) : Move :=
  if l.last = .operand then fault .operandBeforeParen span trace
  else ⟨.ok (l.wait .paren span), trace⟩

/-- Reads a closing parenthesis: applies what waits inside the pair. -/
def closeParen (l : Level) (span : Span) (trace : List Reduction) : Move :=
  if l.last ≠ .operand then
    match l.held.operators with
    | (.paren, _) :: _ => fault .emptyParens span trace
    | _ => fault .unfinishedParens span trace
  else
    let u := l.unwind (· ≠ .paren) trace
    match u.fault, u.held.operators with
    | some place, _ => fault .malformed place u.trace
    | none, [] => fault .unopenedParen span u.trace
    | none, _ :: operators =>
      ⟨.ok { l with held := { u.held with operators }, last := .operand }, u.trace⟩

/-- Reads an operator.  Behind an operand it is binary and applies what binds at least as tightly;
elsewhere it is a sign, and a sign cannot follow a sign. -/
def operator (l : Level) (op : Operator) (span : Span) (trace : List Reduction) : Move :=
  if l.last = .operand then
    match BinaryOp.ofOperator? op with
    | none => fault (.notBinary op) span trace
    | some binary =>
      let u := l.unwind (binary.precedence ≤ ·.precedence) trace
      match u.fault with
      | some place => fault .malformed place u.trace
      | none => ⟨.ok (wait { l with held := u.held } (.binary binary) span), u.trace⟩
  else
    match l.held.operators, UnaryOp.ofOperator? op with
    | (.unary previous, _) :: _, _ => fault (.repeatedSign previous op) span trace
    | _, none => fault (.missingLeft op) span trace
    | _, some unary => ⟨.ok (l.wait (.unary unary) span), trace⟩

/-- Ends the expression at the place `here`: its value, or why it has none. -/
def close (l : Level) (here : Span) (trace : List Reduction) :
    Except Diagnostic Float × List Reduction :=
  match l.last with
  | .nothing => (.error ⟨.missingExpression, l.start, none⟩, trace)
  | .operator => (.error ⟨.trailingOperator, here, none⟩, trace)
  | .operand =>
    let u := l.unwind (· ≠ .paren) trace
    match u.fault, u.held.operators, u.held.operands with
    | some place, _, _ => (.error ⟨.malformed, place, none⟩, u.trace)
    | none, (_, span) :: _, _ => (.error ⟨.unclosedParen, span, none⟩, u.trace)
    | none, [], [value] => (.ok value, u.trace)
    | none, [], _ => (.error ⟨.malformed, l.start.union here, none⟩, u.trace)

end Level

/-! ### Names -/

/-- The value of a scalar. -/
def scalar (s : Store) (name : Token) : Except Diagnostic Float :=
  match s.get? name.lexeme with
  | some value => .ok value
  | none => .error ⟨.unassigned name.lexeme (s.isDeclared name.lexeme), name.span, none⟩

/-- The value of an array element that spans `span`. -/
def element (s : Store) (name : Token) (index : Float) (span : Span) : Except Diagnostic Float :=
  match s.element? name.lexeme index with
  | .error e => .error ⟨.store e, span, none⟩
  | .ok none => .error ⟨.uninitialized name.lexeme index, span, none⟩
  | .ok (some value) => .ok value

/-! ### The evaluation -/

/-- One step of an evaluation: on to the next element, or the end. -/
inductive Progress where
  | next (y : Yard)
  | done (e : Evaluation)

namespace Yard

/-- Ends with a value or a fault, `rest` being unread. -/
def halt (y : Yard) (value : Except Diagnostic Float) (rest : List Token) : Progress :=
  .done ⟨value, rest, y.trace⟩

/-- Goes on with a new level, or ends with the fault that was found instead. -/
def move (y : Yard) (m : Move) (rest : List Token) : Progress :=
  match m.result with
  | .ok level => .next { y with level, rest, trace := m.trace }
  | .error d => .done ⟨.error d, rest, m.trace⟩

/-- Goes on behind a value, or ends with the fault that was found instead. -/
def operand (y : Yard) (value : Except Diagnostic Float) (rest : List Token) : Progress :=
  match value with
  | .ok x => .next { y with level := y.level.push x, rest }
  | .error d => y.halt (.error d) rest

/-- Ends the expression under way, in front of `y.rest`.  An index goes back to the expression
around it if its bracket closes here. -/
def endLevel (s : Store) (length : Nat) (y : Yard) : Progress :=
  let here := Cursor.spanAt y.rest length
  let (value, trace) := y.level.close here y.trace
  let y := { y with trace }
  match value, y.outer with
  | .error d, _ => y.halt (.error d) y.rest
  | .ok value, [] => y.halt (.ok value) y.rest
  | .ok index, ⟨name, level⟩ :: outer =>
    match y.rest with
    | t :: rest =>
      if t.isPunctuation .rightBracket then
        let span := name.span.union (Cursor.spanAt rest length)
        operand { y with level, outer } (element s name index span) rest
      else y.halt (.error ⟨.unclosedIndex, here, none⟩) y.rest
    | [] => y.halt (.error ⟨.unclosedIndex, here, none⟩) y.rest

/-- Reads the name of a scalar, or that of an array with the bracket that opens its index. -/
def name (s : Store) (length : Nat) (y : Yard) (t : Token) (rest : List Token) : Progress :=
  match rest with
  | [] => y.operand (scalar s t) []
  | t' :: rest' =>
    if t'.isPunctuation .leftBracket then
      .next { y with
        level := .init (Cursor.spanAt rest' length)
        outer := ⟨t, y.level⟩ :: y.outer
        rest := rest' }
    else y.operand (scalar s t) rest

/-- Takes the next element, or ends the expression in front of a terminator or at the end. -/
def step (s : Store) (length : Nat) (y : Yard) : Progress :=
  match y.rest with
  | [] => y.endLevel s length
  | t :: rest =>
    if t.isTerminator then y.endLevel s length
    else match t.kind with
      | .number value =>
        if y.level.last = .operand then y.halt (.error ⟨.adjacentOperands, t.span, none⟩) rest
        else y.operand (.ok value) rest
      | .identifier =>
        if y.level.last = .operand then y.halt (.error ⟨.adjacentOperands, t.span, none⟩) rest
        else y.name s length t rest
      | .punctuation .leftParen => y.move (y.level.openParen t.span y.trace) rest
      | .punctuation .rightParen => y.move (y.level.closeParen t.span y.trace) rest
      | .operator op => y.move (y.level.operator op t.span y.trace) rest
      | .string => y.halt (.error ⟨.stringOperand, t.span, none⟩) rest
      | .keyword _ | .punctuation _ => y.halt (.error ⟨.unexpected t.lexeme, t.span, none⟩) rest

theorem rest_of_move {y y' : Yard} {m : Move} {rest : List Token} (h : y.move m rest = .next y') :
    y'.rest = rest := by
  unfold move at h
  split at h <;> simp at h
  rw [← h]

theorem rest_of_operand {y y' : Yard} {value : Except Diagnostic Float} {rest : List Token}
    (h : y.operand value rest = .next y') : y'.rest = rest := by
  unfold operand halt at h
  split at h <;> simp at h
  rw [← h]

theorem length_lt_of_endLevel {s : Store} {length : Nat} {y y' : Yard}
    (h : y.endLevel s length = .next y') : y'.rest.length < y.rest.length := by
  unfold endLevel at h
  simp only at h
  split at h
  · simp [halt] at h
  · simp [halt] at h
  · split at h
    · split at h
      · have hr := rest_of_operand h
        simp_all
      · simp [halt] at h
    · simp [halt] at h

/-- A step that goes on takes at least one token. -/
theorem length_lt_of_step {s : Store} {length : Nat} {y y' : Yard}
    (h : y.step s length = .next y') : y'.rest.length < y.rest.length := by
  unfold step at h
  split at h
  · exact length_lt_of_endLevel h
  · rename_i t rest hr
    rw [hr]
    split at h
    · exact hr ▸ length_lt_of_endLevel h
    · split at h
      · split at h
        · simp [halt] at h
        · simp [rest_of_operand h]
      · split at h
        · simp [halt] at h
        · unfold name at h
          split at h
          · simp [rest_of_operand h]
          · split at h
            · simp only [Progress.next.injEq] at h
              rw [← h]
              simp only [List.length_cons]
              omega
            · simp [rest_of_operand h]
      · simp [rest_of_move h]
      · simp [rest_of_move h]
      · simp [rest_of_move h]
      · simp [halt] at h
      · simp [halt] at h
      · simp [halt] at h

/-- Takes elements until the expression ends. -/
def run (s : Store) (length : Nat) (y : Yard) : Evaluation :=
  match _h : y.step s length with
  | .next y' => run s length y'
  | .done e => e
termination_by y.rest.length
decreasing_by exact length_lt_of_step _h

end Yard

end Expression

open Expression

/-- Evaluates the expression under the cursor, up to its terminator. -/
def evaluate (s : Store) (c : Cursor) : Evaluation :=
  Yard.run s c.length ⟨.init c.here, [], c.rest, []⟩

/-- Evaluates an index whose opening bracket has been read, and reads the bracket that closes it. -/
def evaluateIndex (s : Store) (c : Cursor) : Evaluation :=
  let e := evaluate s c
  let closing := Parse.punctuation .rightBracket .unclosedIndex
  match e.value with
  | .error _ => e
  | .ok _ =>
    match closing { c with rest := e.rest } with
    | .ok _ c => { e with rest := c.rest }
    | .error d _ => { e with value := .error d }

/-- Evaluates a text that is an expression on its own. -/
def evaluateText (s : Store) (text : String) : Except Diagnostic Float × List Reduction :=
  match tokenize text with
  | .error d => (.error d, [])
  | .ok tokens =>
    let e := evaluate s (.ofTokens tokens text.utf8ByteSize)
    (e.value, e.trace)

end Primer
