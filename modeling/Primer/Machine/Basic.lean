import Primer.Machine.Stream
import Primer.Program
import Primer.Record

/-!
# The machine

The state of a run: the program with the place in it, the store, an input `I` and an output `O`,
and the log.  An `Action` reads the tokens of the statement under execution and changes the machine;
what it did before a fault stays done.
-/

namespace Primer

/-- After `end;` a machine is terminated for good. -/
inductive Phase where
  | running
  | terminated
  deriving DecidableEq, Repr

structure Machine (I : Type := List UInt8) (O : Type := Sink) where
  program : Program
  store : Store
  phase : Phase
  /-- The index of the next statement. -/
  counter : Nat
  /-- What is still to be read. -/
  input : I
  sink : O
  /-- The tokens of the statements that have been reached. -/
  cache : Std.ExtTreeMap Nat (List Token)
  log : Log

variable {I O : Type}

namespace Machine

/-- A machine before the first statement. -/
def start (program : Program) (input : I) (sink : O) (log : Log) : Machine I O :=
  ⟨program, .empty, .running, 0, input, sink, ∅, log⟩

def note (m : Machine I O) (r : Record) : Machine I O := { m with log := m.log.note r }

/-- The tokens of the statement at `index`, kept for the next time it is reached. -/
def tokensOf (m : Machine I O) (index : Nat) (text : String) :
    Except Diagnostic (List Token) × Machine I O :=
  match m.cache[index]? with
  | some tokens => (.ok tokens, m)
  | none =>
    match tokenize text with
    | .error d => (.error d, m)
    | .ok tokens =>
      let m := m.note (.tokenized (index + 1) tokens)
      (.ok tokens, { m with cache := m.cache.insert index tokens })

end Machine

/-- A statement under execution. -/
structure Work (I : Type := List UInt8) (O : Type := Sink) where
  cursor : Cursor
  machine : Machine I O

abbrev Action (I O : Type) := EStateM Diagnostic (Work I O)

namespace Action

/-- Reads tokens. -/
def parse {α : Type} (p : Parse α) : Action I O α := fun w =>
  match p w.cursor with
  | .ok a cursor => .ok a { w with cursor }
  | .error d cursor => .error d { w with cursor }

/-- The span of the next token. -/
def here : Action I O Span := return (← get).cursor.here

def peek? : Action I O (Option Token) := return (← get).cursor.peek?

def fail {α : Type} (cause : Cause) (span : Span) : Action I O α := throw ⟨cause, span, none⟩

/-- Reads an expression with `evaluation`, and records the operators that it applies. -/
def evaluating (evaluation : Store → Cursor → Expression.Evaluation) : Action I O Float := fun w =>
  let e := evaluation w.machine.store w.cursor
  let w : Work I O :=
    ⟨{ w.cursor with rest := e.rest }, { w.machine with log := w.machine.log.noteAll e.trace }⟩
  match e.value with
  | .ok value => .ok value w
  | .error d => .error d w

/-- The value of the next expression. -/
def expression : Action I O Float := evaluating evaluate

/-- The value of an index whose bracket has been opened, with the bracket that closes it. -/
def subscript : Action I O Float := evaluating evaluateIndex

def note (r : Record) : Action I O Unit :=
  modify fun w => { w with machine := w.machine.note r }

/-- Writes text to the output. -/
def write [Writer O] (text : String) : Action I O Unit := fun w =>
  let (result, sink) := Writer.write w.machine.sink text.toUTF8
  let w := { w with machine := { w.machine with sink } }
  match result with
  | .ok () => .ok () w
  | .error reason => .error ⟨.unwritable reason, .single 0, none⟩ w

def flush [Writer O] : Action I O Unit := fun w =>
  let (result, sink) := Writer.flush w.machine.sink
  let w := { w with machine := { w.machine with sink } }
  match result with
  | .ok () => .ok () w
  | .error reason => .error ⟨.unwritable reason, .single 0, none⟩ w

/-- Takes the next entry from the input. -/
def entry [Reader I] : Action I O Input.Entry := fun w =>
  let (entry, input) := Input.entry w.machine.input
  .ok entry { w with machine := { w.machine with input } }

/-- Sets a scalar. -/
def record (name : Token) (value : Float) : Action I O Unit :=
  modify fun w =>
    { w with machine := { w.machine with store := w.machine.store.record name.lexeme value } }

/-- Sets an array element that spans `span`. -/
def assign (name : Token) (index value : Float) (span : Span) : Action I O Unit := fun w =>
  match w.machine.store.assign name.lexeme index value with
  | .ok store => .ok () { w with machine := { w.machine with store } }
  | .error e => .error ⟨.store e, span, none⟩ w

/-- Sets a scalar, or an array element if there is an index. -/
def store (name : Token) (index : Option Float) (value : Float) (span : Span) : Action I O Unit :=
  match index with
  | some index => assign name index value span
  | none => record name value

/-- Declares an array and gives its size. -/
def declare (name : Token) (size : Float) (span : Span) : Action I O Nat := fun w =>
  match w.machine.store.declare name.lexeme size with
  | .ok (n, store) => .ok n { w with machine := { w.machine with store } }
  | .error e => .error ⟨.store e, span, none⟩ w

/-- The statement that a label marks. -/
def target (label : Token) : Action I O Nat := do
  match (← get).machine.program.location? label.lexeme with
  | some index => return index
  | none => fail (.undefinedLabel label.lexeme) label.span

end Action

end Primer
