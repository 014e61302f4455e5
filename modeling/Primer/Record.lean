import Primer.Expression
import Primer.Statement.Classify
import Primer.Text.Quoted

/-!
# Records

What a run tells about itself, by level of detail.  A `Log` keeps the records up to its level.
-/

namespace Primer

/-- Levels of detail, each with all before it. -/
inductive Detail where
  | warn
  | info
  | debug
  | trace
  deriving DecidableEq, Repr

namespace Detail

def rank : Detail → Nat
  | .warn => 0
  | .info => 1
  | .debug => 2
  | .trace => 3

def name : Detail → String
  | .warn => "WARN"
  | .info => "INFO"
  | .debug => "DEBUG"
  | .trace => "TRACE"

end Detail

/-- The events that are recorded; statements are counted from one. -/
inductive Record where
  | loaded (statements labels : Nat)
  | announced (statements labels : Nat)
  | tokenized (statement : Nat) (tokens : List Token)
  | executing (statement line : Nat) (kind : StatementKind) (text : String)
  | jumped (source target : Nat)
  | declared (name : String) (size : Nat)
  | stopped (statement : Nat)
  | reduced (reduction : Expression.Reduction)

namespace Record

def detail : Record → Detail
  | .announced .. | .stopped _ => .info
  | .loaded .. | .executing .. | .jumped .. | .declared .. => .debug
  | .tokenized .. | .reduced _ => .trace

/-- The part of the program that speaks. -/
def origin : Record → String
  | .loaded .. => "duck::program"
  | .announced .. => "duck::runner"
  | .tokenized .. | .executing .. | .jumped .. | .declared .. | .stopped _ => "duck::interpreter"
  | .reduced _ => "duck::evaluator"

def text : Record → String
  | .loaded statements labels => s!"loaded {statements} statements, {labels} labels"
  | .announced statements labels => s!"program has {statements} statements and {labels} labels"
  | .tokenized statement tokens =>
    s!"tokens [{statement}]: " ++ Text.Quoted.encodeList (tokens.map Token.display)
  | .executing statement line kind text => s!"[{statement}] line {line} {kind.name}: {text}"
  | .jumped source target => s!"jump {source} -> {target}"
  | .declared name size => s!"declared array {name}[{size}]"
  | .stopped statement => s!"program stopped at statement {statement}"
  | .reduced (.unary op operand result) =>
    s!"reduce {op.symbol}{Number.render operand} = {Number.render result}"
  | .reduced (.binary op left right result) =>
    s!"reduce {Number.render left} {op.name} {Number.render right} = {Number.render result}"

/-- The record as a line of the log on the screen. -/
def line (r : Record) : String :=
  let name := r.detail.name
  name ++ String.ofList (List.replicate (5 - name.length) ' ') ++ s!" [{r.origin}] {r.text}"

end Record

/-- Records up to a level of detail, in order. -/
structure Log where
  detail : Detail
  records : Array Record

namespace Log

def init (detail : Detail) : Log := ⟨detail, #[]⟩

/-- Keeps a record if its level is asked for. -/
def note (log : Log) (r : Record) : Log :=
  if r.detail.rank ≤ log.detail.rank then { log with records := log.records.push r } else log

/-- Keeps the operators that an evaluation applied, which come latest first. -/
def noteAll (log : Log) (trace : List Expression.Reduction) : Log :=
  trace.foldr (fun r log => log.note (.reduced r)) log

end Log

end Primer
