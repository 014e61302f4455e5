/-!
# Operators

The operator signs of the language and what they compute, with one operand or with two.
-/

namespace Primer

/-- The operator signs. -/
inductive Operator where
  | plus
  | minus
  | star
  | slash
  | less
  | greater
  | bang
  | equalEqual
  | greaterEqual
  | lessEqual
  | bangEqual
  deriving DecidableEq, Repr

namespace Operator

def symbol : Operator → String
  | .plus => "+"
  | .minus => "-"
  | .star => "*"
  | .slash => "/"
  | .less => "<"
  | .greater => ">"
  | .bang => "!"
  | .equalEqual => "=="
  | .greaterEqual => ">="
  | .lessEqual => "<="
  | .bangEqual => "!="

/-- The sign with this text. -/
def ofText? : List Char → Option Operator
  | ['+'] => some .plus
  | ['-'] => some .minus
  | ['*'] => some .star
  | ['/'] => some .slash
  | ['<'] => some .less
  | ['>'] => some .greater
  | ['!'] => some .bang
  | ['=', '='] => some .equalEqual
  | ['>', '='] => some .greaterEqual
  | ['<', '='] => some .lessEqual
  | ['!', '='] => some .bangEqual
  | _ => none

end Operator

/-- Truth as a number. -/
def truth (b : Bool) : Float := if b then 1 else 0

/-- Operations on two numbers. -/
inductive BinaryOp where
  | add
  | subtract
  | multiply
  | divide
  | equal
  | notEqual
  | less
  | lessEqual
  | greater
  | greaterEqual
  deriving DecidableEq, Repr

namespace BinaryOp

def ofOperator? : Operator → Option BinaryOp
  | .plus => some .add
  | .minus => some .subtract
  | .star => some .multiply
  | .slash => some .divide
  | .equalEqual => some .equal
  | .bangEqual => some .notEqual
  | .less => some .less
  | .lessEqual => some .lessEqual
  | .greater => some .greater
  | .greaterEqual => some .greaterEqual
  | .bang => none

/-- How tightly the operation binds: comparisons least, products most. -/
def precedence : BinaryOp → Nat
  | .equal | .notEqual | .less | .lessEqual | .greater | .greaterEqual => 2
  | .add | .subtract => 3
  | .multiply | .divide => 4

/-- Comparisons give one or zero.  A zero divisor gives an infinity or no number. -/
def apply (op : BinaryOp) (left right : Float) : Float :=
  match op with
  | .add => left + right
  | .subtract => left - right
  | .multiply => left * right
  | .divide => left / right
  | .equal => truth (left == right)
  | .notEqual => truth (left != right)
  | .less => truth (left < right)
  | .lessEqual => truth (left ≤ right)
  | .greater => truth (right < left)
  | .greaterEqual => truth (right ≤ left)

/-- The name that records show. -/
def name : BinaryOp → String
  | .add => "Add"
  | .subtract => "Subtract"
  | .multiply => "Multiply"
  | .divide => "Divide"
  | .equal => "Equal"
  | .notEqual => "NotEqual"
  | .less => "Less"
  | .lessEqual => "LessEqual"
  | .greater => "Greater"
  | .greaterEqual => "GreaterEqual"

end BinaryOp

/-- Operations on one number. -/
inductive UnaryOp where
  | plus
  | negate
  | not
  deriving DecidableEq, Repr

namespace UnaryOp

def ofOperator? : Operator → Option UnaryOp
  | .plus => some .plus
  | .minus => some .negate
  | .bang => some .not
  | _ => none

/-- `not` takes zero to one and everything else, no number included, to zero. -/
def apply (op : UnaryOp) (operand : Float) : Float :=
  match op with
  | .plus => operand
  | .negate => -operand
  | .not => truth (operand == 0)

def symbol : UnaryOp → String
  | .plus => "+"
  | .negate => "-"
  | .not => "!"

end UnaryOp

end Primer
