import Primer.Word

/-!
# Kinds of statements
-/

namespace Primer

/-- The eight kinds of statements; all but assignments start with a keyword. -/
inductive StatementKind where
  | assignment
  | if
  | goto
  | dim
  | print
  | read
  | stop
  | end
  deriving DecidableEq, Repr

namespace StatementKind

def name : StatementKind → String
  | .assignment => "assignment"
  | .if => "if"
  | .goto => "goto"
  | .dim => "dim"
  | .print => "print"
  | .read => "read"
  | .stop => "stop"
  | .end => "end"

/-- The kind that a leading keyword announces. -/
def ofKeyword : Keyword → StatementKind
  | .dim => .dim
  | .read => .read
  | .goto => .goto
  | .if => .if
  | .print => .print
  | .stop => .stop
  | .end => .end

end StatementKind

end Primer
