import Primer.Diagnostic
import Primer.Token.Basic

/-!
# A place among the tokens of a statement

Statements and the expressions in them are read through one `Cursor`, so that a statement goes on
where an expression ended.  `Parse` actions move the cursor and may fail; a failure leaves it where
it was when the fault was found.
-/

namespace Primer

/-- The tokens of a statement, those still to be read, and the byte length of its text. -/
structure Cursor where
  tokens : List Token
  rest : List Token
  length : Nat

namespace Cursor

/-- The place before the first token. -/
def ofTokens (tokens : List Token) (length : Nat) : Cursor := ⟨tokens, tokens, length⟩

/-- The span of the first of `rest`, or the point behind a text of `length` bytes. -/
def spanAt (rest : List Token) (length : Nat) : Span :=
  match rest with
  | t :: _ => t.span
  | [] => .single length

def peek? (c : Cursor) : Option Token := c.rest.head?

/-- The span of the token under the cursor, or the point behind the text. -/
def here (c : Cursor) : Span := spanAt c.rest c.length

/-- Where a statement that ends wrongly ends: at the next token or else at the last one. -/
def ending (c : Cursor) : Span :=
  match c.peek? with
  | some t => t.span
  | none =>
    match c.tokens.getLast? with
    | some t => t.span
    | none => .single c.length

def isAt (c : Cursor) (mark : Punctuation) : Bool := c.peek?.any (·.isPunctuation mark)

def isAtKeyword (c : Cursor) (word : Keyword) : Bool := c.peek?.any (·.isKeyword word)

end Cursor

/-- Actions that read tokens. -/
abbrev Parse := EStateM Diagnostic Cursor

namespace Parse

/-- Takes the next token, if there is one. -/
def advance : Parse (Option Token) := fun c =>
  .ok c.peek? { c with rest := c.rest.tail }

/-- Takes the given mark if it is next. -/
def skip (mark : Punctuation) : Parse Bool := fun c =>
  if c.isAt mark then .ok true { c with rest := c.rest.tail } else .ok false c

/-- Takes the next token if it satisfies `p`, and complains about it otherwise. -/
def expect (p : Token → Bool) (cause : Cause) : Parse Token := fun c =>
  match c.rest with
  | t :: rest => if p t then .ok t { c with rest } else .error ⟨cause, t.span, none⟩ c
  | [] => .error ⟨cause, c.here, none⟩ c

def punctuation (mark : Punctuation) (cause : Cause) : Parse Token :=
  expect (·.isPunctuation mark) cause

def keyword (word : Keyword) (cause : Cause) : Parse Token :=
  expect (·.isKeyword word) cause

def identifier (cause : Cause) : Parse Token :=
  expect (·.isIdentifier) cause

/-- Requires a semicolon with nothing behind it. -/
def finish (cause : Cause) : Parse Unit := do
  let closed ← skip .semicolon
  let c ← get
  unless closed && c.rest.isEmpty do
    throw ⟨cause, c.ending, none⟩

end Parse

end Primer
