import Primer.Operator
import Primer.Span
import Primer.Word

/-!
# Tokens

The lexical elements of a statement, with their text and place.
-/

namespace Primer

/-- The punctuation marks. -/
inductive Punctuation where
  | leftParen
  | rightParen
  | leftBracket
  | rightBracket
  | equal
  | comma
  | semicolon
  deriving DecidableEq, Repr

namespace Punctuation

def ofChar? : Char → Option Punctuation
  | '(' => some .leftParen
  | ')' => some .rightParen
  | '[' => some .leftBracket
  | ']' => some .rightBracket
  | '=' => some .equal
  | ',' => some .comma
  | ';' => some .semicolon
  | _ => none

end Punctuation

namespace Token

/-- What a token is. -/
inductive Kind where
  | number (value : Float)
  | identifier
  | string
  | keyword (word : Keyword)
  | operator (op : Operator)
  | punctuation (mark : Punctuation)
  deriving DecidableEq

end Token

/-- A lexical element.  The lexeme of a string is the text between its quotes. -/
structure Token where
  kind : Token.Kind
  lexeme : String
  span : Span
  deriving DecidableEq

namespace Token

def isPunctuation (t : Token) (mark : Punctuation) : Bool := t.kind = .punctuation mark

def isKeyword (t : Token) (word : Keyword) : Bool := t.kind = .keyword word

def isIdentifier (t : Token) : Bool := t.kind = .identifier

def isString (t : Token) : Bool := t.kind = .string

/-- The token as it stands in the text. -/
def display (t : Token) : String :=
  if t.isString then "\"" ++ t.lexeme ++ "\"" else t.lexeme

end Token

end Primer
