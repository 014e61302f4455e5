import Primer.Text.Basic

/-!
# Characters and words

The classes of characters that separate elements, and the words that they leave between them:
keywords, identifiers and numerals.
-/

namespace Primer

/-- Spaces and tabs separate elements; nothing else does. -/
def isBlank (c : Char) : Bool := c = ' ' || c = '\t'

/-- Characters that form an element on their own and end any word before them. -/
def isSyntactic (c : Char) : Bool :=
  isBlank c || "+-*/<>!()[]=,;\"".toList.contains c

/-- The operators of two characters.  They are tried before their first characters. -/
def operatorPairs : List (List Char) := [['=', '='], ['>', '='], ['<', '='], ['!', '=']]

/-- The words that can name nothing. -/
inductive Keyword where
  | dim
  | read
  | goto
  | if
  | print
  | stop
  | end
  deriving DecidableEq, Repr

namespace Keyword

def all : List Keyword := [.dim, .read, .goto, .if, .print, .stop, .end]

/-- The spelling. -/
def word : Keyword → String
  | .dim => "dim"
  | .read => "read"
  | .goto => "goto"
  | .if => "if"
  | .print => "print"
  | .stop => "stop"
  | .end => "end"

def ofWord? (text : List Char) : Option Keyword :=
  all.find? fun k => k.word.toList = text

end Keyword

namespace Word

def isReserved (text : List Char) : Bool := (Keyword.ofWord? text).isSome

/-- ASCII letters, digits and the underscore. -/
def isIdentifierChar (c : Char) : Bool := c.isAlphanum || c = '_'

/-- A letter or underscore, then letters, digits and underscores, and no keyword. -/
def isIdentifier : List Char → Bool
  | [] => false
  | c :: cs => (c.isAlpha || c = '_') && cs.all isIdentifierChar && !isReserved (c :: cs)

/-- Whether only digits follow, with a point among them where `point` allows one, and at least one
digit unless `digit` was seen. -/
def isNumeralBody (point digit : Bool) : List Char → Bool
  | [] => digit
  | c :: cs =>
    if c.isDigit then isNumeralBody point true cs
    else if c = '.' && point then isNumeralBody false digit cs
    else false

/-- At most one sign, then digits with at most one point; signs and points alone are no number. -/
def isNumber : List Char → Bool
  | '+' :: body => isNumeralBody true false body
  | '-' :: body => isNumeralBody true false body
  | body => isNumeralBody true false body

/-- The longest front part made of identifier characters. -/
def leading (text : List Char) : List Char := text.takeWhile isIdentifierChar

end Word

/-- Strips spaces, tabs and carriage returns from both ends. -/
def trimBlanks (text : List Char) : List Char :=
  Text.trim (fun c => isBlank c || c = '\r') text

end Primer
