import Primer.Diagnostic
import Primer.Text.Basic
import Primer.Text.Columns

/-!
# Snippets

A diagnostic that is pinned to a statement can be shown in its source: the line, an underline
below the place and an arrow to the message.  `render` draws this with box characters, in color if
asked to.
-/

namespace Primer

open Text (byteLength)

/-- The bytes of the source that a diagnostic in a statement points at: its span, cut to the
statement and at least one byte long. -/
def Context.range (c : Context) (span : Span) : Span :=
  let length := max c.text.utf8ByteSize 1
  let start := min span.start (length - 1)
  ⟨c.offset + start, c.offset + min (max span.stop (start + 1)) length⟩

/-- A drawing, or none because an end of the range falls inside a character or behind its line. -/
inductive Snippet where
  | drawn (text : String)
  | torn
  deriving DecidableEq

namespace Snippet

/-! ### Lines of a source -/

/-- Every line separator of Unicode ends a line here. -/
def isLineEnd (c : Char) : Bool :=
  Text.inRanges [(0xa, 0xd), (0x85, 0x85), (0x2028, 0x2029)] c

/-- The lines of a text with their ends; a carriage return and a line feed end one line together. -/
def lines : List Char → List (List Char)
  | [] => []
  | '\r' :: '\n' :: cs => ['\r', '\n'] :: lines cs
  | c :: cs =>
    if isLineEnd c then [c] :: lines cs
    else match lines cs with
      | [] => [[c]]
      | line :: rest => (c :: line) :: rest

/-- The line that holds the byte at `position`, with its index from `index` on and the position in
it.  The end of the source counts to its last line; behind it, and without lines, there is none. -/
def locate? (position index : Nat) : List (List Char) → Option (Nat × Nat × List Char)
  | [] => none
  | [line] => if position ≤ byteLength line then some (index, position, line) else none
  | line :: rest =>
    if position < byteLength line then some (index, position, line)
    else locate? (position - byteLength line) (index + 1) rest

/-! ### Cells -/

/-- The width of a tab as character number `i` of a line. -/
def tabWidth (i : Nat) : Nat := (i / 4 + 1) * 4 - i

/-- The cells that character number `i` of a line fills. -/
def cells (i : Nat) (c : Char) : List String :=
  if c = '\t' then List.replicate (tabWidth i) " "
  else if Text.isWhite c then [" "]
  else [c.toString]

/-- The number of columns that character number `i` of a line fills. -/
def width (i : Nat) (c : Char) : Nat :=
  if c = '\t' then tabWidth i else if Text.isWhite c then 1 else Text.columns c

/-! ### Colors -/

def frameColor : String := "38;5;246"

def marginColor : String := "38;5;240"

def plainColor : String := "38;5;249"

def noteColor : String := "38;5;115"

def titleColor : String := "31"

def helpColor : String := "36"

def kindColor : ErrorKind → String
  | .lexical => "31"
  | .syntactic => "33"
  | .expression => "34"
  | .semantic => "35"

def kindTitle : ErrorKind → String
  | .lexical => "Lexical Error"
  | .syntactic => "Syntax Error"
  | .expression => "Expression Error"
  | .semantic => "Semantic Error"

/-- Text in a color. -/
def paint (color : Bool) (code text : String) : String :=
  if color then "\x1b[" ++ code ++ "m" ++ text ++ "\x1b[0m" else text

def spaces (n : Nat) : String := String.ofList (List.replicate n ' ')

def repeated (n : Nat) (text : String) : List String := List.replicate n text

/-! ### Drawing -/

/-- What a drawing shows: a line of the source without white space at its end, the characters of it
that are marked, and its number. -/
structure Drawing where
  color : Bool
  kind : ErrorKind
  line : List Char
  start : Nat
  stop : Nat
  number : String

namespace Drawing

/-- The character that the arrow starts from. -/
def middle (d : Drawing) : Nat := (d.start + d.stop) / 2

/-- The columns of character number `i`; one behind the end of the line. -/
def widthAt (d : Drawing) (i : Nat) : Nat :=
  match d.line[i]? with
  | some c => width i c
  | none => 1

def paint (d : Drawing) (code text : String) : String := Snippet.paint d.color code text

def mark (d : Drawing) (text : String) : String := d.paint (kindColor d.kind) text

/-- The margin below the line number. -/
def margin (d : Drawing) : String :=
  " " ++ d.paint marginColor (spaces (d.number.length + 1) ++ "│") ++ " "

/-- The line of the source. -/
def sourceRow (d : Drawing) : String :=
  let shown := d.line.zipIdx.flatMap fun (c, i) =>
    (cells i c).map (if d.start ≤ i && i < d.stop then d.mark else d.paint plainColor)
  " " ++ d.paint frameColor (d.number ++ " │") ++ " " ++ String.join shown

/-- A row below the source: `draw` gives the cells of a character from its number and width. -/
def row (d : Drawing) (draw : Nat → Nat → List String) : String :=
  d.margin ++ String.join ((List.range (d.stop + 2)).flatMap fun i => draw i (d.widthAt i))

/-- A first cell, then lines, as wide as `n`. -/
def ruled (d : Drawing) (first : String) (n : Nat) : List String :=
  ((first :: repeated (n - 1) "─").take n).map d.mark

/-- The underline, with the start of the arrow. -/
def underline (d : Drawing) : String :=
  d.row fun i n =>
    if i = d.middle && i < d.stop then d.ruled "┬" n
    else if d.start ≤ i && i < d.stop then d.ruled "─" n
    else repeated n " "

/-- The arrow to the message. -/
def arrow (d : Drawing) : String :=
  d.row fun i n =>
    if i = d.middle then d.ruled "╰" n
    else if d.middle < i then d.ruled "─" n
    else repeated n " "

/-- The name of the file with the place in it. -/
def header (d : Drawing) (filename : String) : String :=
  spaces (d.number.length + 2) ++ d.paint frameColor "╭" ++ d.paint frameColor "─" ++
    d.paint frameColor "[" ++ s!"{filename}:{d.number}:{d.start + 1}" ++ d.paint frameColor "]"

/-- The rows below the arrow that hold the help. -/
def note (d : Drawing) : Option String → List String
  | none => []
  | some help =>
    [d.margin,
     d.margin ++ d.paint noteColor "Note" ++ ": " ++ d.paint helpColor "help" ++ ": " ++ help]

/-- All rows below the title. -/
def rows (d : Drawing) (filename message : String) (help : Option String) : List String :=
  [d.header filename,
   spaces (d.number.length + 2) ++ d.paint frameColor "│",
   d.sourceRow,
   d.underline,
   d.arrow ++ " " ++ message] ++
  d.note help ++
  [d.paint frameColor (String.join (repeated (d.number.length + 2) "─") ++ "╯")]

end Drawing

/-- The first row: what kind of error, and its message. -/
def title (color : Bool) (cause : Cause) : String :=
  paint color titleColor "Error:" ++ " " ++
    paint color (kindColor cause.kind) (kindTitle cause.kind) ++ ": " ++ cause.message

def unlines (rows : List String) : String := String.join (rows.map (· ++ "\n"))

/-- Draws a cause at a range of a source.  A range that starts or ends outside of it leaves the
title alone; the start is looked at first, its cut included. -/
def draw (cause : Cause) (range : Span) (source filename : String) (color : Bool) : Snippet :=
  let heading := title color cause
  match locate? range.start 0 (lines source.toList) with
  | none => .drawn (unlines [heading])
  | some (index, position, line) =>
    match Text.charsWithin? position line with
    | none => .torn
    | some first =>
      if source.utf8ByteSize < range.stop - 1 then .drawn (unlines [heading])
      else match Text.charsWithin? (position + (range.stop - range.start)) line with
        | none => .torn
        | some last =>
          let drawing : Drawing :=
            ⟨color, cause.kind, Text.trimEnd Text.isWhite line, first, last, toString (index + 1)⟩
          .drawn (unlines (heading :: drawing.rows filename cause.message cause.help?))

end Snippet

/-- The snippet of a diagnostic in a source, if it is pinned to a statement. -/
def Diagnostic.snippet? (d : Diagnostic) (source filename : String) (color : Bool) :
    Option Snippet :=
  d.context.map fun c => .draw d.cause (c.range d.span) source filename color

end Primer
