import Primer.Diagnostic
import Primer.Word

/-!
# Programs

A source is cut into lines, and each line that is left with code after comments and blanks are
gone is one statement, perhaps with a label.  `load` gives the statements in order with the table
of labels; at least one statement has to be a stop.
-/

namespace Primer

open Text (byteLength)

/-- One statement without comment, label and surrounding blanks. -/
structure Statement where
  text : String
  /-- The line of the source, counted from one. -/
  line : Nat
  /-- The byte position in the source. -/
  offset : Nat
  deriving DecidableEq

/-- Statements in order, and the statement that each label marks. -/
structure Program where
  statements : Array Statement
  labels : Std.ExtTreeMap String Nat

/-! ### Lines -/

namespace Source

/-- The lines of a text, each with the line feed that ends it. -/
def lines : List Char → List (List Char)
  | [] => []
  | c :: cs =>
    if c = '\n' then [c] :: lines cs
    else match lines cs with
      | [] => [[c]]
      | line :: rest => (c :: line) :: rest

/-- Cuts a line at the first `//` that has an even number of quotes before it. -/
def cutComment (quotes : Nat) : List Char → List Char
  | [] => []
  | '/' :: '/' :: rest =>
    if quotes % 2 = 0 then [] else '/' :: '/' :: cutComment quotes rest
  | c :: rest => c :: cutComment (if c = '"' then quotes + 1 else quotes) rest

/-- A line with code: its number, the byte position after its leading blanks, and the code. -/
structure CodeLine where
  number : Nat
  offset : Nat
  code : List Char

/-- A line without its end and its comment. -/
def content (line : List Char) : List Char :=
  cutComment 0 (Text.trimEnd (fun c => c = '\n' || c = '\r') line)

/-- The lines with code, of those that start at a line number and a byte position. -/
def codeLinesFrom (number offset : Nat) : List (List Char) → List CodeLine
  | [] => []
  | line :: rest =>
    let later := codeLinesFrom (number + 1) (offset + byteLength line) rest
    let text := content line
    let code := trimBlanks text
    if code.isEmpty then later
    else ⟨number, offset + byteLength (text.takeWhile isBlank), code⟩ :: later

/-- The lines of a source that hold code. -/
def codeLines (source : String) : List CodeLine := codeLinesFrom 1 0 (lines source.toList)

/-- What a line of code consists of: perhaps a label, and a statement at a byte position. -/
structure Parts where
  label : Option (List Char)
  text : List Char
  offset : Nat

/-- Separates a label from its statement.  A colon behind a quote makes no label. -/
def splitLabel (code : List Char) : Except Diagnostic Parts :=
  let front := code.takeWhile (· ≠ ':')
  match code.dropWhile (· ≠ ':') with
  | [] => .ok ⟨none, code, 0⟩
  | _ :: behind =>
    if front.contains '"' then .ok ⟨none, code, 0⟩
    else
      let label := trimBlanks front
      if Word.isIdentifier label then
        .ok ⟨some label, trimBlanks behind,
          byteLength front + 1 + byteLength (behind.takeWhile isBlank)⟩
      else .error
        ⟨.invalidLabel (String.ofList label), ⟨0, max (byteLength front) 1⟩, none⟩

end Source

/-! ### Loading -/

open Source

namespace Program

def empty : Program := ⟨#[], ∅⟩

def location? (p : Program) (label : String) : Option Nat := p.labels[label]?

/-- Marks the next statement with a label that is not yet in use. -/
def addLabel (p : Program) (label : Option (List Char)) : Except Diagnostic Program :=
  match label with
  | none => .ok p
  | some name =>
    match p.location? (String.ofList name) with
    | some previous =>
      .error ⟨.duplicateLabel (String.ofList name) (previous + 1), ⟨0, byteLength name⟩, none⟩
    | none => .ok { p with labels := p.labels.insert (String.ofList name) p.statements.size }

/-- Adds the statement and the label of one line of code. -/
def addCode (p : Program) (l : CodeLine) : Except Diagnostic Program := do
  let parts ← splitLabel l.code
  if parts.text.isEmpty then
    throw ⟨.bareLabel, ⟨0, byteLength l.code⟩, none⟩
  let p ← p.addLabel parts.label
  return { p with
    statements := p.statements.push ⟨String.ofList parts.text, l.number, l.offset + parts.offset⟩ }

/-- Adds one line of code; a fault in it is pinned to the statement that it would have been. -/
def addLine (p : Program) (l : CodeLine) : Except Diagnostic Program :=
  (p.addCode l).mapError
    (·.within ⟨p.statements.size + 1, String.ofList l.code, l.offset⟩)

/-- Whether some statement starts with the word `stop`. -/
def hasStop (p : Program) : Bool :=
  p.statements.any fun s => Word.leading s.text.toList = Keyword.stop.word.toList

/-- Reads a program from its source. -/
def load (source : String) : Except Diagnostic Program := do
  let p ← (codeLines source).foldlM addLine empty
  if p.hasStop then return p
  throw ⟨.missingStop, .single 0, none⟩

end Program

end Primer
