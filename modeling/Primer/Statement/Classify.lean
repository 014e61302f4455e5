import Primer.Diagnostic
import Primer.Token.Basic

/-!
# The kind of a statement

A statement is known by its first word, or else by an equals sign behind something that can be
assigned to.  Nothing is evaluated to find out.
-/

namespace Primer

/-- The tokens behind the mark that closes the first `opening` mark, with `depth` of them open. -/
def afterClosing? (opening closing : Punctuation) : Nat → List Token → Option (List Token)
  | _, [] => none
  | depth, t :: rest =>
    if t.isPunctuation opening then afterClosing? opening closing (depth + 1) rest
    else if t.isPunctuation closing then
      if depth ≤ 1 then some rest else afterClosing? opening closing (depth - 1) rest
    else afterClosing? opening closing depth rest

/-- Checks that the tokens before the equals sign are a name, perhaps with one index in brackets. -/
def checkTarget (text : String) (target : List Token) (equal : Token) : Except Diagnostic Unit :=
  let all : Span := ⟨0, equal.span.start⟩
  let refused : Except Diagnostic Unit :=
    let shown := Text.trimEnd Text.isWhite (Text.takeBytes equal.span.start text.toList)
    .error ⟨.invalidTarget (String.ofList shown), all, none⟩
  match target.find? Token.isString with
  | some quoted => .error ⟨.quotedTarget, quoted.span, none⟩
  | none =>
    match target with
    | [] => .error ⟨.missingTarget, all, none⟩
    | name :: rest =>
      if !name.isIdentifier then .error ⟨.missingTarget, all, none⟩
      else match rest with
        | [] => .ok ()
        | bracket :: index =>
          if !bracket.isPunctuation .leftBracket then refused
          else if index.head?.any (·.isPunctuation .rightBracket) then
            .error ⟨.missingIndex, bracket.span, none⟩
          else match afterClosing? .leftBracket .rightBracket 0 rest with
            | none => .error ⟨.unclosedTarget, name.span.union equal.span, none⟩
            | some [] => .ok ()
            | some _ => refused

/-- The kind of the statement with this text and these tokens. -/
def classify (text : String) (tokens : List Token) : Except Diagnostic StatementKind :=
  match tokens with
  | ⟨.keyword word, _, _⟩ :: _ => .ok (.ofKeyword word)
  | _ =>
    let isEqual (t : Token) : Bool := t.isPunctuation .equal
    match tokens.dropWhile (!isEqual ·) with
    | [] => .error ⟨.unknownStatement, ⟨0, text.utf8ByteSize⟩, none⟩
    | equal :: _ =>
      (checkTarget text (tokens.takeWhile (!isEqual ·)) equal).map fun _ => .assignment

end Primer
