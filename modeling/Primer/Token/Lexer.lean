import Primer.Diagnostic
import Primer.Number.Decimal
import Primer.Token.Basic

/-!
# From text to tokens

A `Lexer` stands somewhere in the text of a statement.  `next` reads one token and moves on: behind
the token, or behind a word that it does not know, but not past a string that never
ends.  `tokenize` reads them all.
-/

namespace Primer

open Text (byteLength)

/-- A place in a text: the number of bytes before it and the characters after it. -/
structure Lexer where
  position : Nat
  rest : List Char

namespace Lexer

def ofText (text : String) : Lexer := ⟨0, text.toList⟩

def skipBlanks (l : Lexer) : Lexer :=
  ⟨l.position + byteLength (l.rest.takeWhile isBlank), l.rest.dropWhile isBlank⟩

/-- The span of the text `piece` at the front. -/
def spanOf (l : Lexer) (piece : List Char) : Span :=
  ⟨l.position, l.position + byteLength piece⟩

/-- The place behind `piece`, with `rest` to come. -/
def after (l : Lexer) (piece rest : List Char) : Lexer :=
  ⟨l.position + byteLength piece, rest⟩

/-- The kind of a word: a number, a keyword or an identifier. -/
def wordKind (word : List Char) : Except Cause Token.Kind :=
  if Word.isNumber word then
    match Number.read? word with
    | some value => .ok (.number value)
    | none => .error (.notNumber (String.ofList word))
  else match Keyword.ofWord? word with
    | some k => .ok (.keyword k)
    | none =>
      if Word.isIdentifier word then .ok .identifier
      else .error (.unrecognized (String.ofList word))

/-- The kind of a text that should be an operator. -/
def operatorKind (text : List Char) : Except Cause Token.Kind :=
  match Operator.ofText? text with
  | some op => .ok (.operator op)
  | none => .error (.unrecognized (String.ofList text))

/-- The kind of a character that is an element on its own. -/
def signKind (c : Char) : Except Cause Token.Kind :=
  match Punctuation.ofChar? c with
  | some mark => .ok (.punctuation mark)
  | none => operatorKind [c]

/-- Takes `piece` as a token of the given kind, or fails behind it. -/
def emit (l : Lexer) (kind : Except Cause Token.Kind) (piece rest : List Char) :
    Except Diagnostic (Option Token) × Lexer :=
  match kind with
  | .ok kind => (.ok (some ⟨kind, String.ofList piece, l.spanOf piece⟩), l.after piece rest)
  | .error cause => (.error ⟨cause, l.spanOf piece, none⟩, l.after piece rest)

/-- A string whose opening quote has `body` behind it. -/
def quoted (l : Lexer) (body : List Char) : Except Diagnostic (Option Token) × Lexer :=
  let text := body.takeWhile (· ≠ '"')
  match body.dropWhile (· ≠ '"') with
  | [] => (.error ⟨.unclosedString, l.spanOf l.rest, none⟩, l)
  | quote :: rest =>
    let piece := '"' :: text ++ [quote]
    (.ok (some ⟨.string, String.ofList text, l.spanOf piece⟩), l.after piece rest)

/-- The operator of two characters at the front of a text, and what follows it. -/
def pair? (text : List Char) : Option (List Char × List Char) :=
  (operatorPairs.find? (·.isPrefixOf text)).map fun pair => (pair, text.drop pair.length)

/-- The token at the front of a text that starts with no blank. -/
def front (l : Lexer) : Except Diagnostic (Option Token) × Lexer :=
  match l.rest with
  | [] => (.ok none, l)
  | '"' :: body => l.quoted body
  | c :: cs =>
    match pair? (c :: cs) with
    | some (pair, rest) => l.emit (operatorKind pair) pair rest
    | none =>
      if isSyntactic c then l.emit (signKind c) [c] cs
      else
        let word := (c :: cs).takeWhile (!isSyntactic ·)
        l.emit (wordKind word) word ((c :: cs).dropWhile (!isSyntactic ·))

/-- Reads the next token; there is none at the end of the text. -/
def next (l : Lexer) : Except Diagnostic (Option Token) × Lexer :=
  l.skipBlanks.front

theorem rest_of_emit {l l' : Lexer} {kind : Except Cause Token.Kind} {piece rest : List Char}
    {r : Except Diagnostic (Option Token)} (h : l.emit kind piece rest = (r, l')) :
    l'.rest = rest := by
  unfold emit at h
  split at h <;> · cases h; rfl

theorem pair?_eq_some_iff {text pair rest : List Char} :
    pair? text = some (pair, rest) ↔ pair ∈ operatorPairs ∧ text = pair ++ rest := by
  constructor
  · intro h
    obtain ⟨found, hfind, hfound⟩ := Option.map_eq_some_iff.mp h
    have hprefix : found.isPrefixOf text = true := by simpa using List.find?_some hfind
    obtain ⟨rest, rfl⟩ := List.isPrefixOf_iff_prefix.mp hprefix
    cases hfound
    exact ⟨List.mem_of_find?_eq_some hfind, by rw [List.drop_left]⟩
  · rintro ⟨hpair, rfl⟩
    simp only [operatorPairs, List.mem_cons, List.not_mem_nil, or_false] at hpair
    rcases hpair with rfl | rfl | rfl | rfl <;> rfl

theorem length_lt_of_front {l l' : Lexer} {t : Token} (h : l.front = (.ok (some t), l')) :
    l'.rest.length < l.rest.length := by
  unfold front at h
  split at h
  · simp at h
  · rename_i body hl
    unfold quoted at h
    split at h
    · simp at h
    · rename_i quote rest hd
      have := (List.dropWhile_sublist (· ≠ '"') (l := body)).length_le
      simp only [Prod.mk.injEq] at h
      rw [← h.2]
      simp only [after, hl, List.length_cons]
      rw [hd] at this
      simp only [List.length_cons] at this
      omega
  · rename_i c cs _ hl
    rw [hl]
    split at h
    · rename_i pair rest hp
      obtain ⟨hpair, heq⟩ := pair?_eq_some_iff.mp hp
      have hpos : ∀ pair ∈ operatorPairs, 0 < pair.length := by decide
      have := hpos pair hpair
      rw [rest_of_emit h, heq, List.length_append]
      omega
    · split at h
      · rw [rest_of_emit h]; simp
      · rename_i hs
        rw [rest_of_emit h]
        have := (List.dropWhile_sublist (!isSyntactic ·) (l := cs)).length_le
        simp only [List.dropWhile_cons, hs, Bool.not_false, ↓reduceIte, List.length_cons]
        omega

/-- A token takes at least one character. -/
theorem length_lt_of_next {l l' : Lexer} {t : Token} (h : l.next = (.ok (some t), l')) :
    l'.rest.length < l.rest.length :=
  Nat.lt_of_lt_of_le (length_lt_of_front h) (List.dropWhile_sublist _).length_le

/-- The tokens from here to the end of the text. -/
def tokens (l : Lexer) : Except Diagnostic (List Token) :=
  match _h : l.next with
  | (.error d, _) => .error d
  | (.ok none, _) => .ok []
  | (.ok (some t), l') => (tokens l').map (t :: ·)
termination_by l.rest.length
decreasing_by exact length_lt_of_next _h

end Lexer

/-- The tokens of the text of a statement. -/
def tokenize (text : String) : Except Diagnostic (List Token) := (Lexer.ofText text).tokens

end Primer
