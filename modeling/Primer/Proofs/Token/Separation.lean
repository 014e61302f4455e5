import Primer.Proofs.Token.Composition

/-!
# Texts with a blank between them

A blank ends every token, so that what stands in front of it is read as if it stood alone, and what stands
behind it as well, only later.

* `Lexer.tokens_shift`: a text that begins later is read as the same tokens, or fails in the same way, with all
  places moved.
* `Lexed.tokens_append`: the tokens of a text in front of one that cuts it off come first.
* `tokenize_append_blank`: two texts with a blank between them.
* `Lexed.spelled_display`, `tokenize_display`: tokens written out with blanks between them are read back.
-/

namespace Primer

open Text

/-! ### Moved places -/

/-- The span `k` bytes later. -/
def Span.shift (k : Nat) (s : Span) : Span := ⟨s.start + k, s.stop + k⟩

def Token.shift (k : Nat) (t : Token) : Token := { t with span := t.span.shift k }

def Diagnostic.shift (k : Nat) (d : Diagnostic) : Diagnostic := { d with span := d.span.shift k }

namespace Lexer

/-- The same text `k` bytes later. -/
def shift (k : Nat) (l : Lexer) : Lexer := ⟨l.position + k, l.rest⟩

/-- What is read of the same text `k` bytes later. -/
def shiftRead (k : Nat) (r : Except Diagnostic (Option Token) × Lexer) :
    Except Diagnostic (Option Token) × Lexer :=
  ((r.1.map (Option.map (Token.shift k))).mapError (Diagnostic.shift k), r.2.shift k)

section Shift

variable (k : Nat) (l : Lexer)

theorem spanOf_shift (piece : List Char) : (l.shift k).spanOf piece = (l.spanOf piece).shift k := by
  simp only [spanOf, shift, Span.shift, Span.mk.injEq, true_and]
  omega

theorem after_shift (piece rest : List Char) :
    (l.shift k).after piece rest = (l.after piece rest).shift k := by
  simp only [after, shift, Lexer.mk.injEq, and_true]
  omega

theorem emit_shift (kind : Except Cause Token.Kind) (piece rest : List Char) :
    (l.shift k).emit kind piece rest = shiftRead k (l.emit kind piece rest) := by
  cases kind <;> simp only [emit, spanOf_shift, after_shift] <;> rfl

theorem quoted_shift (body : List Char) : (l.shift k).quoted body = shiftRead k (l.quoted body) := by
  have hrest : (l.shift k).rest = l.rest := rfl
  unfold quoted
  rw [hrest]
  simp only [spanOf_shift, after_shift]
  split <;> rfl

theorem front_shift : (l.shift k).front = shiftRead k l.front := by
  have hrest : (l.shift k).rest = l.rest := rfl
  unfold front
  rw [hrest]
  split
  · rfl
  · exact quoted_shift k l _
  · split
    · exact emit_shift k l _ _ _
    · split <;> exact emit_shift k l _ _ _

theorem next_shift : (l.shift k).next = shiftRead k l.next := by
  have hskip : (l.shift k).skipBlanks = l.skipBlanks.shift k := after_shift k l _ _
  rw [next, hskip, front_shift]
  rfl

end Shift

/-- All places move with the beginning of the text. -/
theorem tokens_shift (k : Nat) (l : Lexer) : (l.shift k).tokens = match l.tokens with
    | .ok tokens => .ok (tokens.map (Token.shift k))
    | .error d => .error (d.shift k) := by
  rw [tokens_eq, tokens_eq, next_shift]
  match hnext : l.next with
  | (.error d, _) => rfl
  | (.ok none, _) => rfl
  | (.ok (some t), l') =>
    have hlt : l'.rest.length < l.rest.length := length_lt_of_next hnext
    have ih := tokens_shift k l'
    simp only [shiftRead, Except.map, Except.mapError, Option.map, ih]
    cases l'.tokens <;> rfl
termination_by l.rest.length

end Lexer

/-! ### A text behind a blank -/

/-- A text in front of one that cuts it off is read as it is alone, and the other one behind it. -/
theorem Lexed.tokens_append {n : Nat} {cs tail : List Char} {tokens : List Token} (h : Lexed n cs tokens)
    (hcuts : Cuts tail) :
    Lexer.tokens ⟨n, cs ++ tail⟩ = (Lexer.tokens ⟨n + byteLength cs, tail⟩).map (tokens ++ ·) := by
  induction h with
  | nil hblanks =>
    rw [Lexer.tokens_append_blanks hblanks]
    cases Lexer.tokens _ <;> rfl
  | @cons n blanks piece cs t tokens hblanks hspells hdisplay hstops hstart hstop _ ih =>
    have hnext := Lexer.next_of_spells hblanks hspells hdisplay (hstops.append hcuts) hstart hstop
    have hbehind : t.span.stop + byteLength cs = n + byteLength (blanks ++ (piece ++ cs)) := by
      simp only [byteLength_append]
      omega
    rw [List.append_assoc, List.append_assoc, Lexer.tokens_eq, hnext]
    simp only [ih, hbehind]
    cases Lexer.tokens _ <;> rfl

/-- **Lexing is compositional at blanks.**  Behind a text that is read and a blank, another text is read as it
is alone, and what is wrong with it is wrong in the same way: all places move by the bytes in front. -/
theorem tokenize_append_blank {front : String} {tokens : List Token} (h : tokenize front = .ok tokens)
    {blank : Char} (hblank : isBlank blank = true) (behind : String) :
    tokenize (front ++ String.singleton blank ++ behind) = match tokenize behind with
      | .ok later => .ok (tokens ++ later.map (Token.shift (front.utf8ByteSize + 1)))
      | .error d => .error (d.shift (front.utf8ByteSize + 1)) := by
  have htext : (front ++ String.singleton blank ++ behind).toList =
      front.toList ++ ([blank] ++ behind.toList) := by simp
  have hone : ∀ c ∈ [blank], isBlank c = true := List.forall_mem_singleton.mpr hblank
  have hcuts : Cuts ([blank] ++ behind.toList) := cuts_blank hblank _
  have hlength : 0 + byteLength front.toList + byteLength [blank] = 0 + (front.utf8ByteSize + 1) := by
    rw [byteLength_toList, byteLength_cons, utf8Size_of_isBlank hblank, byteLength_nil]
    omega
  have hshift : Lexer.tokens ⟨0 + (front.utf8ByteSize + 1), behind.toList⟩ = _ :=
    Lexer.tokens_shift (front.utf8ByteSize + 1) (Lexer.ofText behind)
  calc tokenize (front ++ String.singleton blank ++ behind)
      = Lexer.tokens ⟨0, front.toList ++ ([blank] ++ behind.toList)⟩ := by
        rw [← htext]
        rfl
    _ = (Lexer.tokens ⟨0 + (front.utf8ByteSize + 1), behind.toList⟩).map (tokens ++ ·) := by
        rw [(lexed_of_tokenize h).tokens_append hcuts, Lexer.tokens_append_blanks hone, hlength]
    _ = _ := by
        rw [hshift, tokenize]
        cases (Lexer.ofText behind).tokens <;> rfl

/-- An equals sign in front of a tab and one behind it make no operator, and a string that is left open behind a
character of two bytes is blamed two bytes later than in the text alone. -/
theorem tokenize_append_blank_equals :
    tokenize "x =\t= 1" = .ok [⟨.identifier, "x", ⟨0, 1⟩⟩, ⟨.punctuation .equal, "=", ⟨2, 3⟩⟩,
      ⟨.punctuation .equal, "=", ⟨4, 5⟩⟩, ⟨.number 1, "1", ⟨6, 7⟩⟩] ∧
    tokenize "\"é\" a\"b" = .error ⟨.unclosedString, ⟨6, 8⟩, none⟩ := by
  constructor
  · have hfront : tokenize "x =" = .ok [⟨.identifier, "x", ⟨0, 1⟩⟩,
        ⟨.punctuation .equal, "=", ⟨2, 3⟩⟩] := by decide +kernel
    have hbehind : tokenize "= 1" = .ok [⟨.punctuation .equal, "=", ⟨0, 1⟩⟩,
        ⟨.number 1, "1", ⟨2, 3⟩⟩] := by decide +kernel
    have htab : isBlank '\t' = true := rfl
    have hboth := tokenize_append_blank hfront htab "= 1"
    rw [hbehind] at hboth
    exact hboth
  · have hfront : tokenize "\"é\"" = .ok [⟨.string, "é", ⟨0, 4⟩⟩] := by decide +kernel
    have hbehind : tokenize "a\"b" = .error ⟨.unclosedString, ⟨1, 3⟩, none⟩ := by decide +kernel
    have hspace : isBlank ' ' = true := rfl
    have hboth := tokenize_append_blank hfront hspace "a\"b"
    rw [hbehind] at hboth
    exact hboth

/-! ### Tokens written out -/

/-- Tokens of a text, written out with blanks between them, are read as what they are. -/
theorem Lexed.spelled_display {n : Nat} {cs : List Char} {tokens : List Token} (h : Lexed n cs tokens) :
    Spelled (" ".intercalate (tokens.map Token.display)).toList (tokens.map Token.bare) := by
  induction h with
  | nil => exact spelled_nil
  | @cons _ _ piece _ t tokens _ hspells hdisplay _ _ _ _ ih =>
    have hpiece : t.display.toList = piece := by rw [hdisplay, String.toList_ofList]
    cases tokens with
    | nil =>
      have halone : Spelled (piece ++ []) [t.bare] :=
        spelled_nil.piece hspells hdisplay (.of_cuts (by simp [Cuts]))
      simpa [hpiece] using halone
    | cons t' tokens =>
      have hspaced : Spelled (piece ++ ' ' :: (" ".intercalate ((t' :: tokens).map Token.display)).toList)
          (t.bare :: (t' :: tokens).map Token.bare) :=
        ih.blank.piece hspells hdisplay (.of_cuts (cuts_blank rfl _))
      simpa [hpiece] using hspaced

/-- **Tokens written out are read back.**  The display forms of the tokens of a text, with single spaces between
them, are read as equally many tokens, of the same kinds and with the same lexemes. -/
theorem tokenize_display {text : String} {tokens : List Token} (h : tokenize text = .ok tokens) :
    ∃ tokens', tokenize (" ".intercalate (tokens.map Token.display)) = .ok tokens' ∧
      tokens'.length = tokens.length ∧ tokens'.map Token.kind = tokens.map Token.kind ∧
      tokens'.map Token.lexeme = tokens.map Token.lexeme := by
  obtain ⟨tokens', ht', hbare⟩ := (lexed_of_tokenize h).spelled_display.tokenize
  have hkind : ∀ ts : List Token, ts.map Token.kind = (ts.map Token.bare).map Prod.fst := by
    intro ts
    simp [Token.bare]
  have hlexeme : ∀ ts : List Token, ts.map Token.lexeme = (ts.map Token.bare).map Prod.snd := by
    intro ts
    simp [Token.bare]
  refine ⟨tokens', ht', ?_, ?_, ?_⟩
  · simpa using congrArg List.length hbare
  · rw [hkind, hkind, hbare]
  · rw [hlexeme, hlexeme, hbare]

/-- An equals sign in front of two that are an operator, and a string with blanks and signs in it. -/
theorem tokenize_display_signs :
    tokenize "a= ==\" ;=é\"" = .ok [⟨.identifier, "a", ⟨0, 1⟩⟩, ⟨.punctuation .equal, "=", ⟨1, 2⟩⟩,
      ⟨.operator .equalEqual, "==", ⟨3, 5⟩⟩, ⟨.string, " ;=é", ⟨5, 12⟩⟩] ∧
    ∃ tokens, tokenize "a = == \" ;=é\"" = .ok tokens ∧ tokens.length = 4 ∧
      tokens.map Token.kind =
        [.identifier, .punctuation .equal, .operator .equalEqual, .string] ∧
      tokens.map Token.lexeme = ["a", "=", "==", " ;=é"] := by
  have ht : tokenize "a= ==\" ;=é\"" = .ok [⟨.identifier, "a", ⟨0, 1⟩⟩,
      ⟨.punctuation .equal, "=", ⟨1, 2⟩⟩, ⟨.operator .equalEqual, "==", ⟨3, 5⟩⟩,
      ⟨.string, " ;=é", ⟨5, 12⟩⟩] := by decide +kernel
  exact ⟨ht, tokenize_display ht⟩

end Primer
