import Primer.Proofs.Token.Tiling

/-!
# Texts put together

What a text is read as does not depend on where it begins, and one text can stand in front of another that
begins with a character to end all before it.

* `Token.bare t`: the token without its place.
* `Spelled cs bares`: wherever the text `cs` begins, it is read as the tokens `bares`.
* `Cuts cs`: no token goes on into the text `cs`.
* `Lexed.spelled_append`: a text in front of one that cuts it off is read as it is alone.
-/

namespace Primer

open Text

/-- The kind and the lexeme of a token, which are all but its place. -/
def Token.bare (t : Token) : Token.Kind × String := (t.kind, t.lexeme)

/-- Wherever the text begins, it is read as the given tokens. -/
def Spelled (cs : List Char) (bares : List (Token.Kind × String)) : Prop :=
  ∀ n, ∃ tokens, Lexed n cs tokens ∧ tokens.map Token.bare = bares

/-- The text begins with a character that ends words and completes no operator, if with any. -/
def Cuts (cs : List Char) : Prop := ∀ d ∈ cs.head?, isSyntactic d = true ∧ d ≠ '='

theorem cuts_blank {c : Char} (hc : isBlank c = true) (cs : List Char) : Cuts (c :: cs) := by
  rintro d hd
  cases hd
  constructor
  · simp [isSyntactic, hc]
  · rintro rfl
    cases hc

theorem Token.Stops.of_cuts {piece cs : List Char} (h : Cuts cs) : Token.Stops piece cs :=
  ⟨fun _ d hd => (h d hd).1, fun _ hd => (h '=' hd).2 rfl⟩

theorem Token.Stops.append {piece cs tail : List Char} (h : Token.Stops piece cs) (htail : Cuts tail) :
    Token.Stops piece (cs ++ tail) := by
  cases cs with
  | nil => exact .of_cuts htail
  | cons c cs => exact h

/-! ### One behind the other -/

theorem Lexed.blanks {n : Nat} {blanks cs : List Char} {tokens : List Token}
    (hblanks : ∀ c ∈ blanks, isBlank c = true) (h : Lexed (n + byteLength blanks) cs tokens) :
    Lexed n (blanks ++ cs) tokens := by
  have hboth : ∀ {more : List Char}, (∀ c ∈ more, isBlank c = true) →
      ∀ c ∈ blanks ++ more, isBlank c = true := by
    intro more hmore c hc
    rcases List.mem_append.mp hc with hc | hc
    · exact hblanks c hc
    · exact hmore c hc
  cases h with
  | nil hmore => exact .nil (hboth hmore)
  | @cons _ more piece cs t tokens hmore hspells hdisplay hstops hstart hstop hcs =>
    rw [← List.append_assoc]
    refine .cons (hboth hmore) hspells hdisplay hstops ?_ ?_ hcs
    · rw [hstart, byteLength_append]
      omega
    · rw [hstop, byteLength_append]
      omega

theorem spelled_nil : Spelled [] [] := fun _ => ⟨[], .nil (by simp), rfl⟩

theorem Spelled.blanks {blanks cs : List Char} {bares : List (Token.Kind × String)}
    (hblanks : ∀ c ∈ blanks, isBlank c = true) (h : Spelled cs bares) : Spelled (blanks ++ cs) bares := by
  intro n
  obtain ⟨tokens, hlexed, hbares⟩ := h (n + byteLength blanks)
  exact ⟨tokens, hlexed.blanks hblanks, hbares⟩

theorem Spelled.blank {cs : List Char} {bares : List (Token.Kind × String)} (h : Spelled cs bares) :
    Spelled (' ' :: cs) bares := by
  have hblanks : ∀ c ∈ [' '], isBlank c = true := by
    intro c hc
    rw [List.mem_singleton.mp hc]
    rfl
  exact h.blanks hblanks

theorem Spelled.piece {piece cs : List Char} {t : Token} {bares : List (Token.Kind × String)}
    (h : Spelled cs bares) (hspells : Token.Spells t.kind piece)
    (hdisplay : t.display = String.ofList piece) (hstops : Token.Stops piece cs) :
    Spelled (piece ++ cs) (t.bare :: bares) := by
  intro n
  obtain ⟨tokens, hlexed, hbares⟩ := h (n + byteLength piece)
  refine ⟨⟨t.kind, t.lexeme, ⟨n, n + byteLength piece⟩⟩ :: tokens, ?_, by rw [← hbares]; rfl⟩
  have hblanks : ∀ c ∈ ([] : List Char), isBlank c = true := by simp
  exact .cons hblanks hspells hdisplay hstops rfl rfl hlexed

/-- A text in front of another one that cuts it off. -/
theorem Lexed.spelled_append {n : Nat} {cs tail : List Char} {tokens : List Token}
    {bares : List (Token.Kind × String)} (h : Lexed n cs tokens) (htail : Spelled tail bares)
    (hcuts : Cuts tail) : Spelled (cs ++ tail) (tokens.map Token.bare ++ bares) := by
  induction h with
  | nil hblanks => exact htail.blanks hblanks
  | @cons n blanks piece cs t tokens hblanks hspells hdisplay hstops _ _ _ ih =>
    rw [List.append_assoc, List.append_assoc]
    exact (ih.piece hspells hdisplay (hstops.append hcuts)).blanks hblanks

/-! ### Words and marks -/

theorem Spelled.identifier {word : String} {cs : List Char} {bares : List (Token.Kind × String)}
    (h : Spelled cs bares) (hword : Word.isIdentifier word.toList = true) (hcuts : Cuts cs) :
    Spelled (word.toList ++ cs) ((.identifier, word) :: bares) := by
  have hspells : Token.Spells .identifier word.toList := Token.Kind.FollowsFrom.spells hword
  refine h.piece (t := ⟨.identifier, word, .single 0⟩) hspells ?_ (.of_cuts hcuts)
  simp [Token.display, Token.isString]

theorem Spelled.keyword {cs : List Char} {bares : List (Token.Kind × String)} (h : Spelled cs bares)
    (k : Keyword) (hcuts : Cuts cs) : Spelled (k.word.toList ++ cs) ((.keyword k, k.word) :: bares) := by
  refine h.piece (t := ⟨.keyword k, k.word, .single 0⟩) (spells_keyword k) ?_ (.of_cuts hcuts)
  simp [Token.display, Token.isString]

theorem Spelled.mark {c : Char} {cs : List Char} {bares : List (Token.Kind × String)} (h : Spelled cs bares)
    {mark : Punctuation} (hc : Punctuation.ofChar? c = some mark) (hequal : c = '=' → Cuts cs) :
    Spelled (c :: cs) ((.punctuation mark, String.ofList [c]) :: bares) := by
  have hfollows : Token.Kind.FollowsFrom [c] (.punctuation mark) := ⟨c, rfl, hc⟩
  have hkind : Lexer.signKind c = .ok (.punctuation mark) := by simp [Lexer.signKind, hc]
  have hsyntactic : isSyntactic c = true := Lexer.isSyntactic_of_signKind hkind
  refine h.piece (t := ⟨.punctuation mark, String.ofList [c], .single 0⟩) hfollows.spells ?_ ?_
  · simp [Token.display, Token.isString]
  · -- of the marks only the equals sign begins an operator
    refine Token.stops_of_syntactic List.mem_cons_self hsyntactic fun hsign hhead => ?_
    simp only [List.mem_cons, List.cons.injEq, and_true, List.not_mem_nil, or_false] at hsign
    rcases hsign with rfl | rfl | rfl | rfl
    · exact (hequal rfl '=' hhead).2 rfl
    · cases hc
    · cases hc
    · cases hc

/-- The tokens of a text that is known to be read. -/
theorem Spelled.tokenize {text : String} {bares : List (Token.Kind × String)}
    (h : Spelled text.toList bares) :
    ∃ tokens, tokenize text = .ok tokens ∧ tokens.map Token.bare = bares := by
  obtain ⟨tokens, hlexed, hbares⟩ := h 0
  exact ⟨tokens, Lexer.tokens_of_lexed hlexed, hbares⟩

end Primer
