import Mathlib.Data.List.TakeWhile
import Primer.Proofs.Text.Boundary
import Primer.Token.Lexer

/-!
# What the lexer finds

* `Token.Spells kind piece`: a piece of text that is a token of that kind.
* `Token.Stops piece rest`: the piece is no front of a longer token.
* `Lexed n cs tokens`: the tokens of the text `cs`, whose first byte has position `n`, with nothing but
  blanks between them.
* `lexed_of_tokenize`: so it is for the tokens of a statement.
* `Lexer.placed_of_tokens_error`: what the lexer does not know stands in the text where it says.
-/

namespace Primer

open Text

/-- The pieces of text that are tokens of each kind. -/
inductive Token.Spells : Token.Kind → List Char → Prop
  | pair {pair : List Char} {op : Operator} (hpair : pair ∈ operatorPairs)
    (h : Operator.ofText? pair = some op) : Spells (.operator op) pair
  | sign {c : Char} {kind : Token.Kind} (h : Lexer.signKind c = .ok kind) : Spells kind [c]
  | string {body : List Char} (h : ∀ c ∈ body, c ≠ '"') : Spells .string ('"' :: body ++ ['"'])
  | word {word : List Char} {kind : Token.Kind} (hne : word ≠ [])
    (hword : ∀ c ∈ word, isSyntactic c = false) (h : Lexer.wordKind word = .ok kind) :
    Spells kind word

/-! ### Operators -/

/-- The characters that begin an operator of two characters are those that the second test of `Token.Stops` is
about. -/
theorem mem_operatorPairs_iff {pair : List Char} :
    pair ∈ operatorPairs ↔ ∃ c, pair = [c, '='] ∧ [c] ∈ [['='], ['<'], ['>'], ['!']] := by
  simp only [operatorPairs, List.mem_cons, List.cons.injEq, and_true, List.not_mem_nil, or_false]
  constructor
  · rintro (rfl | rfl | rfl | rfl)
    · exact ⟨'=', rfl, .inl rfl⟩
    · exact ⟨'>', rfl, .inr (.inr (.inl rfl))⟩
    · exact ⟨'<', rfl, .inr (.inl rfl)⟩
    · exact ⟨'!', rfl, .inr (.inr (.inr rfl))⟩
  · rintro ⟨c, rfl, rfl | rfl | rfl | rfl⟩ <;> simp

/-- The operators of two characters are operators. -/
theorem Lexer.exists_operatorKind {pair : List Char} (h : pair ∈ operatorPairs) :
    ∃ op, Lexer.operatorKind pair = .ok (.operator op) := by
  simp only [operatorPairs, List.mem_cons, List.not_mem_nil, or_false] at h
  rcases h with rfl | rfl | rfl | rfl
  exacts [⟨.equalEqual, rfl⟩, ⟨.greaterEqual, rfl⟩, ⟨.lessEqual, rfl⟩, ⟨.bangEqual, rfl⟩]

theorem Lexer.operatorKind_eq_ok_iff {text : List Char} {kind : Token.Kind} :
    Lexer.operatorKind text = .ok kind ↔ ∃ op, Operator.ofText? text = some op ∧ kind = .operator op := by
  unfold Lexer.operatorKind
  split
  · rename_i op hop
    simp only [Except.ok.injEq, hop, Option.some.injEq, exists_eq_left', eq_comm]
  · rename_i hnone
    simp [hnone]

namespace Token.Spells

theorem ne_nil {kind : Token.Kind} {piece : List Char} (h : Spells kind piece) : piece ≠ [] := by
  cases h with
  | pair hpair =>
    obtain ⟨c, rfl, -⟩ := mem_operatorPairs_iff.mp hpair
    simp
  | word hne => exact hne
  | _ => simp

theorem punctuation {mark : Punctuation} {piece : List Char} (h : Spells (.punctuation mark) piece) :
    ∃ c, piece = [c] ∧ Punctuation.ofChar? c = some mark := by
  cases h with
  | @sign c _ h =>
    unfold Lexer.signKind at h
    split at h
    · rename_i hc
      cases h
      exact ⟨c, rfl, hc⟩
    · obtain ⟨op, -, hkind⟩ := Lexer.operatorKind_eq_ok_iff.mp h
      cases hkind
  | word hne hword h =>
    unfold Lexer.wordKind at h
    split at h
    · split at h <;> cases h
    · split at h
      · cases h
      · split at h <;> cases h

theorem semicolon {piece : List Char} (h : Spells (.punctuation .semicolon) piece) :
    piece = [';'] := by
  obtain ⟨c, rfl, hc⟩ := h.punctuation
  unfold Punctuation.ofChar? at hc
  split at hc <;> cases hc
  rfl

/-- Tokens do not end in a blank, and only a semicolon ends in one. -/
theorem exists_last {kind : Token.Kind} {piece : List Char} (h : Spells kind piece) :
    ∃ front c, piece = front ++ [c] ∧ isBlank c = false ∧
      (c = ';' → kind = .punctuation .semicolon) := by
  cases h with
  | pair hpair =>
    obtain ⟨c, rfl, -⟩ := mem_operatorPairs_iff.mp hpair
    exact ⟨[c], '=', rfl, by decide, fun hc => absurd hc (by decide)⟩
  | @sign c _ h =>
    refine ⟨[], c, rfl, ?_, ?_⟩
    · rw [Bool.eq_false_iff]
      intro hblank
      have hc : c = ' ' ∨ c = '\t' := by simpa [isBlank] using hblank
      rcases hc with rfl | rfl <;> cases h
    · rintro rfl
      cases h
      rfl
  | @string body h => exact ⟨'"' :: body, '"', rfl, by decide, fun hc => absurd hc (by decide)⟩
  | word hne hword h =>
    obtain ⟨front, c, rfl⟩ := (List.eq_nil_or_concat _).resolve_left hne
    have hc : isSyntactic c = false := hword c (by simp)
    refine ⟨front, c, List.concat_eq_append, ?_, ?_⟩
    · simp only [isSyntactic, Bool.or_eq_false_iff] at hc
      exact hc.1
    · rintro rfl
      cases hc

end Token.Spells

/-- The piece cannot go on into the `rest` behind it: a word stands before a character that ends it, and
the front of an operator of two characters does not stand before the other one. -/
def Token.Stops (piece rest : List Char) : Prop :=
  ((∀ c ∈ piece, isSyntactic c = false) → ∀ d ∈ rest.head?, isSyntactic d = true) ∧
    (piece ∈ [['='], ['<'], ['>'], ['!']] → rest.head? ≠ some '=')

/-! ### One token -/

theorem not_of_dropWhile_eq_cons {p : Char → Bool} {cs rest : List Char} {c : Char}
    (h : cs.dropWhile p = c :: rest) : p c = false := by
  have hhead := List.head?_dropWhile_not p cs
  rwa [h] at hhead

theorem isSyntactic_of_mem_operatorPairs {pair : List Char} (h : pair ∈ operatorPairs) :
    ∀ c ∈ pair, isSyntactic c = true := by
  have hall : operatorPairs.all (·.all isSyntactic) = true := by decide
  exact List.all_eq_true.mp (List.all_eq_true.mp hall pair h)

theorem head_ne_of_pair? {c : Char} {cs : List Char} (h : Lexer.pair? (c :: cs) = none)
    (hc : [c] ∈ [['='], ['<'], ['>'], ['!']]) : cs.head? ≠ some '=' := by
  intro hhead
  obtain ⟨rest, rfl⟩ := List.head?_eq_some_iff.mp hhead
  have hpair : Lexer.pair? (c :: '=' :: rest) = some ([c, '='], rest) :=
    Lexer.pair?_eq_some_iff.mpr ⟨mem_operatorPairs_iff.mpr ⟨c, rfl, hc⟩, rfl⟩
  rw [h] at hpair
  cases hpair

theorem Token.stops_of_syntactic {piece rest : List Char} {c : Char} (hmem : c ∈ piece)
    (hc : isSyntactic c = true)
    (hsign : piece ∈ [['='], ['<'], ['>'], ['!']] → rest.head? ≠ some '=') : Token.Stops piece rest := by
  refine ⟨fun hword => ?_, hsign⟩
  rw [hword c hmem] at hc
  cases hc

theorem Token.stops_of_word {piece rest : List Char} (hne : piece ≠ [])
    (hword : ∀ c ∈ piece, isSyntactic c = false) (hrest : ∀ d ∈ rest.head?, isSyntactic d = true) :
    Token.Stops piece rest := by
  refine ⟨fun _ => hrest, fun hsign => ?_⟩
  simp only [List.mem_cons, List.not_mem_nil, or_false] at hsign
  rcases hsign with rfl | rfl | rfl | rfl <;>
    exact absurd (hword _ List.mem_cons_self) (by decide)

namespace Lexer

/-- What is read at a place of a text that has no blanks in front. -/
def Finds (l : Lexer) : Except Diagnostic (Option Token) × Lexer → Prop
  | (.ok none, l') => l.rest = [] ∧ l' = l
  | (.ok (some t), l') => ∃ piece, Token.Spells t.kind piece ∧ t.display = String.ofList piece ∧
      Token.Stops piece l'.rest ∧ t.span = l.spanOf piece ∧ l.rest = piece ++ l'.rest ∧
      l'.position = l.position + byteLength piece
  | (.error d, _) => d.context = none ∧ d.cause.kind = .lexical ∧
      ∃ piece rest, piece ≠ [] ∧ l.rest = piece ++ rest ∧ d.span = l.spanOf piece

theorem lexical_of_wordKind {word : List Char} {cause : Cause} (h : wordKind word = .error cause) :
    cause.kind = .lexical := by
  unfold wordKind at h
  split at h
  · split at h <;> cases h
    rfl
  · split at h
    · cases h
    · split at h <;> cases h
      rfl

theorem lexical_of_operatorKind {text : List Char} {cause : Cause} (h : operatorKind text = .error cause) :
    cause.kind = .lexical := by
  unfold operatorKind at h
  split at h <;> cases h
  rfl

theorem lexical_of_signKind {c : Char} {cause : Cause} (h : signKind c = .error cause) :
    cause.kind = .lexical := by
  unfold signKind at h
  split at h
  · cases h
  · exact lexical_of_operatorKind h

/-- No sign and no word is a string. -/
theorem not_string_of_signKind {c : Char} : signKind c ≠ .ok .string := by
  unfold signKind
  split
  · simp
  · rw [Ne, operatorKind_eq_ok_iff]
    rintro ⟨op, -, hkind⟩
    cases hkind

theorem not_string_of_wordKind {word : List Char} : wordKind word ≠ .ok .string := by
  unfold wordKind
  split
  · split <;> simp
  · split
    · simp
    · split <;> simp

theorem finds_emit {l : Lexer} {kind : Except Cause Token.Kind} {piece rest : List Char}
    (hrest : l.rest = piece ++ rest) (hne : piece ≠ []) (hstops : Token.Stops piece rest)
    (hok : ∀ k, kind = .ok k → Token.Spells k piece ∧ k ≠ .string)
    (herror : ∀ cause, kind = .error cause → cause.kind = .lexical) :
    l.Finds (l.emit kind piece rest) := by
  cases kind with
  | ok k =>
    obtain ⟨hspells, hstring⟩ := hok k rfl
    exact ⟨piece, hspells, by simp [Token.display, Token.isString, hstring], hstops, rfl, hrest, rfl⟩
  | error cause => exact ⟨rfl, herror cause rfl, piece, rest, hne, hrest, rfl⟩

theorem finds_quoted {l : Lexer} {body : List Char} (hrest : l.rest = '"' :: body) :
    l.Finds (l.quoted body) := by
  have hsplit : body.takeWhile (· ≠ '"') ++ body.dropWhile (· ≠ '"') = body :=
    List.takeWhile_append_dropWhile
  unfold quoted
  split
  · exact ⟨rfl, rfl, l.rest, [], by simp [hrest], by simp, rfl⟩
  · rename_i quote rest hd
    have hquote : quote = '"' := by simpa using not_of_dropWhile_eq_cons hd
    subst hquote
    refine ⟨'"' :: body.takeWhile (· ≠ '"') ++ ['"'], .string ?_, ?_, ?_, rfl, ?_, rfl⟩
    · intro c hc
      simpa using List.mem_takeWhile_imp hc
    · simp [Token.display, Token.isString, String.ofList_cons, String.append_assoc]
    · exact Token.stops_of_syntactic List.mem_cons_self (by decide) (by simp)
    · calc l.rest = '"' :: (body.takeWhile (· ≠ '"') ++ body.dropWhile (· ≠ '"')) := by
            rw [hrest, hsplit]
        _ = '"' :: body.takeWhile (· ≠ '"') ++ ['"'] ++ rest := by rw [hd]; simp

/-- Whatever stands in front is found with its kind and span. -/
theorem finds_front (l : Lexer) : l.Finds l.front := by
  unfold front
  split
  · rename_i hrest
    exact ⟨hrest, rfl⟩
  · rename_i body hrest
    exact finds_quoted hrest
  · rename_i c cs _ hrest
    split
    · rename_i pair rest hp
      obtain ⟨hpair, heq⟩ := pair?_eq_some_iff.mp hp
      obtain ⟨c', hc', hsign⟩ := mem_operatorPairs_iff.mp hpair
      have hne : pair ≠ [] := by simp [hc']
      have hstops : Token.Stops pair rest := by
        refine Token.stops_of_syntactic (c := '=') (by simp [hc']) (by decide) fun hone => ?_
        simp [hc'] at hone
      refine finds_emit (hrest.trans heq) hne hstops (fun k hk => ?_) fun _ => lexical_of_operatorKind
      obtain ⟨op, hop, rfl⟩ := operatorKind_eq_ok_iff.mp hk
      exact ⟨.pair hpair hop, by simp⟩
    · rename_i hpair
      split
      · rename_i hc
        have hstops : Token.Stops [c] cs :=
          Token.stops_of_syntactic List.mem_cons_self hc (head_ne_of_pair? hpair)
        refine finds_emit hrest (by simp) hstops (fun k hk => ?_) fun _ => lexical_of_signKind
        exact ⟨.sign hk, fun hs => not_string_of_signKind (hs ▸ hk)⟩
      · rename_i hc
        have hword : (c :: cs).takeWhile (!isSyntactic ·) ≠ [] := by simp [hc]
        have hsplit : (c :: cs).takeWhile (!isSyntactic ·) ++ (c :: cs).dropWhile (!isSyntactic ·) =
            c :: cs := List.takeWhile_append_dropWhile
        have hstops : Token.Stops ((c :: cs).takeWhile (!isSyntactic ·))
            ((c :: cs).dropWhile (!isSyntactic ·)) := by
          refine Token.stops_of_word hword (fun c' hc' => ?_) fun d hd => ?_
          · simpa using List.mem_takeWhile_imp hc'
          · have hhead := List.head?_dropWhile_not (!isSyntactic ·) (c :: cs)
            rw [Option.mem_def.mp hd] at hhead
            simpa using hhead
        refine finds_emit (by rw [hrest, hsplit]) hword hstops (fun k hk => ?_)
          fun _ => lexical_of_wordKind
        refine ⟨.word hword (fun c' hc' => ?_) hk, fun hs => not_string_of_wordKind (hs ▸ hk)⟩
        simpa using List.mem_takeWhile_imp hc'

end Lexer

/-! ### All tokens -/

/-- The tokens of the text `cs` that starts at the position `n`.  What is not in them is blank. -/
inductive Lexed : Nat → List Char → List Token → Prop
  | nil {n : Nat} {blanks : List Char} (h : ∀ c ∈ blanks, isBlank c = true) : Lexed n blanks []
  | cons {n : Nat} {blanks piece cs : List Char} {t : Token} {tokens : List Token}
    (h : ∀ c ∈ blanks, isBlank c = true) (hspells : Token.Spells t.kind piece)
    (hdisplay : t.display = String.ofList piece) (hstops : Token.Stops piece cs)
    (hstart : t.span.start = n + byteLength blanks)
    (hstop : t.span.stop = n + byteLength blanks + byteLength piece)
    (hcs : Lexed t.span.stop cs tokens) : Lexed n (blanks ++ (piece ++ cs)) (t :: tokens)

namespace Lexer

theorem lexed_of_tokens {l : Lexer} {tokens : List Token} (h : l.tokens = .ok tokens) :
    Lexed l.position l.rest tokens := by
  have hsplit : l.rest.takeWhile isBlank ++ l.rest.dropWhile isBlank = l.rest :=
    List.takeWhile_append_dropWhile
  have hblanks : ∀ c ∈ l.rest.takeWhile isBlank, isBlank c = true :=
    fun c => List.mem_takeWhile_imp
  have hfinds : l.skipBlanks.Finds l.next := finds_front l.skipBlanks
  rw [Lexer.tokens] at h
  split at h
  · cases h
  · rename_i hnext
    cases h
    rw [hnext] at hfinds
    have hnil : l.rest.dropWhile isBlank = [] := hfinds.1
    rw [hnil, List.append_nil] at hsplit
    rw [← hsplit]
    exact .nil hblanks
  · rename_i t l' hnext
    rw [hnext] at hfinds
    obtain ⟨piece, hspells, hdisplay, hstops, hspan, hrest, hposition⟩ := hfinds
    have hrest : l.rest.dropWhile isBlank = piece ++ l'.rest := hrest
    have hstop : l'.position = t.span.stop := by rw [hspan, hposition]; rfl
    cases htokens : l'.tokens with
    | error d =>
      rw [htokens] at h
      cases h
    | ok later =>
      rw [htokens] at h
      cases h
      have hlt : l'.rest.length < l.rest.length := length_lt_of_next hnext
      have ih := lexed_of_tokens htokens
      rw [hstop] at ih
      rw [← hsplit, hrest]
      exact .cons hblanks hspells hdisplay hstops (by rw [hspan]; rfl) (by rw [hspan]; rfl) ih
termination_by l.rest.length

/-- What cannot be read stands in the text where the fault says. -/
theorem placed_of_tokens_error {l : Lexer} {d : Diagnostic} (h : l.tokens = .error d) :
    d.context = none ∧ d.cause.kind = .lexical ∧ ∃ pre piece post, piece ≠ [] ∧
      l.rest = pre ++ (piece ++ post) ∧ d.span.start = l.position + byteLength pre ∧
        d.span.stop = d.span.start + byteLength piece := by
  have hsplit : l.rest.takeWhile isBlank ++ l.rest.dropWhile isBlank = l.rest :=
    List.takeWhile_append_dropWhile
  have hfinds : l.skipBlanks.Finds l.next := finds_front l.skipBlanks
  rw [Lexer.tokens] at h
  split at h
  · rename_i d' l' hnext
    cases h
    rw [hnext] at hfinds
    obtain ⟨hcontext, hkind, piece, rest, hne, hrest, hspan⟩ := hfinds
    have hrest : l.rest.dropWhile isBlank = piece ++ rest := hrest
    refine ⟨hcontext, hkind, l.rest.takeWhile isBlank, piece, rest, hne, ?_, ?_, ?_⟩
    · rw [← hrest, hsplit]
    · rw [hspan]
      rfl
    · rw [hspan]
      rfl
  · cases h
  · rename_i t l' hnext
    rw [hnext] at hfinds
    obtain ⟨piece, -, -, -, -, hrest, hposition⟩ := hfinds
    have hrest : l.rest.dropWhile isBlank = piece ++ l'.rest := hrest
    have hposition : l'.position =
        l.position + byteLength (l.rest.takeWhile isBlank) + byteLength piece := hposition
    cases htokens : l'.tokens with
    | ok later =>
      rw [htokens] at h
      cases h
    | error d' =>
      rw [htokens] at h
      cases h
      have hlt : l'.rest.length < l.rest.length := length_lt_of_next hnext
      obtain ⟨hcontext, hkind, pre, piece', post, hne, hrest', hstart, hstop⟩ :=
        placed_of_tokens_error htokens
      refine ⟨hcontext, hkind, l.rest.takeWhile isBlank ++ piece ++ pre, piece', post, hne, ?_, ?_,
        hstop⟩
      · calc l.rest = l.rest.takeWhile isBlank ++ (piece ++ (pre ++ (piece' ++ post))) := by
              rw [← hrest', ← hrest, hsplit]
          _ = l.rest.takeWhile isBlank ++ piece ++ pre ++ (piece' ++ post) := by simp
      · rw [hstart, hposition]
        simp only [byteLength_append]
        omega
termination_by l.rest.length

end Lexer

/-- Every token of a text stands in it where it says. -/
theorem Lexed.exists_piece {n : Nat} {cs : List Char} {tokens : List Token} (h : Lexed n cs tokens) :
    ∀ t ∈ tokens, ∃ pre piece post, cs = pre ++ (piece ++ post) ∧ Token.Spells t.kind piece ∧
      t.span.start = n + byteLength pre ∧ t.span.stop = t.span.start + byteLength piece ∧
        t.display = String.ofList piece ∧ Token.Stops piece post := by
  induction h with
  | nil => simp
  | @cons n blanks piece cs t tokens hblanks hspells hdisplay hstops hstart hstop hcs ih =>
    intro t' ht'
    rcases List.mem_cons.mp ht' with rfl | ht'
    · exact ⟨blanks, piece, cs, rfl, hspells, hstart, by omega, hdisplay, hstops⟩
    · obtain ⟨pre, piece', post, rfl, hspells', hstart', hrest⟩ := ih t' ht'
      refine ⟨blanks ++ piece ++ pre, piece', post, by simp, hspells', ?_, hrest⟩
      simp only [byteLength_append]
      omega

/-- A text whose last token is a semicolon ends in one, apart from blanks. -/
theorem Lexed.last_semicolon {n : Nat} {cs : List Char} {front : List Token} {t : Token}
    (ht : t.kind = .punctuation .semicolon) (h : Lexed n cs (front ++ [t])) :
    (trimEnd isBlank cs).getLast? = some ';' := by
  have hlast : ∀ cs : List Char,
      (trimEnd isBlank cs).getLast? = (cs.reverse.dropWhile isBlank).head? := by simp [trimEnd]
  rw [hlast]
  induction front generalizing n cs with
  | nil =>
    cases h with
    | @cons _ blanks piece cs _ _ _ hspells _ _ _ _ hcs =>
      rw [ht] at hspells
      cases hspells.semicolon
      cases hcs with
      | nil hcs =>
        have hrev : ∀ c ∈ cs.reverse, isBlank c = true := by simpa using hcs
        simp [List.dropWhile_append_of_pos hrev, isBlank]
  | cons t' front ih =>
    cases h with
    | @cons _ blanks piece cs _ _ _ _ _ _ _ _ hcs =>
      have hcs := ih hcs
      rw [List.reverse_append, List.reverse_append, List.append_assoc, List.dropWhile_append]
      split
      · rename_i hempty
        rw [List.isEmpty_iff.mp hempty] at hcs
        cases hcs
      · rw [List.head?_append, hcs]
        rfl

theorem Lexed.eq_nil_of_blank {n : Nat} {cs : List Char} {tokens : List Token} (h : Lexed n cs tokens)
    (hblank : ∀ c ∈ cs, isBlank c = true) : tokens = [] := by
  cases h with
  | nil => rfl
  | cons _ hspells =>
    obtain ⟨front, c, rfl, hc, -⟩ := hspells.exists_last
    rw [hblank c (by simp)] at hc
    cases hc

/-- A text that ends in a semicolon, apart from blanks, has one for its last token: no string and no word
holds it. -/
theorem Lexed.exists_semicolon {n : Nat} {cs : List Char} {tokens : List Token} (h : Lexed n cs tokens)
    (hlast : (trimEnd isBlank cs).getLast? = some ';') :
    ∃ front t, tokens = front ++ [t] ∧ t.kind = .punctuation .semicolon := by
  have hrev : ∀ cs : List Char,
      (trimEnd isBlank cs).getLast? = (cs.reverse.dropWhile isBlank).head? := by simp [trimEnd]
  rw [hrev] at hlast
  induction h with
  | nil hblanks =>
    rw [List.dropWhile_eq_nil_iff.mpr (by simpa using hblanks)] at hlast
    cases hlast
  | @cons n blanks piece cs t tokens _ hspells _ _ _ _ hcs ih =>
    rw [List.reverse_append, List.reverse_append, List.append_assoc, List.dropWhile_append] at hlast
    split at hlast
    · -- nothing but blanks follows, so the piece itself ends in the semicolon
      rename_i hempty
      have hblank : ∀ c ∈ cs, isBlank c = true := by
        simpa using List.dropWhile_eq_nil_iff.mp (List.isEmpty_iff.mp hempty)
      obtain ⟨front, c, rfl, hc, hkind⟩ := hspells.exists_last
      rw [List.reverse_append, List.reverse_singleton, List.singleton_append, List.cons_append,
        List.dropWhile_cons_of_neg (by simp [hc])] at hlast
      rw [hcs.eq_nil_of_blank hblank]
      exact ⟨[], t, rfl, hkind (Option.some.inj hlast)⟩
    · rename_i hne
      have hlast : (cs.reverse.dropWhile isBlank).head? = some ';' := by
        rwa [List.head?_append, Option.or_of_isSome (by simpa using hne)] at hlast
      obtain ⟨front, t', rfl, ht'⟩ := ih hlast
      exact ⟨t :: front, t', rfl, ht'⟩

theorem lexed_of_tokenize {text : String} {tokens : List Token} (h : tokenize text = .ok tokens) :
    Lexed 0 text.toList tokens :=
  Lexer.lexed_of_tokens h

end Primer
