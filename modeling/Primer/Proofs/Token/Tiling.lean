import Primer.Proofs.Token.Lexing

/-!
# Tokens tile the text

What the tokens of a text are, said without the lexer: pieces of the text in order, each of a kind that
its slice shows and as long as it can be, with nothing but blanks between them.

* `Token.Kind.FollowsFrom kind slice`: the kind that a slice of text shows.
* `Token.Stands cs t`: the token is what stands in the text `cs` at its span.
* `Tiles text tokens`: the tokens are all that stands in the text.
* `Lexer.tokens_eq_ok_iff`: the lexer finds a list of tokens just if they are laid out one by one.
* `tokenize_eq_ok_iff_tiles`: tokenizing gives the one tiling of the text, if there is one.
-/

namespace Primer

open Text

/-! ### Kinds -/

/-- The kind of a token follows from its slice of the text: one of the operators or marks, a quoted run
without a quote inside, or a word that is a number, a keyword or an identifier. -/
def Token.Kind.FollowsFrom (slice : List Char) : Token.Kind → Prop
  | .operator op => slice = op.symbol.toList
  | .punctuation mark => ∃ c, slice = [c] ∧ Punctuation.ofChar? c = some mark
  | .string => ∃ body, slice = '"' :: body ++ ['"'] ∧ '"' ∉ body
  | .number value => (∀ c ∈ slice, isSyntactic c = false) ∧ Word.isNumber slice = true ∧
      Number.read? slice = some value
  | .keyword word => slice = word.word.toList
  | .identifier => Word.isIdentifier slice = true

/-- The kinds that words have. -/
def Token.Kind.isWord : Token.Kind → Bool
  | .number _ | .keyword _ | .identifier => true
  | .operator _ | .punctuation _ | .string => false

theorem symbol_of_ofText? {text : List Char} {op : Operator} (h : Operator.ofText? text = some op) :
    text = op.symbol.toList := by
  unfold Operator.ofText? at h
  split at h <;> cases h <;> decide

theorem word_of_ofWord? {word : List Char} {k : Keyword} (h : Keyword.ofWord? word = some k) :
    word = k.word.toList := by
  have hfound : k.word.toList = word := by simpa using List.find?_some h
  exact hfound.symm

theorem isSyntactic_of_isIdentifierChar {c : Char} (h : Word.isIdentifierChar c = true) :
    isSyntactic c = false := by
  have hnone : (' ' :: '\t' :: "+-*/<>!()[]=,;\"".toList).all (!Word.isIdentifierChar ·) = true := by
    decide +kernel
  cases hc : isSyntactic c with
  | false => rfl
  | true =>
    have hmem : c ∈ ' ' :: '\t' :: "+-*/<>!()[]=,;\"".toList := by
      simpa only [isSyntactic, isBlank, Bool.or_eq_true, decide_eq_true_eq, List.contains_iff_mem,
        or_assoc, List.mem_cons] using hc
    have hnot := List.all_eq_true.mp hnone c hmem
    rw [h] at hnot
    cases hnot

/-- Letters and underscores begin no number. -/
theorem isNumber_of_isAlpha {c : Char} (h : (c.isAlpha || c = '_') = true) (cs : List Char) :
    Word.isNumber (c :: cs) = false := by
  have hdigit : c.isDigit = false := by
    simp only [Bool.or_eq_true, isAlpha_iff, Char.le_def, decide_eq_true_eq,
      UInt32.le_iff_toNat_le] at h
    simp only [Char.isDigit, Bool.and_eq_false_iff, decide_eq_false_iff_not, UInt32.le_iff_toNat_le]
    rcases h with (h | h) | rfl
    · have hle : 65 ≤ c.val.toNat := h.1
      right
      intro hnine
      have hnine : c.val.toNat ≤ 57 := hnine
      omega
    · have hle : 97 ≤ c.val.toNat := h.1
      right
      intro hnine
      have hnine : c.val.toNat ≤ 57 := hnine
      omega
    · decide
  unfold Word.isNumber
  split
  · rename_i hc
    cases hc
    cases h
  · rename_i hc
    cases hc
    cases h
  · have hpoint : c ≠ '.' := by
      rintro rfl
      cases h
    simp [Word.isNumeralBody, hdigit, hpoint]

/-- An identifier is neither a number nor a keyword, and no character of it ends a word. -/
theorem word_of_isIdentifier {word : List Char} (h : Word.isIdentifier word = true) :
    word ≠ [] ∧ (∀ c ∈ word, isSyntactic c = false) ∧ Word.isNumber word = false ∧
      Keyword.ofWord? word = none := by
  have hchars := isIdentifierChar_of_isIdentifier h
  cases word with
  | nil => cases h
  | cons c cs =>
    simp only [Word.isIdentifier, Bool.and_eq_true, Bool.not_eq_true'] at h
    obtain ⟨⟨hc, -⟩, hreserved⟩ := h
    refine ⟨List.cons_ne_nil c cs, fun d hd => isSyntactic_of_isIdentifierChar (hchars d hd), ?_, ?_⟩
    · exact isNumber_of_isAlpha (by simpa using hc) cs
    · simpa [Word.isReserved] using hreserved

theorem Token.Spells.followsFrom {kind : Token.Kind} {piece : List Char} (h : Spells kind piece) :
    kind.FollowsFrom piece := by
  cases h with
  | pair _ h => exact symbol_of_ofText? h
  | @sign c kind h =>
    unfold Lexer.signKind at h
    split at h
    · rename_i mark hmark
      cases h
      exact ⟨c, rfl, hmark⟩
    · obtain ⟨op, hop, rfl⟩ := Lexer.operatorKind_eq_ok_iff.mp h
      exact symbol_of_ofText? hop
  | @string body h => exact ⟨body, rfl, fun hmem => h _ hmem rfl⟩
  | word hne hword h =>
    unfold Lexer.wordKind at h
    split at h
    · rename_i hnumber
      split at h <;> cases h
      rename_i value hvalue
      exact ⟨hword, hnumber, hvalue⟩
    · split at h
      · rename_i k hk
        cases h
        exact word_of_ofWord? hk
      · split at h <;> cases h
        rename_i hidentifier
        exact hidentifier

theorem spells_operator (op : Operator) : Token.Spells (.operator op) op.symbol.toList := by
  cases op with
  | plus => exact Token.Spells.sign (c := '+') rfl
  | minus => exact Token.Spells.sign (c := '-') rfl
  | star => exact Token.Spells.sign (c := '*') rfl
  | slash => exact Token.Spells.sign (c := '/') rfl
  | less => exact Token.Spells.sign (c := '<') rfl
  | greater => exact Token.Spells.sign (c := '>') rfl
  | bang => exact Token.Spells.sign (c := '!') rfl
  | equalEqual => exact Token.Spells.pair (by decide) rfl
  | greaterEqual => exact Token.Spells.pair (by decide) rfl
  | lessEqual => exact Token.Spells.pair (by decide) rfl
  | bangEqual => exact Token.Spells.pair (by decide) rfl

theorem not_syntactic_of_keyword (k : Keyword) : ∀ c ∈ k.word.toList, isSyntactic c = false := by
  have hall : k.word.toList.all (!isSyntactic ·) = true := by cases k <;> decide +kernel
  simpa using List.all_eq_true.mp hall

theorem spells_keyword (k : Keyword) : Token.Spells (.keyword k) k.word.toList := by
  refine .word ?_ (not_syntactic_of_keyword k) ?_ <;> cases k <;> decide +kernel

theorem Token.Kind.FollowsFrom.spells {kind : Token.Kind} {slice : List Char}
    (h : kind.FollowsFrom slice) : Token.Spells kind slice := by
  cases kind with
  | operator op =>
    have hslice : slice = op.symbol.toList := h
    rw [hslice]
    exact spells_operator op
  | punctuation mark =>
    obtain ⟨c, rfl, hc⟩ := h
    refine .sign ?_
    simp [Lexer.signKind, hc]
  | string =>
    obtain ⟨body, rfl, hbody⟩ := h
    exact .string fun c hc hquote => hbody (hquote ▸ hc)
  | number value =>
    obtain ⟨hword, hnumber, hvalue⟩ := h
    refine .word ?_ hword ?_
    · rintro rfl
      exact absurd hnumber (by decide)
    · simp [Lexer.wordKind, hnumber, hvalue]
  | keyword k =>
    have hslice : slice = k.word.toList := h
    rw [hslice]
    exact spells_keyword k
  | identifier =>
    have hidentifier : Word.isIdentifier slice = true := h
    obtain ⟨hne, hword, hnumber, hkeyword⟩ := word_of_isIdentifier hidentifier
    refine .word hne hword ?_
    simp [Lexer.wordKind, hnumber, hkeyword, hidentifier]

/-! ### The lexer and the layout -/

/-- A token is known by its kind, its display form and its span. -/
theorem Token.ext_display {t t' : Token} (hkind : t.kind = t'.kind) (hspan : t.span = t'.span)
    (hdisplay : t.display = t'.display) : t = t' := by
  obtain ⟨kind, lexeme, span⟩ := t
  obtain ⟨kind', lexeme', span'⟩ := t'
  cases hkind
  cases hspan
  have hlexeme : lexeme = lexeme' := by
    by_cases hstring : kind = .string
    · simpa [Token.display, Token.isString, hstring, String.ext_iff] using hdisplay
    · simpa [Token.display, Token.isString, hstring] using hdisplay
  rw [hlexeme]

/-- No token begins with a blank. -/
theorem Token.Spells.head_not_blank {kind : Token.Kind} {piece : List Char} (h : Spells kind piece) :
    ∀ c ∈ piece.head?, isBlank c = false := by
  intro c hc
  rw [← Bool.not_eq_true]
  intro hblank
  have hblank : c = ' ' ∨ c = '\t' := by simpa [isBlank] using hblank
  cases h with
  | pair hpair =>
    obtain ⟨c', rfl, hc'⟩ := mem_operatorPairs_iff.mp hpair
    cases hc
    rcases hblank with rfl | rfl <;> simp at hc'
  | sign h =>
    cases hc
    rcases hblank with rfl | rfl <;> cases h
  | string =>
    cases hc
    rcases hblank with hblank | hblank <;> cases hblank
  | word _ hword _ =>
    have hc := hword c (List.mem_of_head? hc)
    rcases hblank with rfl | rfl <;> cases hc

namespace Lexer

variable {l : Lexer} {t : Token} {piece rest : List Char}

/-- What is read in front of anything but a quote. -/
theorem front_eq {c : Char} {cs : List Char} (hrest : l.rest = c :: cs) (hquote : c ≠ '"') :
    l.front = match pair? (c :: cs) with
      | some (pair, rest) => l.emit (operatorKind pair) pair rest
      | none =>
        if isSyntactic c then l.emit (signKind c) [c] cs
        else l.emit (wordKind ((c :: cs).takeWhile (!isSyntactic ·)))
          ((c :: cs).takeWhile (!isSyntactic ·)) ((c :: cs).dropWhile (!isSyntactic ·)) := by
  unfold front
  rw [hrest]
  split
  · rename_i hnil
    cases hnil
  · rename_i hcons
    cases hcons
    exact absurd rfl hquote
  · rename_i hcons
    cases hcons
    rfl

theorem emit_eq (hkind : t.kind ≠ .string) (hdisplay : t.display = String.ofList piece)
    (hspan : t.span = l.spanOf piece) :
    l.emit (.ok t.kind) piece rest = (.ok (some t), l.after piece rest) := by
  have ht : t = ⟨t.kind, String.ofList piece, l.spanOf piece⟩ := by
    refine Token.ext_display rfl hspan ?_
    rw [hdisplay]
    simp [Token.display, Token.isString, hkind]
  calc l.emit (.ok t.kind) piece rest
      = (.ok (some ⟨t.kind, String.ofList piece, l.spanOf piece⟩), l.after piece rest) := rfl
    _ = (.ok (some t), l.after piece rest) := by rw [← ht]

theorem isSyntactic_of_signKind {c : Char} {kind : Token.Kind} (h : signKind c = .ok kind) :
    isSyntactic c = true := by
  unfold signKind at h
  split at h
  · rename_i mark hmark
    unfold Punctuation.ofChar? at hmark
    split at hmark <;> cases hmark <;> decide
  · obtain ⟨op, hop, -⟩ := operatorKind_eq_ok_iff.mp h
    generalize htext : [c] = text at hop
    unfold Operator.ofText? at hop
    split at hop <;> cases hop <;> cases htext <;> decide

theorem front_quoted {body : List Char} (hbody : ∀ c ∈ body, c ≠ '"')
    (hrest : l.rest = '"' :: body ++ ['"'] ++ rest) :
    l.front = (.ok (some ⟨.string, String.ofList body, l.spanOf ('"' :: body ++ ['"'])⟩),
      l.after ('"' :: body ++ ['"']) rest) := by
  have hpass : ∀ c ∈ body, (decide (c ≠ '"')) = true := fun c hc => by simpa using hbody c hc
  have htake : (body ++ ('"' :: rest)).takeWhile (fun c => decide (c ≠ '"')) = body := by
    rw [List.takeWhile_append_of_pos hpass]
    simp
  have hdrop : (body ++ ('"' :: rest)).dropWhile (fun c => decide (c ≠ '"')) = '"' :: rest := by
    rw [List.dropWhile_append_of_pos hpass]
    simp
  have hrest : l.rest = '"' :: (body ++ '"' :: rest) := by rw [hrest]; simp
  unfold front
  rw [hrest]
  simp only [quoted, htake, hdrop]

theorem front_pair {pair : List Char} {op : Operator} (hpair : pair ∈ operatorPairs)
    (hop : Operator.ofText? pair = some op) (hrest : l.rest = pair ++ rest) :
    l.front = l.emit (.ok (.operator op)) pair rest := by
  have hfound : pair? l.rest = some (pair, rest) := pair?_eq_some_iff.mpr ⟨hpair, hrest⟩
  have hkind : operatorKind pair = .ok (.operator op) := operatorKind_eq_ok_iff.mpr ⟨op, hop, rfl⟩
  obtain ⟨c, rfl, hc⟩ := mem_operatorPairs_iff.mp hpair
  have hquote : c ≠ '"' := by
    rintro rfl
    simp at hc
  have hcons : l.rest = c :: ('=' :: rest) := hrest
  rw [hcons] at hfound
  rw [front_eq hcons hquote, hfound]
  simp only [hkind]

theorem front_sign {c : Char} {kind : Token.Kind} (hsign : signKind c = .ok kind)
    (hstops : Token.Stops [c] rest) (hrest : l.rest = c :: rest) :
    l.front = l.emit (.ok kind) [c] rest := by
  have hquote : c ≠ '"' := by
    rintro rfl
    cases hsign
  have hpair : pair? (c :: rest) = none := by
    cases hp : pair? (c :: rest) with
    | none => rfl
    | some r =>
      obtain ⟨hpair, hcons⟩ := pair?_eq_some_iff.mp hp
      obtain ⟨c', hpair, hc⟩ := mem_operatorPairs_iff.mp hpair
      rw [hpair] at hcons
      obtain ⟨rfl, rfl⟩ := List.cons.inj hcons
      exact absurd rfl (hstops.2 hc)
  rw [front_eq hrest hquote, hpair]
  simp only [isSyntactic_of_signKind hsign, if_true, hsign]

theorem front_word {word : List Char} (hne : word ≠ [])
    (hword : ∀ c ∈ word, isSyntactic c = false) (hstops : Token.Stops word rest)
    (hrest : l.rest = word ++ rest) : l.front = l.emit (wordKind word) word rest := by
  have hpass : ∀ c ∈ word, (!isSyntactic c) = true := fun c hc => by simp [hword c hc]
  have hends : rest.takeWhile (!isSyntactic ·) = [] ∧ rest.dropWhile (!isSyntactic ·) = rest := by
    cases rest with
    | nil => simp
    | cons d rest =>
      have hd : isSyntactic d = true := hstops.1 hword d rfl
      simp [hd]
  have htake : (word ++ rest).takeWhile (!isSyntactic ·) = word := by
    rw [List.takeWhile_append_of_pos hpass, hends.1, List.append_nil]
  have hdrop : (word ++ rest).dropWhile (!isSyntactic ·) = rest := by
    rw [List.dropWhile_append_of_pos hpass, hends.2]
  obtain ⟨c, cs, rfl⟩ := List.exists_cons_of_ne_nil hne
  have hc : isSyntactic c = false := hword c List.mem_cons_self
  have hquote : c ≠ '"' := by
    rintro rfl
    cases hc
  have hpair : pair? (c :: (cs ++ rest)) = none := by
    cases hp : pair? (c :: (cs ++ rest)) with
    | none => rfl
    | some r =>
      obtain ⟨hpair, hcons⟩ := pair?_eq_some_iff.mp hp
      have hsyntactic := isSyntactic_of_mem_operatorPairs hpair
      obtain ⟨c', hpair, -⟩ := mem_operatorPairs_iff.mp hpair
      rw [hpair] at hcons hsyntactic
      obtain ⟨rfl, -⟩ := List.cons.inj hcons
      rw [hsyntactic c List.mem_cons_self] at hc
      cases hc
  rw [List.cons_append] at htake hdrop hrest
  rw [front_eq hrest hquote, hpair, htake, hdrop]
  simp [hc]

/-- A piece that can go on no further is read as the token that it spells. -/
theorem front_of_spells (hspells : Token.Spells t.kind piece)
    (hdisplay : t.display = String.ofList piece) (hstops : Token.Stops piece rest)
    (hspan : t.span = l.spanOf piece) (hrest : l.rest = piece ++ rest) :
    l.front = (.ok (some t), l.after piece rest) := by
  generalize hkind : t.kind = kind at hspells
  cases hspells with
  | pair hpair hop =>
    rw [front_pair hpair hop hrest, ← hkind]
    exact emit_eq (by simp [hkind]) hdisplay hspan
  | sign hsign =>
    rw [front_sign hsign hstops hrest, ← hkind]
    refine emit_eq (fun hstring => ?_) hdisplay hspan
    exact not_string_of_signKind (by rw [hsign, ← hkind, hstring])
  | @string body hbody =>
    have ht : t = ⟨.string, String.ofList body, l.spanOf ('"' :: body ++ ['"'])⟩ := by
      refine Token.ext_display hkind hspan ?_
      rw [hdisplay]
      simp [Token.display, Token.isString, String.ofList_cons, String.append_assoc]
    rw [front_quoted hbody hrest, ← ht]
  | word hne hword hk =>
    rw [front_word hne hword hstops hrest, hk, ← hkind]
    refine emit_eq (fun hstring => ?_) hdisplay hspan
    exact not_string_of_wordKind (by rw [hk, ← hkind, hstring])

theorem tokens_eq (l : Lexer) : l.tokens = match l.next with
    | (.error d, _) => .error d
    | (.ok none, _) => .ok []
    | (.ok (some t), l') => l'.tokens.map (t :: ·) := by
  rw [Lexer.tokens]
  split <;> rename_i h <;> rw [h]

theorem skipBlanks_append {n : Nat} {blanks : List Char} (hblanks : ∀ c ∈ blanks, isBlank c = true)
    (cs : List Char) : skipBlanks ⟨n, blanks ++ cs⟩ = skipBlanks ⟨n + byteLength blanks, cs⟩ := by
  unfold skipBlanks
  rw [List.takeWhile_append_of_pos hblanks, List.dropWhile_append_of_pos hblanks, byteLength_append,
    Nat.add_assoc]

/-- Blanks in front are passed over. -/
theorem tokens_append_blanks {n : Nat} {blanks : List Char} (hblanks : ∀ c ∈ blanks, isBlank c = true)
    (cs : List Char) : Lexer.tokens ⟨n, blanks ++ cs⟩ = Lexer.tokens ⟨n + byteLength blanks, cs⟩ := by
  rw [tokens_eq, next, skipBlanks_append hblanks, ← next, ← tokens_eq]

theorem tokens_nil (n : Nat) : Lexer.tokens ⟨n, []⟩ = .ok [] := by
  rw [tokens_eq]
  rfl

/-- What is read next is the token that is laid out behind blanks. -/
theorem next_of_spells {n : Nat} {blanks : List Char} (hblanks : ∀ c ∈ blanks, isBlank c = true)
    (hspells : Token.Spells t.kind piece) (hdisplay : t.display = String.ofList piece)
    (hstops : Token.Stops piece rest) (hstart : t.span.start = n + byteLength blanks)
    (hstop : t.span.stop = n + byteLength blanks + byteLength piece) :
    next ⟨n, blanks ++ (piece ++ rest)⟩ = (.ok (some t), ⟨t.span.stop, rest⟩) := by
  have hskip : skipBlanks ⟨n + byteLength blanks, piece ++ rest⟩ =
      ⟨n + byteLength blanks, piece ++ rest⟩ := by
    obtain ⟨c, piece, rfl⟩ := List.exists_cons_of_ne_nil hspells.ne_nil
    have hc : isBlank c = false := hspells.head_not_blank c rfl
    simp [skipBlanks, hc]
  have hspan : t.span = spanOf ⟨n + byteLength blanks, piece ++ rest⟩ piece := by
    have hstarts : t.span = ⟨t.span.start, t.span.stop⟩ := rfl
    rw [hstarts, hstart, hstop]
    rfl
  rw [next, skipBlanks_append hblanks, hskip, front_of_spells hspells hdisplay hstops hspan rfl, hstop]
  rfl

/-- The lexer finds the tokens that are laid out in front of it. -/
theorem tokens_of_lexed {n : Nat} {cs : List Char} {ts : List Token} (h : Lexed n cs ts) :
    Lexer.tokens ⟨n, cs⟩ = .ok ts := by
  induction h with
  | @nil n blanks hblanks =>
    rw [← List.append_nil blanks, tokens_append_blanks hblanks, tokens_nil]
  | cons hblanks hspells hdisplay hstops hstart hstop hcs ih =>
    rw [tokens_eq, next_of_spells hblanks hspells hdisplay hstops hstart hstop]
    simp only [ih]
    rfl

/-- The lexer finds tokens just if they are laid out in front of it. -/
theorem tokens_eq_ok_iff {l : Lexer} {ts : List Token} :
    l.tokens = .ok ts ↔ Lexed l.position l.rest ts :=
  ⟨lexed_of_tokens, tokens_of_lexed⟩

end Lexer

/-! ### Tilings -/

/-- A token is what stands in the text `cs` at its span, and it goes on as far as it can. -/
structure Token.Stands (cs : List Char) (t : Token) : Prop where
  proper : t.span.start < t.span.stop
  boundaries : Boundary cs t.span.start ∧ Boundary cs t.span.stop
  /-- The bytes of the span are the display form. -/
  slice : StandsAt cs t.span.start t.display.toList ∧
    t.span.stop = t.span.start + t.display.utf8ByteSize
  kind : t.kind.FollowsFrom t.display.toList
  /-- A word extends up to the next syntactic character or the end. -/
  word : t.kind.isWord = true → ∀ c, StandsAt cs t.span.stop [c] → isSyntactic c = true
  /-- The front of an operator of two characters is not immediately followed by the other one. -/
  sign : t.display ∈ ["=", "<", ">", "!"] → ¬StandsAt cs t.span.stop ['=']

/-- The tokens are all that stands in a text: they come in increasing order without overlap, and every
character outside of their spans is blank. -/
structure Tiles (text : String) (tokens : List Token) : Prop where
  stands : ∀ t ∈ tokens, t.Stands text.toList
  ordered : tokens.Pairwise fun t t' => t.span.stop ≤ t'.span.start
  blank : ∀ pre c post, text.toList = pre ++ c :: post →
    (∀ t ∈ tokens, ¬(t.span.start ≤ byteLength pre ∧ byteLength pre < t.span.stop)) →
    isBlank c = true

/-- What stands behind a front of the text is what follows it. -/
theorem head_of_standsAt {cs pre post : List Char} (hcs : cs = pre ++ post) {c : Char}
    (h : StandsAt cs (byteLength pre) [c]) : post.head? = some c := by
  obtain ⟨pre', post', hcs', hlength⟩ := h
  obtain ⟨-, rfl⟩ := append_inj_of_byteLength (hcs.symm.trans hcs') hlength.symm
  rfl

theorem not_syntactic_of_isWord {kind : Token.Kind} {slice : List Char} (h : kind.FollowsFrom slice)
    (hword : kind.isWord = true) : ∀ c ∈ slice, isSyntactic c = false := by
  cases kind with
  | number value => exact h.1
  | identifier => exact (word_of_isIdentifier h).2.1
  | keyword k =>
    have hslice : slice = k.word.toList := h
    rw [hslice]
    exact not_syntactic_of_keyword k
  | operator | punctuation | string => cases hword

theorem isWord_of_not_syntactic {kind : Token.Kind} {slice : List Char} (h : kind.FollowsFrom slice)
    (hslice : ∀ c ∈ slice, isSyntactic c = false) : kind.isWord = true := by
  cases kind with
  | number | identifier | keyword => rfl
  | operator op =>
    have hsymbol : slice = op.symbol.toList := h
    have hany : op.symbol.toList.any isSyntactic = true := by cases op <;> decide +kernel
    obtain ⟨c, hc, hsyntactic⟩ := List.any_eq_true.mp hany
    rw [hslice c (hsymbol ▸ hc)] at hsyntactic
    cases hsyntactic
  | punctuation mark =>
    obtain ⟨c, rfl, hc⟩ := h
    have hsign : Lexer.signKind c = .ok (.punctuation mark) := by simp [Lexer.signKind, hc]
    have hsyntactic := Lexer.isSyntactic_of_signKind hsign
    rw [hslice c List.mem_cons_self] at hsyntactic
    cases hsyntactic
  | string =>
    obtain ⟨body, rfl, -⟩ := h
    exact absurd (hslice '"' List.mem_cons_self) (by decide)

namespace Lexed

variable {n : Nat} {cs : List Char} {tokens : List Token}

theorem stands (h : Lexed 0 cs tokens) : ∀ t ∈ tokens, t.Stands cs := by
  intro t ht
  obtain ⟨pre, piece, post, rfl, hspells, hstart, hstop, hdisplay, hstops⟩ := h.exists_piece t ht
  have hpiece : t.display.toList = piece := by rw [hdisplay, String.toList_ofList]
  have hstart : t.span.start = byteLength pre := by omega
  have hstop : t.span.stop = byteLength (pre ++ piece) := by rw [byteLength_append]; omega
  have hpos := byteLength_pos hspells.ne_nil
  have hfollows := hspells.followsFrom
  have hsplit : pre ++ (piece ++ post) = pre ++ piece ++ post := (List.append_assoc ..).symm
  refine ⟨?_, ⟨?_, ?_⟩, ⟨?_, ?_⟩, ?_, ?_, ?_⟩
  · rw [hstart, hstop, byteLength_append]
    omega
  · exact ⟨pre, piece ++ post, rfl, hstart.symm⟩
  · exact ⟨pre ++ piece, post, hsplit, hstop.symm⟩
  · exact ⟨pre, post, by rw [hpiece], hstart.symm⟩
  · rw [← byteLength_toList, hpiece, hstart, hstop, byteLength_append]
  · rwa [hpiece]
  · intro hword c hc
    rw [hstop] at hc
    exact hstops.1 (not_syntactic_of_isWord hfollows hword) c (head_of_standsAt hsplit hc)
  · intro hsign hc
    rw [hstop] at hc
    refine hstops.2 ?_ (head_of_standsAt hsplit hc)
    rw [← hpiece]
    simp only [List.mem_cons, List.not_mem_nil, or_false] at hsign
    rcases hsign with hsign | hsign | hsign | hsign <;> rw [hsign] <;> decide

theorem le_start (h : Lexed n cs tokens) : ∀ t ∈ tokens, n ≤ t.span.start := by
  intro t ht
  obtain ⟨pre, piece, post, -, -, hstart, -⟩ := h.exists_piece t ht
  omega

theorem ordered (h : Lexed n cs tokens) :
    tokens.Pairwise fun t t' => t.span.stop ≤ t'.span.start := by
  induction h with
  | nil => exact .nil
  | cons _ _ _ _ _ _ hcs ih => exact .cons hcs.le_start ih

/-- A character outside of all spans is one of the blanks between the tokens. -/
theorem blank (h : Lexed n cs tokens) {pre post : List Char} {c : Char} (hcs : cs = pre ++ c :: post)
    (hout : ∀ t ∈ tokens, ¬(t.span.start ≤ n + byteLength pre ∧ n + byteLength pre < t.span.stop)) :
    isBlank c = true := by
  induction h generalizing pre with
  | nil hblanks =>
    subst hcs
    exact hblanks c (by simp)
  | @cons n blanks piece cs t tokens hblanks hspells _ _ hstart hstop _ ih =>
    obtain ⟨ht, htokens⟩ := List.forall_mem_cons.mp hout
    have hpos := byteLength_pos hspells.ne_nil
    rcases List.append_eq_append_iff.mp hcs with ⟨mid, rfl, hmid⟩ | ⟨mid, rfl, hmid⟩
    · rcases List.append_eq_append_iff.mp hmid with ⟨later, rfl, hlater⟩ | ⟨inner, rfl, hinner⟩
      · -- behind the token
        have hposition : t.span.stop + byteLength later =
            n + byteLength (blanks ++ (piece ++ later)) := by
          simp only [byteLength_append]
          omega
        exact ih hlater fun t' ht' => by rw [hposition]; exact htokens t' ht'
      · cases inner with
        | nil =>
          -- right behind it
          have hposition : t.span.stop + byteLength [] = n + byteLength (blanks ++ mid) := by
            simp only [byteLength_append, List.append_nil, byteLength_nil] at hstop ⊢
            omega
          have hlater : cs = [] ++ c :: post := hinner.symm
          exact ih hlater fun t' ht' => by rw [hposition]; exact htokens t' ht'
        | cons c' inner =>
          refine absurd ⟨?_, ?_⟩ ht
          · simp only [byteLength_append]
            omega
          · have hc := Char.utf8Size_pos c'
            simp only [byteLength_append, byteLength_cons] at hstop ⊢
            omega
    · cases mid with
      | nil =>
        refine absurd ⟨?_, ?_⟩ ht
        · simp only [List.append_nil] at hstart
          omega
        · simp only [List.append_nil] at hstop
          omega
      | cons c' mid =>
        obtain ⟨rfl, -⟩ := List.cons.inj hmid
        exact hblanks c (by simp)

end Lexed

/-- Tokens that stand in a text in order, with nothing but blanks between them from the front `done` on,
are laid out there. -/
theorem lexed_of_stands {cs : List Char} {tokens : List Token} :
    ∀ {done rest : List Char}, cs = done ++ rest → (∀ t ∈ tokens, t.Stands cs) →
      (tokens.Pairwise fun t t' => t.span.stop ≤ t'.span.start) →
      (∀ t ∈ tokens, byteLength done ≤ t.span.start) →
      (∀ pre c post, cs = pre ++ c :: post → byteLength done ≤ byteLength pre →
        (∀ t ∈ tokens, ¬(t.span.start ≤ byteLength pre ∧ byteLength pre < t.span.stop)) →
        isBlank c = true) →
      Lexed (byteLength done) rest tokens := by
  induction tokens with
  | nil =>
    intro done rest hcs _ _ _ hblank
    refine .nil fun c hc => ?_
    obtain ⟨a, b, rfl⟩ := List.append_of_mem hc
    refine hblank (done ++ a) c b (by rw [hcs, List.append_assoc]) ?_ (by simp)
    rw [byteLength_append]
    omega
  | cons t tokens ih =>
    intro done rest hcs hstands hordered hstart hblank
    obtain ⟨ht, hstands⟩ := List.forall_mem_cons.mp hstands
    obtain ⟨hfirst, hordered⟩ := List.pairwise_cons.mp hordered
    obtain ⟨⟨pre, post, hsplit, hpre⟩, hstop⟩ := ht.slice
    rw [← byteLength_toList] at hstop
    have hle : byteLength done ≤ byteLength pre := hpre ▸ hstart t List.mem_cons_self
    obtain ⟨blanks, rfl, hrest⟩ : ∃ blanks, pre = done ++ blanks ∧
        rest = blanks ++ (t.display.toList ++ post) := by
      rcases List.append_eq_append_iff.mp (hcs.symm.trans hsplit) with h | ⟨extra, rfl, hextra⟩
      · exact h
      · rw [byteLength_append] at hle
        obtain rfl : extra = [] := byteLength_eq_zero (by omega)
        exact ⟨[], by simp, by simpa using hextra.symm⟩
    have hbehind : t.span.stop = byteLength (done ++ blanks ++ t.display.toList) := by
      rw [byteLength_append, hpre]
      exact hstop
    have hcut : cs = done ++ blanks ++ t.display.toList ++ post := by
      simpa using hsplit
    have hstops : Token.Stops t.display.toList post := by
      have hnext : ∀ d ∈ post.head?, StandsAt cs t.span.stop [d] := by
        intro d hd
        obtain ⟨post', rfl⟩ := List.head?_eq_some_iff.mp hd
        exact ⟨done ++ blanks ++ t.display.toList, post', hcut, hbehind.symm⟩
      refine ⟨fun hword d hd => ?_, fun hsign hd => ?_⟩
      · exact ht.word (isWord_of_not_syntactic ht.kind hword) d (hnext d hd)
      · refine ht.sign ?_ (hnext '=' hd)
        rw [← String.ofList_toList (s := t.display)]
        simp only [List.mem_cons, List.not_mem_nil, or_false] at hsign
        rcases hsign with hsign | hsign | hsign | hsign <;> rw [hsign] <;> decide
    have hblanks : ∀ c ∈ blanks, isBlank c = true := by
      intro c hc
      obtain ⟨a, b, rfl⟩ := List.append_of_mem hc
      have hpos := Char.utf8Size_pos c
      have hproper := ht.proper
      simp only [byteLength_append, byteLength_cons] at hpre
      refine hblank (done ++ a) c (b ++ (t.display.toList ++ post)) (by rw [hsplit]; simp) ?_ ?_
      · rw [byteLength_append]
        omega
      · intro t' ht' hin
        rw [byteLength_append] at hin
        rcases List.mem_cons.mp ht' with rfl | ht'
        · omega
        · have hlater := hfirst t' ht'
          omega
    rw [hrest]
    refine .cons hblanks ht.kind.spells (String.ofList_toList).symm hstops ?_ ?_ ?_
    · rw [← hpre, byteLength_append]
    · rw [hstop, ← hpre, byteLength_append]
    · rw [hbehind]
      rw [hbehind] at hfirst
      refine ih hcut hstands hordered hfirst ?_
      intro pre c post' hpost hlength hout
      have hshort : byteLength done ≤ byteLength (done ++ blanks ++ t.display.toList) := by
        simp only [byteLength_append]
        omega
      refine hblank pre c post' hpost (hshort.trans hlength) fun t' ht' => ?_
      rcases List.mem_cons.mp ht' with rfl | ht'
      · omega
      · exact hout t' ht'

/-- The names among the tokens of a text are identifiers. -/
theorem isIdentifier_of_tokenize {text : String} {tokens : List Token}
    (h : tokenize text = .ok tokens) :
    ∀ t ∈ tokens, t.kind = .identifier → Word.isIdentifier t.lexeme.toList = true := by
  intro t ht hkind
  have hdisplay : t.display = t.lexeme := by simp [Token.display, Token.isString, hkind]
  have hfollows := ((lexed_of_tokenize h).stands t ht).kind
  rwa [hkind, hdisplay] at hfollows

/-- The lexer lays out the tokens that tile a text. -/
theorem lexed_iff_tiles {text : String} {tokens : List Token} :
    Lexed 0 text.toList tokens ↔ Tiles text tokens := by
  constructor
  · intro h
    refine ⟨h.stands, h.ordered, fun pre c post hcs hout => h.blank hcs ?_⟩
    simpa using hout
  · intro h
    have hcs : text.toList = [] ++ text.toList := rfl
    refine lexed_of_stands hcs h.stands h.ordered (fun t _ => Nat.zero_le _) ?_
    exact fun pre c post hpost _ => h.blank pre c post hpost

/-- Tokenizing succeeds just with a tiling of the text, and a text has one tiling at most. -/
theorem tokenize_eq_ok_iff_tiles (text : String) :
    (∀ tokens, tokenize text = .ok tokens ↔ Tiles text tokens) ∧
      ∀ tokens tokens', Tiles text tokens → Tiles text tokens' → tokens = tokens' := by
  have htiles : ∀ tokens, tokenize text = .ok tokens ↔ Tiles text tokens := by
    intro tokens
    exact Lexer.tokens_eq_ok_iff.trans lexed_iff_tiles
  refine ⟨htiles, fun tokens tokens' h h' => ?_⟩
  have heq : (Except.ok tokens : Except Diagnostic (List Token)) = .ok tokens' := by
    rw [← (htiles tokens).mpr h, ← (htiles tokens').mpr h']
  exact Except.ok.inj heq

end Primer
