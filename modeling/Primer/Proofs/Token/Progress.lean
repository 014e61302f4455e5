import Primer.Proofs.Number.Numerals
import Primer.Proofs.Token.Steps

/-!
# Any number of calls

What a lexer does when it is asked for tokens again and again, also behind faults.

* `Lexer.called l n`: the lexer after `n` calls, whatever they returned.
* `Lexer.Stands cs l`: the lexer stands between two characters of the text, with the rest of it to come.
* `Lexer.Next.stands`, `Lexer.Stands.called`: it does so after one call, and after any number of them.
* `Lexer.Next.position_lt_of_token`, `Lexer.Next.position_lt_of_word`: tokens and words are behind it then.
* `Lexer.next_called_of_fixed`: the end of the text and a string that never ends are answered once and for all.
* `Lexer.fault_of_next`, `Lexer.exists_called_of_tokens_error`: what is wrong with a text, and that it is wrong
  with one of the calls.
-/

namespace Primer

open Text

/-- The ends of the span are cuts of the text. -/
structure Span.Cut (cs : List Char) (span : Span) : Prop where
  start : Boundary cs span.start
  stop : Boundary cs span.stop
  le : span.start ≤ span.stop

theorem Text.StandsAt.cut {cs piece : List Char} {span : Span} (h : StandsAt cs span.start piece)
    (hstop : span.stop = span.start + byteLength piece) : span.Cut cs where
  start := h.boundary (Boundary.zero piece)
  stop := by
    rw [hstop]
    exact h.boundary (Boundary.length piece)
  le := by omega

/-- A word that the lexer does not know: no numeral, no keyword and no identifier. -/
structure Word.Unknown (word : List Char) : Prop where
  ne_nil : word ≠ []
  plain : ∀ c ∈ word, isSyntactic c = false
  numeral : ¬Number.IsNumeral word
  keyword : ∀ k : Keyword, word ≠ k.word.toList
  identifier : Word.isIdentifier word = false

namespace Lexer

/-- The lexer after some calls for tokens, whatever they returned. -/
def called (l : Lexer) : Nat → Lexer
  | 0 => l
  | n + 1 => (l.called n).next.2

/-- What the lexer has still to read is what follows its position in the text. -/
def Stands (cs : List Char) (l : Lexer) : Prop :=
  ∃ read, cs = read ++ l.rest ∧ byteLength read = l.position

theorem called_add (l : Lexer) (n k : Nat) : l.called (n + k) = (l.called n).called k := by
  induction k with
  | zero => rfl
  | succ k ih =>
    show (l.called (n + k)).next.2 = _
    rw [ih]
    rfl

/-- A call that changes neither its answer nor the lexer is repeated for ever. -/
theorem next_called_of_fixed {l l' : Lexer} {r : Except Diagnostic (Option Token)} (h : l.next = (r, l'))
    (hfixed : l'.next = (r, l')) (k : Nat) : (l.called k).next.1 = r := by
  have hbehind : ∀ j, l'.called j = l' := by
    intro j
    induction j with
    | zero => rfl
    | succ j ih =>
      show (l'.called j).next.2 = l'
      rw [ih, hfixed]
  cases k with
  | zero =>
    show l.next.1 = r
    rw [h]
  | succ k =>
    have hcalled : l.called (k + 1) = l' := by
      rw [Nat.add_comm, called_add]
      show l.next.2.called k = l'
      rw [h, hbehind]
    rw [hcalled, hfixed]

/-! ### Places -/

namespace Stands

variable {cs : List Char} {l : Lexer}

theorem ofText (text : String) : Stands text.toList (ofText text) := ⟨[], rfl, rfl⟩

theorem boundary (h : l.Stands cs) : Boundary cs l.position := by
  obtain ⟨read, hcs, hread⟩ := h
  exact ⟨read, l.rest, hcs, hread⟩

theorem advance {n : Nat} {piece rest : List Char} (h : Stands cs ⟨n, piece ++ rest⟩) :
    Stands cs ⟨n + byteLength piece, rest⟩ := by
  obtain ⟨read, hcs, hread⟩ := h
  have hread : byteLength read = n := hread
  exact ⟨read ++ piece, by simpa using hcs, by rw [byteLength_append, hread]⟩

theorem standsAt {n : Nat} {piece rest : List Char} (h : Stands cs ⟨n, piece ++ rest⟩) :
    StandsAt cs n piece := by
  obtain ⟨read, hcs, hread⟩ := h
  exact ⟨read, rest, hcs, hread⟩

theorem skipBlanks (h : l.Stands cs) : l.skipBlanks.Stands cs := by
  obtain ⟨n, rest⟩ := l
  refine advance ?_
  rwa [List.takeWhile_append_dropWhile]

/-- Blanks have one byte each, so the lexer also stands between characters while it passes over them. -/
theorem boundary_blank (h : l.Stands cs) {i : Nat} (hi : l.position ≤ i)
    (hblank : i ≤ l.skipBlanks.position) : Boundary cs i := by
  obtain ⟨n, rest⟩ := l
  have hi : n ≤ i := hi
  have hblank : i ≤ n + byteLength (rest.takeWhile isBlank) := hblank
  have hone : ∀ c ∈ rest.takeWhile isBlank, c.utf8Size = 1 :=
    fun c hc => utf8Size_of_isBlank (List.mem_takeWhile_imp hc)
  rw [← List.takeWhile_append_dropWhile (p := isBlank) (l := rest)] at h
  have hlength : i - n ≤ byteLength (rest.takeWhile isBlank) := by omega
  obtain ⟨a, b, hsplit, ha⟩ := exists_append_of_ascii hone hlength
  have hbehind := h.standsAt.boundary ⟨a, b, hsplit, ha⟩
  rwa [show n + (i - n) = i by omega] at hbehind

end Stands

namespace Next

variable {cs : List Char} {l l' : Lexer} {r : Except Diagnostic (Option Token) × Lexer} {t : Token}
  {d : Diagnostic}

theorem stands (h : Next l r) (hl : l.Stands cs) : r.2.Stands cs := by
  cases h with
  | @finished n blanks =>
    rw [← List.append_nil blanks] at hl
    exact hl.advance
  | token _ _ _ _ hstart hstop =>
    rw [hstop, hstart]
    exact hl.advance.advance
  | word _ _ _ _ _ hstart hstop =>
    rw [hstop, hstart]
    exact hl.advance.advance
  | unclosed _ _ hstart =>
    rw [hstart]
    exact hl.advance

theorem position_le (h : Next l r) : l.position ≤ r.2.position := by
  cases h with
  | @finished n blanks =>
    show n ≤ n + byteLength blanks
    omega
  | @token n _ _ _ t _ _ _ _ hstart hstop =>
    show n ≤ t.span.stop
    omega
  | @word n _ _ _ _ span _ _ _ _ _ hstart hstop =>
    show n ≤ span.stop
    omega
  | @unclosed n _ _ span _ _ hstart =>
    show n ≤ span.start
    omega

/-- A token is not empty. -/
theorem position_lt_of_token (h : Next l (.ok (some t), l')) : l.position < l'.position := by
  cases h with
  | @token n blanks _ _ _ _ hspells _ _ hstart hstop =>
    have hpos := byteLength_pos hspells.ne_nil
    show n < t.span.stop
    omega

/-- Nor is a word. -/
theorem position_lt_of_word (h : Next l (.error d, l')) (hd : d.cause ≠ .unclosedString) :
    l.position < l'.position := by
  cases h with
  | @word n blanks _ _ _ span _ hne _ _ _ hstart hstop =>
    have hpos := byteLength_pos hne
    show n < span.stop
    omega
  | unclosed => exact absurd rfl hd

/-- A token stands at its span. -/
theorem standsAt_token (h : Next l (.ok (some t), l')) (hl : l.Stands cs) :
    StandsAt cs t.span.start t.display.toList ∧
      t.span.stop = t.span.start + byteLength t.display.toList := by
  cases h with
  | token _ _ hdisplay _ hstart hstop =>
    rw [hdisplay, String.toList_ofList]
    refine ⟨?_, hstop⟩
    rw [hstart]
    exact hl.advance.standsAt

/-- So does what a fault blames: a word, or a string that never ends. -/
theorem standsAt_fault (h : Next l (.error d, l')) (hl : l.Stands cs) :
    ∃ piece, StandsAt cs d.span.start piece ∧ d.span.stop = d.span.start + byteLength piece ∧
      ((d.cause = .unclosedString ∧ ∃ body, piece = '"' :: body ∧ '"' ∉ body) ∨
        (piece ≠ [] ∧ (∀ c ∈ piece, isSyntactic c = false) ∧ wordKind piece = .error d.cause)) := by
  cases h with
  | @word _ _ word _ _ span _ hne hword _ hcause hstart hstop =>
    have hstands : StandsAt cs span.start word := by
      rw [hstart]
      exact hl.advance.standsAt
    exact ⟨word, hstands, hstop, .inr ⟨hne, hword, hcause⟩⟩
  | @unclosed n blanks body span _ hbody hstart hstop =>
    have hstands : StandsAt cs span.start ('"' :: body) := by
      rw [hstart]
      have hbehind := hl.advance
      rw [← List.append_nil ('"' :: body)] at hbehind
      exact hbehind.standsAt
    exact ⟨'"' :: body, hstands, hstop, .inl ⟨rfl, body, rfl, hbody⟩⟩

end Next

namespace Stands

variable {cs : List Char} {l : Lexer}

theorem next (h : l.Stands cs) : l.next.2.Stands cs := (next_cases l).stands h

theorem called (h : l.Stands cs) (n : Nat) : (l.called n).Stands cs := by
  induction n with
  | zero => exact h
  | succ n ih => exact ih.next

end Stands

theorem position_le_called (l : Lexer) (n : Nat) : l.position ≤ (l.called n).position := by
  induction n with
  | zero => exact Nat.le_refl _
  | succ n ih => exact Nat.le_trans ih (next_cases _).position_le

/-! ### Answers that stay -/

/-- Behind the end of a text there is nothing more. -/
theorem next_of_finished {l l' : Lexer} (h : l.next = (.ok none, l')) : l'.next = (.ok none, l') := by
  have hnext := next_cases l
  rw [h] at hnext
  cases hnext with
  | finished => rfl

/-- The lexer stays in front of a string that never ends. -/
theorem next_of_unclosed {l l' : Lexer} {d : Diagnostic} (h : l.next = (.error d, l'))
    (hd : d.cause = .unclosedString) : l'.next = (.error d, l') := by
  have hnext := next_cases l
  rw [h] at hnext
  cases hnext with
  | word _ _ _ _ hcause => exact absurd hd (ne_unclosedString_of_wordKind hcause)
  | @unclosed n blanks body span hblanks hbody hstart hstop =>
    have hnone : body.dropWhile (· ≠ '"') = [] := by
      refine List.dropWhile_eq_nil_iff.mpr fun c hc => ?_
      have hne : c ≠ '"' := fun heq => hbody (heq ▸ hc)
      simpa using hne
    have hskip : Lexer.skipBlanks ⟨span.start, '"' :: body⟩ = ⟨span.start, '"' :: body⟩ := rfl
    have hspan : spanOf ⟨span.start, '"' :: body⟩ ('"' :: body) = span := by
      rw [spanOf, ← hstop]
    rw [Lexer.next, hskip, front]
    simp only [quoted, hnone, hspan]

/-! ### Faults -/

/-- No word that passes for a number fails to be one. -/
theorem unknown_of_wordKind {word : List Char} {cause : Cause} (hne : word ≠ [])
    (hword : ∀ c ∈ word, isSyntactic c = false) (h : wordKind word = .error cause) :
    cause = .unrecognized (String.ofList word) ∧ Word.Unknown word := by
  unfold wordKind at h
  by_cases hnumber : Word.isNumber word = true
  · obtain ⟨x, hx⟩ := Number.exists_read?_of_isNumber hnumber
    rw [if_pos hnumber, hx] at h
    cases h
  · rw [if_neg hnumber] at h
    cases hkeyword : Keyword.ofWord? word with
    | some k =>
      rw [hkeyword] at h
      cases h
    | none =>
      rw [hkeyword] at h
      by_cases hidentifier : Word.isIdentifier word = true
      · simp only [if_pos hidentifier] at h
        cases h
      · simp only [if_neg hidentifier] at h
        cases h
        refine ⟨rfl, hne, hword, fun hnumeral => hnumber ((Number.isNumber_iff word).mpr hnumeral), ?_,
          by simpa using hidentifier⟩
        rintro k rfl
        cases k <;> cases hkeyword

/-- What a call fails on stands where the fault says: a string that never ends, or a word that is none. -/
theorem fault_of_next {cs : List Char} {l : Lexer} {d : Diagnostic} (hl : l.Stands cs)
    (h : l.next.1 = .error d) :
    ∃ piece, StandsAt cs d.span.start piece ∧ d.span.stop = d.span.start + byteLength piece ∧
      ((d.cause = .unclosedString ∧ ∃ body, piece = '"' :: body ∧ '"' ∉ body) ∨
        (d.cause = .unrecognized (String.ofList piece) ∧ Word.Unknown piece)) := by
  have hnext := next_cases l
  rw [show l.next = (.error d, l.next.2) from Prod.ext h rfl] at hnext
  obtain ⟨piece, hstands, hstop, hcause⟩ := hnext.standsAt_fault hl
  refine ⟨piece, hstands, hstop, hcause.imp_right ?_⟩
  rintro ⟨hne, hword, hkind⟩
  exact unknown_of_wordKind hne hword hkind

/-- What is wrong with a text is wrong with one of the calls. -/
theorem exists_called_of_tokens_error {l : Lexer} {d : Diagnostic} (h : l.tokens = .error d) :
    ∃ n, (l.called n).next.1 = .error d := by
  rw [tokens_eq] at h
  split at h
  · rename_i hnext
    cases h
    exact ⟨0, congrArg Prod.fst hnext⟩
  · cases h
  · rename_i t l' hnext
    have hlt : l'.rest.length < l.rest.length := length_lt_of_next hnext
    cases htokens : l'.tokens with
    | ok later =>
      rw [htokens] at h
      cases h
    | error d' =>
      rw [htokens] at h
      cases h
      obtain ⟨n, hn⟩ := exists_called_of_tokens_error htokens
      refine ⟨n + 1, ?_⟩
      rw [Nat.add_comm, called_add]
      show (l.next.2.called n).next.1 = _
      rwa [hnext]
termination_by l.rest.length

/-! ### Any use -/

/-- Behind an opening quote the text can be cut. -/
theorem Stands.boundary_quote {cs : List Char} {l : Lexer} (h : l.Stands cs) {body : List Char}
    (hbody : l.skipBlanks.rest = '"' :: body) : Boundary cs (l.skipBlanks.position + 1) := by
  have hquote : Stands cs ⟨l.skipBlanks.position, ['"'] ++ body⟩ := by
    have hskip := h.skipBlanks
    generalize l.skipBlanks = l' at hskip hbody
    obtain ⟨n, rest⟩ := l'
    have hbody : rest = '"' :: body := hbody
    rwa [hbody] at hskip
  exact hquote.advance.boundary

/-- **The lexer is safe and makes progress under any use.**  After any number of calls, whatever they returned, it
stands between two characters of the text, also while it passes over blanks; behind a quote and around each token
and each fault the text is cut between characters as well.  It never moves back, and it moves on at each token and
at each word that it does not know.  The end of the text is found once and for all, and so is a string that never
ends, with the same span. -/
theorem called_progress (text : String) (n : Nat) :
    let l := (ofText text).called n
    l.Stands text.toList ∧
    (∀ i, l.position ≤ i → i ≤ l.skipBlanks.position → Boundary text.toList i ∧ i ≤ text.utf8ByteSize) ∧
    (∀ body, l.skipBlanks.rest = '"' :: body → Boundary text.toList (l.skipBlanks.position + 1)) ∧
    (∀ k, l.position ≤ ((ofText text).called (n + k)).position) ∧
    (∀ t, l.next.1 = .ok (some t) → l.position < l.next.2.position ∧ t.span.Cut text.toList ∧
      StandsAt text.toList t.span.start t.display.toList) ∧
    (l.next.1 = .ok none → ∀ k, ((ofText text).called (n + k)).next.1 = .ok none) ∧
    (∀ d, l.next.1 = .error d → d.span.Cut text.toList ∧
      ((d.cause = .unclosedString ∧ ∀ k, ((ofText text).called (n + k)).next.1 = .error d) ∨
        ∃ word, d.cause = .unrecognized word ∧ l.position < l.next.2.position)) := by
  intro l
  have hl : l.Stands text.toList := (Stands.ofText text).called n
  have hadd : ∀ k, (ofText text).called (n + k) = l.called k := called_add (ofText text) n
  have hnext : ∀ {r}, l.next.1 = r → l.next = (r, l.next.2) := fun h => Prod.ext h rfl
  refine ⟨hl, fun i hi hblank => ?_, fun body hbody => hl.boundary_quote hbody, fun k => ?_, fun t ht => ?_,
    fun hnone k => ?_, fun d hd => ?_⟩
  · have hcut := hl.boundary_blank hi hblank
    have hle := hcut.le
    rw [byteLength_toList] at hle
    exact ⟨hcut, hle⟩
  · rw [hadd]
    exact position_le_called l k
  · have hcases := next_cases l
    rw [hnext ht] at hcases
    obtain ⟨hstands, hstop⟩ := hcases.standsAt_token hl
    exact ⟨hcases.position_lt_of_token, hstands.cut hstop, hstands⟩
  · rw [hadd]
    exact next_called_of_fixed (hnext hnone) (next_of_finished (hnext hnone)) k
  · obtain ⟨piece, hstands, hstop, hcause⟩ := fault_of_next hl hd
    refine ⟨hstands.cut hstop, ?_⟩
    rcases hcause with ⟨hcause, -⟩ | ⟨hcause, -⟩
    · refine .inl ⟨hcause, fun k => ?_⟩
      rw [hadd]
      exact next_called_of_fixed (hnext hd) (next_of_unclosed (hnext hd) hcause) k
    · have hcases := next_cases l
      rw [hnext hd] at hcases
      refine .inr ⟨_, hcause, hcases.position_lt_of_word ?_⟩
      rw [hcause]
      intro heq
      cases heq

/-- A word that the lexer does not know is behind it, a string of a character of two bytes is cut out of the text,
and one that never ends is blamed for ever. -/
theorem called_progress_open :
    let l := ofText "é \"ü\"\t\"ß"
    l.position < (l.called 1).position ∧
    Boundary "é \"ü\"\t\"ß".toList (l.called 1).position ∧
    (l.called 1).position < (l.called 2).position ∧
    StandsAt "é \"ü\"\t\"ß".toList 3 "\"ü\"".toList ∧
    (∀ k, (l.called (2 + k)).next.1 = .error ⟨.unclosedString, ⟨8, 11⟩, none⟩) ∧
    ∀ k, ((ofText "é ").called (1 + k)).next.1 = .ok none := by
  intro l
  have hword : (l.called 0).next.1 = .error ⟨.unrecognized "é", ⟨0, 2⟩, none⟩ := by decide +kernel
  have hstring : (l.called 1).next.1 = .ok (some ⟨.string, "ü", ⟨3, 7⟩⟩) := by decide +kernel
  have hopen : (l.called 2).next.1 = .error ⟨.unclosedString, ⟨8, 11⟩, none⟩ := by decide +kernel
  have hend : ((ofText "é ").called 1).next.1 = .ok none := by decide +kernel
  obtain ⟨-, -, -, -, -, -, hfaults⟩ := called_progress "é \"ü\"\t\"ß" 0
  obtain ⟨-, hplaces, -, -, htokens, -⟩ := called_progress "é \"ü\"\t\"ß" 1
  obtain ⟨-, -, -, -, -, -, hforever⟩ := called_progress "é \"ü\"\t\"ß" 2
  obtain ⟨-, -, -, -, -, hnone, -⟩ := called_progress "é " 1
  obtain ⟨hmoves, -, hstands⟩ := htokens _ hstring
  refine ⟨?_, (hplaces _ (Nat.le_refl _) (Nat.le_add_right _ _)).1, hmoves, hstands, ?_, hnone hend⟩
  · rcases (hfaults _ hword).2 with ⟨hcause, -⟩ | ⟨_, -, hlt⟩
    · cases hcause
    · exact hlt
  · rcases (hforever _ hopen).2 with ⟨-, hall⟩ | ⟨_, hcause, -⟩
    · exact hall
    · cases hcause

end Lexer

end Primer
