import Primer.Proofs.Token.Steps

/-!
# Quoted strings of a line

Which parts of a text are strings, for every text: the lexer finds them from the left, whatever else it finds
or fails to know, and so does a count of quotes.

* `Lexer.strings`: the strings that the lexer meets, going on behind each word that it does not know.
* `Quotes n cs spans`: each opening quote runs to the next quote, and one that none follows to the end.
* `Lexer.quotes_strings`, `Lexed.quotes`: these are the strings that the lexer meets, and the string tokens of a
  text that it reads.
* `Quotes.covers_iff`: what holds no quote is in one of them just if an odd number of quotes stands before it.
-/

namespace Primer

open Text

/-- The spans of the strings that the lexer meets from here on.  A string that never ends is the last one. -/
def Lexer.strings (l : Lexer) : List Span :=
  match _h : l.next with
  | (.ok none, _) => []
  | (.ok (some t), l') => if t.isString then t.span :: l'.strings else l'.strings
  | (.error d, l') => if _hd : d.cause = .unclosedString then [d.span] else l'.strings
termination_by l.rest.length
decreasing_by
  · exact length_lt_of_next _h
  · exact length_lt_of_next _h
  · exact length_lt_of_unread _h _hd

theorem Lexer.strings_eq (l : Lexer) : l.strings = match l.next with
    | (.ok none, _) => []
    | (.ok (some t), l') => if t.isString then t.span :: l'.strings else l'.strings
    | (.error d, l') => if d.cause = .unclosedString then [d.span] else l'.strings := by
  rw [Lexer.strings]
  split <;> rename_i h <;> rw [h]
  split <;> rename_i hd <;> simp [hd]

/-- The quoted strings of a text whose first byte has position `n`: each opening quote runs to the next quote, and
one that none follows to the end. -/
inductive Quotes : Nat → List Char → List Span → Prop
  | none {n : Nat} {cs : List Char} (h : '"' ∉ cs) : Quotes n cs []
  | closed {n : Nat} {front body cs : List Char} {span : Span} {spans : List Span} (hfront : '"' ∉ front)
    (hbody : '"' ∉ body) (hstart : span.start = n + byteLength front)
    (hstop : span.stop = span.start + byteLength ('"' :: body ++ ['"'])) (hcs : Quotes span.stop cs spans) :
    Quotes n (front ++ '"' :: (body ++ '"' :: cs)) (span :: spans)
  | unclosed {n : Nat} {front body : List Char} {span : Span} (hfront : '"' ∉ front) (hbody : '"' ∉ body)
    (hstart : span.start = n + byteLength front)
    (hstop : span.stop = span.start + byteLength ('"' :: body)) : Quotes n (front ++ '"' :: body) [span]

/-! ### What the lexer meets -/

theorem quote_not_mem_of_isBlank {blanks : List Char} (h : ∀ c ∈ blanks, isBlank c = true) : '"' ∉ blanks :=
  fun hmem => absurd (h _ hmem) (by decide)

theorem quote_not_mem_of_word {word : List Char} (h : ∀ c ∈ word, isSyntactic c = false) : '"' ∉ word :=
  fun hmem => absurd (h _ hmem) (by decide)

/-- No token but a string holds a quote. -/
theorem Token.Spells.quote_not_mem {kind : Token.Kind} {piece : List Char} (h : Spells kind piece)
    (hkind : kind ≠ .string) : '"' ∉ piece := by
  cases h with
  | pair hpair =>
    obtain ⟨c, rfl, hc⟩ := mem_operatorPairs_iff.mp hpair
    intro hmem
    simp only [List.mem_cons, List.not_mem_nil, or_false] at hmem
    rcases hmem with rfl | hmem
    · simp at hc
    · cases hmem
  | sign h =>
    intro hmem
    cases List.mem_singleton.mp hmem
    cases h
  | string => exact absurd rfl hkind
  | word _ hword _ => exact quote_not_mem_of_word hword

namespace Quotes

variable {n : Nat} {cs : List Char} {spans : List Span}

/-- What holds no quote is passed over. -/
theorem skip {m : Nat} {front : List Char} (hfront : '"' ∉ front) (hm : m = n + byteLength front)
    (h : Quotes m cs spans) : Quotes n (front ++ cs) spans := by
  cases h with
  | none hcs => exact .none (by simp [hfront, hcs])
  | closed hmore hbody hstart hstop hcs =>
    rw [← List.append_assoc]
    refine .closed (by simp [hfront, hmore]) hbody ?_ hstop hcs
    rw [hstart, hm, byteLength_append, Nat.add_assoc]
  | unclosed hmore hbody hstart hstop =>
    rw [← List.append_assoc]
    refine .unclosed (by simp [hfront, hmore]) hbody ?_ hstop
    rw [hstart, hm, byteLength_append, Nat.add_assoc]

/-- A token behind blanks is one of the strings, or holds no quote. -/
theorem token {blanks piece : List Char} {t : Token} (hblanks : ∀ c ∈ blanks, isBlank c = true)
    (hspells : Token.Spells t.kind piece) (hstart : t.span.start = n + byteLength blanks)
    (hstop : t.span.stop = t.span.start + byteLength piece) (h : Quotes t.span.stop cs spans) :
    Quotes n (blanks ++ (piece ++ cs)) (if t.isString then t.span :: spans else spans) := by
  have hblanks := quote_not_mem_of_isBlank hblanks
  by_cases hkind : t.kind = .string
  · have hfollows := hspells.followsFrom
    rw [hkind] at hfollows
    obtain ⟨body, rfl, hbody⟩ := hfollows
    have hstring : t.isString = true := by simp [Token.isString, hkind]
    rw [if_pos hstring]
    simpa using closed hblanks hbody hstart hstop h
  · have hstring : ¬t.isString = true := by simp [Token.isString, hkind]
    have hpiece := hspells.quote_not_mem hkind
    rw [if_neg hstring, ← List.append_assoc]
    refine skip (by simp [hblanks, hpiece]) ?_ h
    rw [hstop, hstart, byteLength_append, Nat.add_assoc]

theorem le_start (h : Quotes n cs spans) : ∀ span ∈ spans, n ≤ span.start := by
  induction h with
  | none => simp
  | @closed n _ _ _ span _ _ _ hstart hstop _ ih =>
    have hfirst : n ≤ span.start := by omega
    refine List.forall_mem_cons.mpr ⟨hfirst, fun s hs => ?_⟩
    have hle := ih s hs
    omega
  | @unclosed n _ _ span _ _ hstart _ =>
    have hfirst : n ≤ span.start := by omega
    exact List.forall_mem_singleton.mpr hfirst

end Quotes

namespace Lexer

/-- The strings that the lexer meets are those between quotes. -/
theorem quotes_strings (l : Lexer) : Quotes l.position l.rest l.strings := by
  rw [strings_eq]
  have hnext := next_cases l
  generalize l.next = r at hnext
  cases hnext with
  | finished hblanks => exact .none (quote_not_mem_of_isBlank hblanks)
  | @token _ blanks piece rest t hblanks hspells _ _ hstart hstop =>
    have hpos := List.length_pos_iff.mpr hspells.ne_nil
    exact .token hblanks hspells hstart hstop (quotes_strings ⟨t.span.stop, rest⟩)
  | @word _ blanks word rest cause span hblanks hne hword _ hcause hstart hstop =>
    have hpos := List.length_pos_iff.mpr hne
    have hblanks := quote_not_mem_of_isBlank hblanks
    have hword := quote_not_mem_of_word hword
    simp only [ne_unclosedString_of_wordKind hcause, if_false]
    rw [← List.append_assoc]
    refine .skip (by simp [hblanks, hword]) ?_ (quotes_strings ⟨span.stop, rest⟩)
    rw [hstop, hstart, byteLength_append, Nat.add_assoc]
  | unclosed hblanks hbody hstart hstop =>
    simp only [if_true]
    exact .unclosed (quote_not_mem_of_isBlank hblanks) hbody hstart hstop
termination_by l.rest.length
decreasing_by
  all_goals
    simp only [List.length_append]
    omega

end Lexer

/-- The strings of a text that is read are its string tokens. -/
theorem Lexed.quotes {n : Nat} {cs : List Char} {tokens : List Token} (h : Lexed n cs tokens) :
    Quotes n cs ((tokens.filter Token.isString).map Token.span) := by
  induction h with
  | nil hblanks => exact .none (quote_not_mem_of_isBlank hblanks)
  | @cons _ _ _ _ t _ hblanks hspells _ _ hstart hstop _ ih =>
    have hfirst := Quotes.token hblanks hspells hstart (by omega) ih
    rw [List.filter_cons]
    split at hfirst <;> rename_i hstring
    · simpa [hstring] using hfirst
    · simpa [hstring] using hfirst

/-! ### Counting quotes -/

/-- One of the spans holds the bytes from `start` up to and not including `stop`. -/
def Covers (spans : List Span) (start stop : Nat) : Prop :=
  ∃ span ∈ spans, span.start ≤ start ∧ stop ≤ span.stop

/-- In front of a quote, or behind it: so a text is cut in front of anything else. -/
theorem append_eq_append_quote {pre tail front rest : List Char} (h : pre ++ tail = front ++ '"' :: rest)
    (htail : ∀ c ∈ tail.head?, c ≠ '"') :
    (∃ mid, mid ≠ [] ∧ front = pre ++ mid ∧ tail = mid ++ '"' :: rest) ∨
      ∃ mid, pre = front ++ '"' :: mid ∧ rest = mid ++ tail := by
  rcases List.append_eq_append_iff.mp h with ⟨mid, rfl, hmid⟩ | ⟨mid, rfl, hmid⟩
  · refine .inl ⟨mid, ?_, rfl, hmid⟩
    rintro rfl
    exact htail '"' (by rw [hmid]; rfl) rfl
  · cases mid with
    | nil => exact absurd rfl (htail '"' (by rw [← List.nil_append tail, ← hmid]; rfl))
    | cons c mid =>
      obtain ⟨rfl, hrest⟩ := List.cons.inj hmid
      exact .inr ⟨mid, rfl, hrest⟩

/-- What holds no quote ends in front of the next one. -/
theorem byteLength_le_of_quote {piece post mid rest : List Char}
    (h : piece ++ post = mid ++ '"' :: rest) (hpiece : '"' ∉ piece) : byteLength piece ≤ byteLength mid := by
  rcases List.append_eq_append_iff.mp h with ⟨more, rfl, -⟩ | ⟨more, rfl, hmore⟩
  · rw [byteLength_append]
    omega
  · cases more with
    | nil => rw [List.append_nil]
    | cons c more =>
      obtain ⟨rfl, -⟩ := List.cons.inj hmore
      simp at hpiece

theorem count_of_quote_not_mem {pre mid : List Char} (h : '"' ∉ pre ++ mid) : pre.count '"' = 0 :=
  List.count_eq_zero.mpr fun hmem => h (List.mem_append_left _ hmem)

theorem count_append_quote {front mid : List Char} (h : '"' ∉ front) :
    (front ++ '"' :: mid).count '"' = mid.count '"' + 1 := by
  rw [List.count_append, List.count_eq_zero.mpr h, List.count_cons_self, Nat.zero_add]

/-- In front of the first quote there is no string. -/
theorem not_covers_front {n stop : Nat} {pre mid : List Char} {spans : List Span} (hne : mid ≠ [])
    (hspans : ∀ span ∈ spans, n + byteLength (pre ++ mid) ≤ span.start) :
    ¬Covers spans (n + byteLength pre) stop := by
  rintro ⟨span, hspan, hle, -⟩
  have hpos := byteLength_pos hne
  have hstart := hspans span hspan
  rw [byteLength_append] at hstart
  omega

theorem covers_cons_iff {span : Span} {start stop : Nat} (h : span.stop < stop) (spans : List Span) :
    Covers (span :: spans) start stop ↔ Covers spans start stop := by
  simp [Covers, Nat.not_le.mpr h]

/-- What holds no quote is in one of the strings, and all of it, just if an odd number of quotes stands before
it. -/
theorem Quotes.covers_iff {n : Nat} {cs : List Char} {spans : List Span} (h : Quotes n cs spans)
    {pre piece post : List Char} (hcs : cs = pre ++ (piece ++ post)) (hne : piece ≠ [])
    (hpiece : '"' ∉ piece) :
    Covers spans (n + byteLength pre) (n + byteLength pre + byteLength piece) ↔
      pre.count '"' % 2 = 1 := by
  have hpos := byteLength_pos hne
  have hquote : '"'.utf8Size = 1 := rfl
  have hhead : ∀ c ∈ (piece ++ post).head?, c ≠ '"' := by
    obtain ⟨c, piece, rfl⟩ := List.exists_cons_of_ne_nil hne
    intro d hd
    cases hd
    exact fun hc => hpiece (hc ▸ List.mem_cons_self)
  induction h generalizing pre with
  | none hnone =>
    rw [hcs] at hnone
    simp [Covers, count_of_quote_not_mem hnone]
  | @closed n front body cs span spans hfront hbody hstart hstop hquotes ih =>
    rcases append_eq_append_quote hcs.symm hhead with ⟨mid, hmid, rfl, -⟩ | ⟨mid, rfl, hbehind⟩
    · have hspans : ∀ s ∈ span :: spans, n + byteLength (pre ++ mid) ≤ s.start := by
        refine List.forall_mem_cons.mpr ⟨Nat.le_of_eq hstart.symm, fun s hs => ?_⟩
        have hle := hquotes.le_start s hs
        omega
      simp [not_covers_front hmid hspans, count_of_quote_not_mem hfront]
    simp only [byteLength_append, byteLength_cons, byteLength_nil, hquote] at hstop
    rw [count_append_quote hfront]
    rcases append_eq_append_quote hbehind.symm hhead with ⟨inner, -, rfl, hinner⟩ | ⟨later, rfl, hlater⟩
    · -- in the first string
      have hle := byteLength_le_of_quote hinner hpiece
      rw [count_of_quote_not_mem hbody]
      refine ⟨fun _ => rfl, fun _ => ⟨span, List.mem_cons_self, ?_, ?_⟩⟩
      all_goals
        simp only [byteLength_append, byteLength_cons, hquote] at hstop ⊢
        omega
    · -- behind the first string, whose two quotes stand before the place
      have hplace : n + byteLength (front ++ '"' :: (body ++ '"' :: later)) =
          span.stop + byteLength later := by
        simp only [byteLength_append, byteLength_cons, hquote]
        omega
      have heven : (later.count '"' + 1 + 1) % 2 = later.count '"' % 2 := by omega
      rw [count_append_quote hbody, hplace, heven, covers_cons_iff (by omega)]
      exact ih hlater
  | @unclosed n front body span hfront hbody hstart hstop =>
    rcases append_eq_append_quote hcs.symm hhead with ⟨mid, hmid, rfl, -⟩ | ⟨mid, rfl, rfl⟩
    · have hspans : ∀ s ∈ [span], n + byteLength (pre ++ mid) ≤ s.start :=
        List.forall_mem_singleton.mpr (Nat.le_of_eq hstart.symm)
      simp [not_covers_front hmid hspans, count_of_quote_not_mem hfront]
    · rw [count_append_quote hfront, count_of_quote_not_mem hbody]
      refine ⟨fun _ => rfl, fun _ => ⟨span, List.mem_cons_self, ?_, ?_⟩⟩
      all_goals
        simp only [byteLength_append, byteLength_cons, hquote] at hstop ⊢
        omega

end Primer
