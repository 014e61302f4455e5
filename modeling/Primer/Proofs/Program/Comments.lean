import Mathlib.Data.List.Pairwise
import Primer.Proofs.Program.Codes
import Primer.Proofs.Program.Offsets
import Primer.Proofs.Token.Quotes

/-!
# Comments and strings

The loader looks for comments by a count of quotes, before it knows of labels, blanks and tokens.  It means the
same by a string as the lexer does.

* `CommentAt line k`: two slashes stand behind `k` characters of the line, in none of the strings that the lexer
  meets from the left.
* `opens_iff_commentAt`: the loader takes these places, and no others, for comments.
* `Yields.count_of_slashes`: what is left of slashes in the text of a statement stands behind an odd number of
  quotes.
* `comments_outside_strings`: a line is cut at its first comment, so two slashes of a statement stand in a string.
-/

namespace Primer

open Text

namespace Source

/-! ### Where a comment starts -/

/-- Two slashes stand behind `k` characters of the line, and the first of them in none of the strings that the
lexer meets there. -/
def CommentAt (line : List Char) (k : Nat) : Prop :=
  ['/', '/'] <+: line.drop k ∧
    ¬Covers (Lexer.strings ⟨0, line⟩) (byteLength (line.take k)) (byteLength (line.take k) + 1)

/-- Slashes behind an even number of quotes are slashes outside of strings. -/
theorem opens_iff_commentAt {line : List Char} {k : Nat} : Opens 0 line k ↔ CommentAt line k := by
  refine and_congr_right fun hslashes => ?_
  obtain ⟨rest, hrest⟩ := hslashes
  have hline : line = line.take k ++ (['/'] ++ '/' :: rest) :=
    (List.take_append_drop k line).symm.trans (congrArg _ hrest.symm)
  have hcovers := (Lexer.quotes_strings ⟨0, line⟩).covers_iff hline (by simp) (by decide)
  have hslash : byteLength ['/'] = 1 := rfl
  simp only [Nat.zero_add, hslash] at hcovers
  rw [hcovers]
  omega

/-- A line is cut at its first comment. -/
theorem cutComment_commentAt (line : List Char) :
    (∃ k, CommentAt line k ∧ (∀ j < k, ¬CommentAt line j) ∧ cutComment 0 line = line.take k) ∨
      (∀ k, ¬CommentAt line k) ∧ cutComment 0 line = line := by
  simp only [← opens_iff_commentAt]
  exact cutComment_cases 0 line

/-- No comment is left. -/
theorem not_opens_cutComment (line : List Char) (k : Nat) : ¬Opens 0 (cutComment 0 line) k := by
  rcases cutComment_cases 0 line with ⟨cut, -, hfirst, hcut⟩ | ⟨hnone, hcut⟩
  · rw [hcut]
    intro h
    have hlt := h.lt_length
    rw [List.length_take] at hlt
    have hk : k < cut := by omega
    obtain ⟨hslashes, hquotes⟩ := h
    rw [List.drop_take] at hslashes
    rw [List.take_take, Nat.min_eq_left hk.le] at hquotes
    exact hfirst k hk ⟨hslashes.trans (List.take_prefix _ _), hquotes⟩
  · rw [hcut]
    exact hnone k

/-! ### What stands before a statement -/

theorem quote_not_mem_lead (cs : List Char) : '"' ∉ lead cs := fun hmem =>
  (not_syntax_of_isTrimmed (List.mem_takeWhile_imp hmem)).2 rfl

/-- A label holds no quote. -/
theorem quote_not_mem_label {front : List Char} (h : Word.isIdentifier (trimBlanks front) = true) :
    '"' ∉ front := by
  have hleft : '"' ∉ trimBlanks front := quote_not_mem_of_word (word_of_isIdentifier h).2.1
  have hnone : ∀ c ∈ front, c ≠ '"' :=
    forall_mem_of_trimBlanks (fun _ hc => (not_syntax_of_isTrimmed hc).2) fun c hc hquote => hleft (hquote ▸ hc)
  exact fun hmem => hnone _ hmem rfl

variable {before : List (List Char)} {line : List Char} {l : CodeLine} {s : Statement}

/-- Between the start of a line and its statement there is no quote. -/
theorem Yields.exists_front (hs : Yields l s) (h : l.Of before line) :
    ∃ front tail, content line = front ++ (s.text.toList ++ tail) ∧ '"' ∉ front := by
  obtain ⟨parts, hparts, -, rfl⟩ := hs
  simp only [String.toList_ofList]
  rcases splitLabel_eq_ok hparts with ⟨rfl, -⟩ | ⟨front, behind, hcode, hlabel, -, rfl⟩
  · obtain ⟨tail, hcontent, -⟩ := trimBlanks_append (content line)
    exact ⟨lead (content line), tail, by rw [h.code, ← hcontent], quote_not_mem_lead _⟩
  · obtain ⟨tail, hcontent⟩ := h.content_eq hcode
    refine ⟨_, tail, hcontent, ?_⟩
    simp [quote_not_mem_lead, quote_not_mem_label hlabel]

/-- Two slashes of a statement have an odd number of quotes before them in its text, as they have in their line. -/
theorem Yields.count_of_slashes (hs : Yields l s) (h : l.Of before line) {pre post : List Char}
    (htext : s.text.toList = pre ++ (['/', '/'] ++ post)) : pre.count '"' % 2 = 1 := by
  obtain ⟨front, tail, hcontent, hfront⟩ := hs.exists_front h
  have hplace : content line = (front ++ pre) ++ (['/', '/'] ++ (post ++ tail)) := by
    rw [hcontent, htext]
    simp
  have hcount : (front ++ pre).count '"' = pre.count '"' := by
    rw [List.count_append, List.count_eq_zero.mpr hfront, Nat.zero_add]
  have hnot : ¬Opens 0 (content line) (front ++ pre).length := not_opens_cutComment _ _
  rw [hplace, Opens, List.drop_left, List.take_left, hcount] at hnot
  by_contra heven
  exact hnot ⟨⟨post ++ tail, rfl⟩, by omega⟩

end Source

open Source

/-! ### Slashes and tokens -/

/-- One of the tokens ends before the other begins. -/
def Token.Apart (t t' : Token) : Prop := t.span.stop ≤ t'.span.start ∨ t'.span.stop ≤ t.span.start

instance : Std.Symm Token.Apart := ⟨fun _ _ => Or.symm⟩

theorem Lexed.apart {n : Nat} {cs : List Char} {tokens : List Token} (h : Lexed n cs tokens) :
    ∀ ⦃t⦄, t ∈ tokens → ∀ ⦃t'⦄, t' ∈ tokens → t ≠ t' → t.Apart t' :=
  List.Pairwise.forall (h.ordered.imp Or.inl)

/-- Slashes that touch are two slashes in a row. -/
theorem standsAt_slashes {cs : List Char} {tokens : List Token} (h : Lexed 0 cs tokens) {t t' : Token}
    (ht : t ∈ tokens) (ht' : t' ∈ tokens) (hkind : t.kind = .operator .slash)
    (hkind' : t'.kind = .operator .slash) (htouch : t.span.stop = t'.span.start) :
    StandsAt cs t.span.start ['/', '/'] ∧ t.span.stop = t.span.start + 1 := by
  have hslash : ∀ t ∈ tokens, t.kind = .operator .slash →
      StandsAt cs t.span.start ['/'] ∧ t.span.stop = t.span.start + byteLength ['/'] := by
    intro t ht hkind
    have hstands := h.stands t ht
    have hdisplay : t.display.toList = ['/'] := by
      have hfollows := hstands.kind
      rwa [hkind] at hfollows
    have hslice := hstands.slice
    rwa [← byteLength_toList, hdisplay] at hslice
  obtain ⟨hfirst, hstop⟩ := hslash t ht hkind
  obtain ⟨hsecond, -⟩ := hslash t' ht' hkind'
  rw [← htouch, hstop] at hsecond
  exact ⟨hfirst.append hsecond, hstop⟩

namespace Program

/-- Two slashes in the text of a statement stand in a string. -/
theorem string_of_slashes {source : String} {p : Program} (h : load source = .ok p) {s : Statement}
    (hs : s ∈ p.statements) {tokens : List Token} (htokens : tokenize s.text = .ok tokens) {k : Nat}
    (hk : StandsAt s.text.toList k ['/', '/']) :
    ∃ t ∈ tokens, t.kind = .string ∧ t.span.start ≤ k ∧ k + 2 ≤ t.span.stop := by
  obtain ⟨i, hi⟩ := Array.getElem?_of_mem hs
  obtain ⟨l, before, line, after, -, hyields, -, hof⟩ := exists_line_of_statement h hi
  obtain ⟨pre, post, htext, rfl⟩ := hk
  have hquotes := (lexed_of_tokenize htokens).quotes
  have hcovers := (hquotes.covers_iff htext (by simp) (by decide)).mpr (hyields.count_of_slashes hof htext)
  obtain ⟨span, hspan, hstart, hstop⟩ := hcovers
  obtain ⟨t, ht, rfl⟩ := List.mem_map.mp hspan
  obtain ⟨ht, hstring⟩ := List.mem_filter.mp ht
  have hslashes : byteLength ['/', '/'] = 2 := rfl
  rw [hslashes] at hstop
  exact ⟨t, ht, by simpa [Token.isString] using hstring, by omega, by omega⟩

/-- **Comments are what the lexer finds outside of strings.**  The strings that the lexer meets in a line run from
each opening quote to the next quote or to the end, and the line is cut at the first two slashes that stand in none
of them.  So in the text of a statement that is read two slashes stand in a string, and no slash touches another. -/
theorem comments_outside_strings :
    (∀ line, Quotes 0 line (Lexer.strings ⟨0, line⟩) ∧
      ((∃ k, CommentAt line k ∧ (∀ j < k, ¬CommentAt line j) ∧ cutComment 0 line = line.take k) ∨
        (∀ k, ¬CommentAt line k) ∧ cutComment 0 line = line)) ∧
    ∀ source p, load source = .ok p → ∀ s ∈ p.statements, ∀ tokens, tokenize s.text = .ok tokens →
      (∀ k, StandsAt s.text.toList k ['/', '/'] →
        ∃ t ∈ tokens, t.kind = .string ∧ t.span.start ≤ k ∧ k + 2 ≤ t.span.stop) ∧
      ∀ t ∈ tokens, ∀ t' ∈ tokens, t.kind = .operator .slash → t'.kind = .operator .slash →
        t.span.stop ≠ t'.span.start := by
  refine ⟨fun line => ⟨Lexer.quotes_strings ⟨0, line⟩, cutComment_commentAt line⟩, ?_⟩
  intro source p h s hs tokens htokens
  refine ⟨fun k hk => string_of_slashes h hs htokens hk, ?_⟩
  intro t ht t' ht' hkind hkind' htouch
  have hlexed := lexed_of_tokenize htokens
  obtain ⟨hslashes, hstop⟩ := standsAt_slashes hlexed ht ht' hkind hkind' htouch
  obtain ⟨u, hu, hstring, hstart, hend⟩ := string_of_slashes h hs htokens hslashes
  have hne : t ≠ u := by
    rintro rfl
    rw [hkind] at hstring
    cases hstring
  rcases hlexed.apart ht hu hne with hbefore | hbehind <;> omega

/-- Slashes in a string stay, slashes behind it start a comment, and two slashes with a blank between them are two
divisions. -/
theorem comments_outside_strings_quoted : ∃ p tokens,
    load "print \"a//b\", 6 / / 2; // \"c\nstop;" = .ok p ∧
      p.statements = #[⟨"print \"a//b\", 6 / / 2;", 1, 0⟩, ⟨"stop;", 2, 29⟩] ∧
      tokenize "print \"a//b\", 6 / / 2;" = .ok tokens ∧
      (∃ t ∈ tokens, t.kind = .string ∧ t.span.start ≤ 8 ∧ 10 ≤ t.span.stop) ∧
      ∀ t ∈ tokens, ∀ t' ∈ tokens, t.kind = .operator .slash → t'.kind = .operator .slash →
        t.span.stop ≠ t'.span.start := by
  have hload : (load "print \"a//b\", 6 / / 2; // \"c\nstop;").toOption.map Program.statements =
      some #[⟨"print \"a//b\", 6 / / 2;", 1, 0⟩, ⟨"stop;", 2, 29⟩] := by decide +kernel
  have hread : (tokenize "print \"a//b\", 6 / / 2;").toOption.isSome = true := by decide +kernel
  obtain ⟨p, hp, hstatements⟩ := exists_of_statements hload
  have hfirst : ⟨"print \"a//b\", 6 / / 2;", 1, 0⟩ ∈ p.statements := by simp [hstatements]
  cases htokens : tokenize "print \"a//b\", 6 / / 2;" with
  | error d =>
    rw [htokens] at hread
    cases hread
  | ok tokens =>
    obtain ⟨hstring, hslash⟩ := comments_outside_strings.2 _ p hp _ hfirst tokens htokens
    have hstands : StandsAt "print \"a//b\", 6 / / 2;".toList 8 ['/', '/'] :=
      ⟨"print \"a".toList, "b\", 6 / / 2;".toList, rfl, rfl⟩
    exact ⟨p, tokens, hp, hstatements, rfl, hstring 8 hstands, hslash⟩

end Program

end Primer
