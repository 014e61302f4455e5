import Primer.Proofs.Expression.Places
import Primer.Proofs.Statement.Grammar
import Primer.Proofs.Token.Lexing

/-!
# Spans that fit their text

* `Span.Fits cs span`: the ends of the span, cut down to the text `cs`, fall between its characters.
* `Lexed.fits`: so it is for the tokens of a text, and with `joins_fits` for all that unions make of
  them.
* `Span.Shows cs span`: so it is for what a report shows of the span, proper or not.
* `shows_of_tokenize_error`, `shows_of_classify_error`: so it is for what the lexer and the
  classification blame.
* `Span.Inside length span`: the span starts in a text of that many bytes and ends in it, as all do that the
  lexer makes and that the lexer and the classification blame.
-/

namespace Primer

open Text

/-- A proper span whose ends fall between characters of `cs`, or behind them. -/
def Span.Fits (cs : List Char) (span : Span) : Prop :=
  span.start < span.stop ∧ Boundary cs (min span.start (byteLength cs - 1)) ∧
    Boundary cs (min span.stop (byteLength cs))

/-- The part of the text `cs` that a report shows for a span: cut to the text and at least one byte
long. -/
def Span.shown (cs : List Char) (span : Span) : Span :=
  let start := min span.start (byteLength cs - 1)
  ⟨start, min (max span.stop (start + 1)) (byteLength cs)⟩

/-- What a report shows for the span starts and ends between characters of `cs`. -/
def Span.Shows (cs : List Char) (span : Span) : Prop :=
  Boundary cs (span.shown cs).start ∧ Boundary cs (span.shown cs).stop

/-- Some byte of a text is shown in every case. -/
theorem Span.shown_proper {cs : List Char} (hne : cs ≠ []) (span : Span) :
    (span.shown cs).start < (span.shown cs).stop ∧ (span.shown cs).stop ≤ byteLength cs := by
  have hpos := byteLength_pos hne
  simp only [Span.shown]
  omega

theorem Span.Fits.shows {cs : List Char} {span : Span} (h : span.Fits cs) : span.Shows cs := by
  obtain ⟨hlt, hstart, hstop⟩ := h
  have hmax : max span.stop (min span.start (byteLength cs - 1) + 1) = span.stop := by omega
  refine ⟨hstart, ?_⟩
  simp only [Span.shown, hmax]
  exact hstop

/-- A union starts where one of the spans starts and stops where one of them stops. -/
theorem joins_fits (cs : List Char) : Span.Joins (Span.Fits cs) := by
  rintro a b ⟨halt, hastart, hastop⟩ ⟨hblt, hbstart, hbstop⟩
  have hstart : (a.union b).start = min a.start b.start := rfl
  have hstop : (a.union b).stop = max a.stop b.stop := rfl
  refine ⟨by omega, ?_, ?_⟩
  · rcases Nat.le_total a.start b.start with hle | hle
    · rwa [hstart, Nat.min_eq_left hle]
    · rwa [hstart, Nat.min_eq_right hle]
  · rcases Nat.le_total a.stop b.stop with hle | hle
    · rwa [hstop, Nat.max_eq_right hle]
    · rwa [hstop, Nat.max_eq_left hle]

theorem fits_of_piece {pre piece post : List Char} {span : Span} (hne : piece ≠ [])
    (hstart : span.start = byteLength pre) (hstop : span.stop = span.start + byteLength piece) :
    span.Fits (pre ++ (piece ++ post)) := by
  have hpos := byteLength_pos hne
  have hlength : byteLength (pre ++ (piece ++ post)) =
      byteLength pre + (byteLength piece + byteLength post) := by simp
  refine ⟨by omega, ⟨pre, piece ++ post, rfl, ?_⟩, ⟨pre ++ piece, post, by simp, ?_⟩⟩
  · omega
  · rw [byteLength_append]
    omega

/-- The whole of a text. -/
theorem fits_whole {cs : List Char} (hne : cs ≠ []) : Span.Fits cs ⟨0, byteLength cs⟩ := by
  have hfits : Span.Fits ([] ++ (cs ++ [])) ⟨0, byteLength cs⟩ :=
    fits_of_piece hne rfl (Nat.zero_add _).symm
  simpa using hfits

/-- The first byte of a text that starts with a character of one byte. -/
theorem fits_first {c : Char} {cs : List Char} (hc : c.utf8Size = 1) :
    Span.Fits (c :: cs) (.single 0) := by
  have hfits : Span.Fits ([] ++ ([c] ++ cs)) (.single 0) :=
    fits_of_piece (List.cons_ne_nil c []) rfl (by simp [Span.single, hc])
  exact hfits

/-- The point behind a text that ends with a character of one byte. -/
theorem fits_behind {c : Char} {cs : List Char} (hc : c.utf8Size = 1) :
    Span.Fits (cs ++ [c]) (.single (byteLength (cs ++ [c]))) := by
  have hlength : byteLength (cs ++ [c]) = byteLength cs + 1 := by simp [hc]
  refine ⟨Nat.lt_succ_self _, ⟨cs, [c], rfl, ?_⟩, ?_⟩
  · simp only [Span.single]
    omega
  · have hstop : min (Span.single (byteLength (cs ++ [c]))).stop (byteLength (cs ++ [c])) =
        byteLength (cs ++ [c]) := by
      simp only [Span.single]
      omega
    rw [hstop]
    exact Boundary.length _

/-! ### Tokens -/

theorem Lexed.fits {cs : List Char} {tokens : List Token} (h : Lexed 0 cs tokens) :
    ∀ t ∈ tokens, t.span.Fits cs := by
  intro t ht
  obtain ⟨pre, piece, post, rfl, hspells, hstart, hstop, -⟩ := h.exists_piece t ht
  exact fits_of_piece hspells.ne_nil (by omega) hstop

/-- Keywords are written in characters of one byte. -/
theorem utf8Size_of_ofWord? {word : List Char} {k : Keyword} (h : Keyword.ofWord? word = some k) :
    ∀ c ∈ word, c.utf8Size = 1 := by
  have hascii : Keyword.all.all (fun k => k.word.toList.all (·.utf8Size = 1)) = true := by
    decide +kernel
  have hword : k.word.toList = word := by simpa using List.find?_some h
  have hk := List.all_eq_true.mp hascii k (List.mem_of_find?_eq_some h)
  rw [hword] at hk
  simpa using hk

/-- The words that a statement can begin with are written in characters of one byte. -/
theorem Token.Spells.utf8Size_word {kind : Token.Kind} {piece : List Char} (h : Spells kind piece)
    (hkind : kind = .identifier ∨ ∃ word, kind = .keyword word) : ∀ c ∈ piece, c.utf8Size = 1 := by
  cases h with
  | pair => simp at hkind
  | sign h =>
    unfold Lexer.signKind at h
    split at h
    · cases h
      simp at hkind
    · obtain ⟨op, -, rfl⟩ := Lexer.operatorKind_eq_ok_iff.mp h
      simp at hkind
  | string => simp at hkind
  | word _ _ h =>
    unfold Lexer.wordKind at h
    split at h
    · split at h <;> cases h
      simp at hkind
    · split at h
      · rename_i k hk
        exact utf8Size_of_ofWord? hk
      · split at h <;> cases h
        rename_i hword
        exact utf8Size_of_isIdentifier hword

/-- A statement that begins with a word has a first byte to blame. -/
theorem Lexed.fits_first {cs : List Char} {t : Token} {tokens : List Token}
    (h : Lexed 0 cs (t :: tokens))
    (hkind : t.kind = .identifier ∨ ∃ word, t.kind = .keyword word) :
    Span.Fits cs (.single 0) := by
  cases h with
  | @cons _ blanks piece cs _ _ hblanks hspells _ _ _ _ _ =>
    cases blanks with
    | nil =>
      have hpiece := hspells.utf8Size_word hkind
      obtain ⟨c, piece, rfl⟩ := List.exists_cons_of_ne_nil hspells.ne_nil
      exact Primer.fits_first (hpiece c List.mem_cons_self)
    | cons c blanks => exact Primer.fits_first (utf8Size_of_isBlank (hblanks c List.mem_cons_self))

/-! ### What is blamed before a statement runs -/

theorem shows_of_tokenize_error {text : String} {d : Diagnostic} (h : tokenize text = .error d) :
    d.context = none ∧ d.span.Shows text.toList := by
  obtain ⟨hcontext, -, pre, piece, post, hne, hrest, hstart, hstop⟩ :=
    Lexer.placed_of_tokens_error h
  have hrest : text.toList = pre ++ (piece ++ post) := hrest
  refine ⟨hcontext, ?_⟩
  rw [hrest]
  exact (fits_of_piece hne (hstart.trans (Nat.zero_add _)) hstop).shows

/-- The whole of a text, even of none. -/
theorem shows_whole (cs : List Char) : Span.Shows cs ⟨0, byteLength cs⟩ := by
  cases cs with
  | nil => exact ⟨Boundary.zero [], Boundary.zero []⟩
  | cons c cs => exact (fits_whole (List.cons_ne_nil c cs)).shows

/-- All that stands before an equals sign, or the sign itself if nothing does. -/
theorem Lexed.shows_before {cs : List Char} {tokens : List Token} (h : Lexed 0 cs tokens) {t : Token}
    (ht : t ∈ tokens) (hequal : t.kind = .punctuation .equal) :
    Span.Shows cs ⟨0, t.span.start⟩ := by
  obtain ⟨pre, piece, post, rfl, hspells, hstart, -⟩ := h.exists_piece t ht
  rw [hequal] at hspells
  obtain ⟨c, rfl, hc⟩ := hspells.punctuation
  have hstart : t.span.start = byteLength pre := hstart.trans (Nat.zero_add _)
  rw [hstart]
  by_cases hpre : pre = []
  · subst hpre
    have hc : c.utf8Size = 1 := by
      unfold Punctuation.ofChar? at hc
      split at hc <;> cases hc
      rfl
    exact (Primer.fits_first hc).shows
  · have hfits : Span.Fits ([] ++ (pre ++ ([c] ++ post))) ⟨0, byteLength pre⟩ :=
      fits_of_piece hpre rfl (Nat.zero_add _).symm
    exact hfits.shows

/-- What is blamed on the target of an assignment: a token of it, all that stands before the equals sign,
or all from the name to the sign. -/
theorem placed_of_checkTarget_error {G : Span → Prop} {text : String} {target : List Token}
    {equal : Token} (htarget : ∀ t ∈ target, G t.span) (hall : G ⟨0, equal.span.start⟩)
    (hunion : ∀ t ∈ target, G (t.span.union equal.span)) {d : Diagnostic}
    (hd : checkTarget text target equal = .error d) : d.Placed G := by
  unfold checkTarget at hd
  split at hd
  · rename_i quoted hquoted
    cases hd
    exact ⟨htarget _ (List.mem_of_find?_eq_some hquoted), rfl⟩
  · split at hd
    · cases hd
      exact ⟨hall, rfl⟩
    · rename_i name rest _
      split at hd
      · cases hd
        exact ⟨hall, rfl⟩
      · split at hd
        · cases hd
        · rename_i bracket index _
          split at hd
          · cases hd
            exact ⟨hall, rfl⟩
          · split at hd
            · cases hd
              exact ⟨htarget bracket (by simp), rfl⟩
            · split at hd
              · cases hd
                exact ⟨hunion name (by simp), rfl⟩
              · cases hd
              · cases hd
                exact ⟨hall, rfl⟩

/-- What the classification blames: the whole text, or something about the target of an assignment. -/
theorem placed_of_classify_error {G : Span → Prop} {text : String} {tokens : List Token}
    (htokens : ∀ t ∈ tokens, G t.span) (hwhole : G ⟨0, text.utf8ByteSize⟩)
    (hall : ∀ t ∈ tokens, t.kind = .punctuation .equal → G ⟨0, t.span.start⟩)
    (hunion : ∀ t ∈ tokens, ∀ t' ∈ tokens, G (t.span.union t'.span)) {d : Diagnostic}
    (hd : classify text tokens = .error d) : d.Placed G := by
  have hclassified := classified text tokens
  rw [hd] at hclassified
  cases hclassified with
  | unknown => exact ⟨hwhole, rfl⟩
  | @refused target rest equal _ hsplit hequal htarget =>
    have hmem : equal ∈ tokens := by simp [hsplit]
    have hsub : ∀ t ∈ target, t ∈ tokens := fun t ht => by simp [hsplit, ht]
    exact placed_of_checkTarget_error (fun t ht => htokens t (hsub t ht)) (hall equal hmem hequal)
      (fun t ht => hunion t (hsub t ht) equal hmem) htarget

theorem shows_of_classify_error {text : String} {tokens : List Token}
    (h : Lexed 0 text.toList tokens) {d : Diagnostic} (hd : classify text tokens = .error d) :
    d.context = none ∧ d.span.Shows text.toList := by
  have hwhole := shows_whole text.toList
  rw [byteLength_toList] at hwhole
  have hplaced := placed_of_classify_error (G := Span.Shows text.toList)
    (fun t ht => (h.fits t ht).shows) hwhole (fun t ht hequal => h.shows_before ht hequal)
    (fun t ht t' ht' => (joins_fits _ _ _ (h.fits t ht) (h.fits t' ht')).shows) hd
  exact ⟨hplaced.2, hplaced.1⟩

theorem identifier_of_checkTarget {text : String} {target : List Token} {equal : Token}
    (h : checkTarget text target equal = .ok ()) :
    ∃ name rest, target = name :: rest ∧ name.kind = .identifier := by
  unfold checkTarget at h
  split at h
  · cases h
  · split at h
    · cases h
    · rename_i name rest _
      split at h
      · cases h
      · rename_i hname
        exact ⟨name, rest, rfl, by simpa [Token.isIdentifier] using hname⟩

/-- The statements of known kind begin with a word. -/
theorem word_of_classify {text : String} {tokens : List Token} {kind : StatementKind}
    (h : classify text tokens = .ok kind) :
    ∃ t rest, tokens = t :: rest ∧ (t.kind = .identifier ∨ ∃ word, t.kind = .keyword word) := by
  have hclassified := classified text tokens
  rw [h] at hclassified
  cases hclassified with
  | word htokens ht => exact ⟨_, _, htokens, .inr ⟨_, ht⟩⟩
  | assignment htokens _ htarget =>
    obtain ⟨name, rest, rfl, hname⟩ := identifier_of_checkTarget htarget
    exact ⟨name, _, htokens, .inl hname⟩

/-! ### Spans inside their text -/

/-- The span starts before the end of a text of `length` bytes and stops there at the latest. -/
def Span.Inside (length : Nat) (span : Span) : Prop :=
  span.start < length ∧ span.start ≤ span.stop ∧ span.stop ≤ length

/-- The point behind a text is not inside of it. -/
theorem not_inside_behind (length : Nat) : ¬(Span.single length).Inside length :=
  fun h => Nat.lt_irrefl length h.1

theorem joins_inside (length : Nat) : Span.Joins (Span.Inside length) := by
  rintro a b ⟨halt, hale, hastop⟩ ⟨hblt, hble, hbstop⟩
  simp only [Span.Inside, Span.union]
  omega

theorem inside_single {length pos : Nat} (h : pos < length) : (Span.single pos).Inside length :=
  ⟨h, Nat.le_succ pos, h⟩

theorem inside_front {length stop : Nat} (hpos : 0 < length) (h : stop ≤ length) :
    Span.Inside length ⟨0, stop⟩ := ⟨hpos, Nat.zero_le _, h⟩

theorem inside_of_piece {pre piece post : List Char} {span : Span} (hne : piece ≠ [])
    (hstart : span.start = byteLength pre) (hstop : span.stop = span.start + byteLength piece) :
    span.Inside (byteLength (pre ++ (piece ++ post))) := by
  have hpos := byteLength_pos hne
  simp only [Span.Inside, byteLength_append]
  omega

theorem Lexed.inside {cs : List Char} {tokens : List Token} (h : Lexed 0 cs tokens) :
    ∀ t ∈ tokens, t.span.Inside (byteLength cs) := by
  intro t ht
  obtain ⟨pre, piece, post, rfl, hspells, hstart, hstop, -⟩ := h.exists_piece t ht
  exact inside_of_piece hspells.ne_nil (by omega) hstop

theorem inside_of_tokenize_error {text : String} {d : Diagnostic} (h : tokenize text = .error d) :
    d.Placed (Span.Inside text.utf8ByteSize) := by
  obtain ⟨hcontext, -, pre, piece, post, hne, hrest, hstart, hstop⟩ :=
    Lexer.placed_of_tokens_error h
  have hrest : text.toList = pre ++ (piece ++ post) := hrest
  refine ⟨?_, hcontext⟩
  rw [← byteLength_toList, hrest]
  exact inside_of_piece hne (hstart.trans (Nat.zero_add _)) hstop

theorem inside_of_classify_error {text : String} {tokens : List Token} (h : tokenize text = .ok tokens)
    (hne : text.toList ≠ []) {d : Diagnostic} (hd : classify text tokens = .error d) :
    d.Placed (Span.Inside text.utf8ByteSize) := by
  have hpos := byteLength_pos hne
  have hinside := (lexed_of_tokenize h).inside
  rw [byteLength_toList] at hpos hinside
  refine placed_of_classify_error hinside (inside_front hpos (Nat.le_refl _)) ?_ ?_ hd
  · intro t ht _
    exact inside_front hpos (Nat.le_of_lt (hinside t ht).1)
  · intro t ht t' ht'
    exact joins_inside _ _ _ (hinside t ht) (hinside t' ht')

end Primer
