import Mathlib.Computability.Language
import Primer.Proofs.Expression.Grammar
import Primer.Statement.Classify

/-!
# The grammar of statements

The sentences of each kind of statement as languages over tokens, with expressions as their grammar
has them, and what the look-ahead of the classification makes of them.

* `StatementKind.form kind`: the sentences of that kind.
* `Derives.afterClosing?_append`: an expression leaves the depth of parentheses and brackets as it was.
* `Derives.exists_closing`: an expression that starts with a parenthesis, cut behind its partner.
* `Classified text tokens r`: the ways in which a statement is classified.
* `classify_of_mem_form`: a sentence is classified as what it is.
-/

namespace Primer

open Expression
open scoped Computability

/-! ### Forms -/

namespace Form

/-- A single token of the given kind. -/
def token (kind : Token.Kind) : Language Token := {read | ∃ t : Token, t.kind = kind ∧ read = [t]}

def mark (m : Punctuation) : Language Token := token (.punctuation m)

def keyword (word : Keyword) : Language Token := token (.keyword word)

def identifier : Language Token := token .identifier

def string : Language Token := token .string

def expression : Language Token := {read | ∃ e, Derives .comparison read e}

/-- `[expr]` -/
def index : Language Token := mark .leftBracket * expression * mark .rightBracket

/-- `name` or `name[expr]` -/
def target : Language Token := identifier * (1 + index)

/-- What `print` prints. -/
def item : Language Token := string + expression

/-- One or more of `L`, with commas between them. -/
def list (L : Language Token) : Language Token := L * (mark .comma * L)∗

end Form

open Form in
/-- The sentences of each kind, as they stand in the text of a statement. -/
def StatementKind.form : StatementKind → Language Token
  | .dim => Form.keyword .dim * identifier * index * mark .semicolon
  | .if => Form.keyword .if * mark .leftParen * expression * mark .rightParen * Form.keyword .goto *
      identifier * mark .semicolon
  | .goto => Form.keyword .goto * identifier * mark .semicolon
  | .read => Form.keyword .read * (1 + string * mark .comma) * list target * mark .semicolon
  | .print => Form.keyword .print * list item * mark .semicolon
  | .stop => Form.keyword .stop * mark .semicolon
  | .end => Form.keyword .end * mark .semicolon
  | .assignment => target * mark .equal * expression * mark .semicolon

namespace Form

@[simp] theorem mem_token {kind : Token.Kind} {read : List Token} :
    read ∈ token kind ↔ ∃ t : Token, t.kind = kind ∧ read = [t] := Iff.rfl

theorem mem_token_mul {kind : Token.Kind} {L : Language Token} {read : List Token} :
    read ∈ token kind * L ↔ ∃ t rest, t.kind = kind ∧ rest ∈ L ∧ read = t :: rest := by
  rw [Language.mem_mul]
  constructor
  · rintro ⟨_, ⟨t, ht, rfl⟩, rest, hrest, rfl⟩
    exact ⟨t, rest, ht, hrest, rfl⟩
  · rintro ⟨t, rest, ht, hrest, rfl⟩
    exact ⟨[t], ⟨t, ht, rfl⟩, rest, hrest, rfl⟩

theorem kind_of_mem_token {kind : Token.Kind} {read : List Token} (h : read ∈ token kind) {t : Token}
    (ht : t ∈ read.head?) : t.kind = kind := by
  obtain ⟨t', ht', rfl⟩ := h
  cases ht
  exact ht'

theorem kind_of_mem_token_mul {kind : Token.Kind} {L : Language Token} {read : List Token}
    (h : read ∈ token kind * L) {t : Token} (ht : t ∈ read.head?) : t.kind = kind := by
  obtain ⟨t', rest, ht', -, rfl⟩ := mem_token_mul.mp h
  cases ht
  exact ht'

@[simp] theorem mem_expression {read : List Token} :
    read ∈ expression ↔ ∃ e, Derives .comparison read e := Iff.rfl

theorem mem_index {read : List Token} :
    read ∈ index ↔ ∃ bracket is close, bracket.kind = .punctuation .leftBracket ∧
      is ∈ expression ∧ close.kind = .punctuation .rightBracket ∧
        read = bracket :: (is ++ [close]) := by
  rw [index, mul_assoc, mark, mem_token_mul]
  constructor
  · rintro ⟨bracket, _, hbracket, hrest, rfl⟩
    obtain ⟨is, his, _, ⟨close, hclose, rfl⟩, rfl⟩ := Language.mem_mul.mp hrest
    exact ⟨bracket, is, close, hbracket, his, hclose, rfl⟩
  · rintro ⟨bracket, is, close, hbracket, his, hclose, rfl⟩
    exact ⟨bracket, is ++ [close], hbracket,
      Language.mem_mul.mpr ⟨is, his, [close], ⟨close, hclose, rfl⟩, rfl⟩, rfl⟩

/-- A list is one item, perhaps with a comma and another list behind it. -/
theorem list_eq (L : Language Token) : list L = L * (1 + mark .comma * list L) := by
  have hstar : (mark .comma * L)∗ = 1 + mark .comma * list L := by
    rw [list, ← mul_assoc, Language.one_add_self_mul_kstar_eq_kstar]
  rw [← hstar, list]

end Form

/-- Every sentence ends in a semicolon. -/
theorem exists_semicolon_of_mem_form {kind : StatementKind} {tokens : List Token}
    (h : tokens ∈ kind.form) :
    ∃ front t, t.kind = .punctuation .semicolon ∧ tokens = front ++ [t] := by
  have hlast : ∀ {L : Language Token}, tokens ∈ L * Form.mark .semicolon →
      ∃ front t, t.kind = .punctuation .semicolon ∧ tokens = front ++ [t] := by
    rintro L ⟨front, -, _, ⟨t, ht, rfl⟩, rfl⟩
    exact ⟨front, t, ht, rfl⟩
  cases kind <;> exact hlast h

/-! ### Brackets in expressions -/

/-- Parentheses or brackets. -/
def Paired (opening closing : Punctuation) : Prop :=
  (opening = .leftParen ∧ closing = .rightParen) ∨
    (opening = .leftBracket ∧ closing = .rightBracket)

section Scan

variable {opening closing : Punctuation}

theorem afterClosing?_skip {t : Token} (ho : t.kind ≠ .punctuation opening)
    (hc : t.kind ≠ .punctuation closing) (depth : Nat) (rest : List Token) :
    afterClosing? opening closing depth (t :: rest) = afterClosing? opening closing depth rest := by
  simp [afterClosing?, Token.isPunctuation, ho, hc]

theorem afterClosing?_open {t : Token} (ho : t.kind = .punctuation opening) (depth : Nat)
    (rest : List Token) :
    afterClosing? opening closing depth (t :: rest) =
      afterClosing? opening closing (depth + 1) rest := by
  simp [afterClosing?, Token.isPunctuation, ho]

theorem afterClosing?_close (hp : Paired opening closing) {t : Token}
    (hc : t.kind = .punctuation closing) {depth : Nat} (rest : List Token) :
    afterClosing? opening closing (depth + 2) (t :: rest) =
      afterClosing? opening closing (depth + 1) rest := by
  have hne : closing ≠ opening := by rcases hp with ⟨rfl, rfl⟩ | ⟨rfl, rfl⟩ <;> decide
  simp [afterClosing?, Token.isPunctuation, hc, hne]

theorem afterClosing?_last (hp : Paired opening closing) {t : Token}
    (hc : t.kind = .punctuation closing) (rest : List Token) :
    afterClosing? opening closing 1 (t :: rest) = some rest := by
  have hne : closing ≠ opening := by rcases hp with ⟨rfl, rfl⟩ | ⟨rfl, rfl⟩ <;> decide
  simp [afterClosing?, Token.isPunctuation, hc, hne]

/-- An expression between a pair of marks, whatever the pair. -/
theorem afterClosing?_enclosed (hp : Paired opening closing) {b e : Token} {is : List Token}
    {m m' : Punctuation} (hm : Paired m m') (hb : b.kind = .punctuation m)
    (he : e.kind = .punctuation m')
    (ih : ∀ (depth : Nat) (rest : List Token), afterClosing? opening closing (depth + 1) (is ++ rest) =
      afterClosing? opening closing (depth + 1) rest) (depth : Nat) (rest : List Token) :
    afterClosing? opening closing (depth + 1) (b :: (is ++ [e]) ++ rest) =
      afterClosing? opening closing (depth + 1) rest := by
  have happ : b :: (is ++ [e]) ++ rest = b :: (is ++ e :: rest) := by simp
  rw [happ]
  by_cases hsame : m = opening
  · have hc : m' = closing := by
      rcases hp with ⟨rfl, rfl⟩ | ⟨rfl, rfl⟩ <;> rcases hm with ⟨rfl, rfl⟩ | ⟨rfl, rfl⟩ <;> simp_all
    rw [afterClosing?_open (hsame ▸ hb), ih, afterClosing?_close hp (hc ▸ he)]
  · have hskip : m ≠ closing ∧ m' ≠ opening ∧ m' ≠ closing := by
      rcases hp with ⟨rfl, rfl⟩ | ⟨rfl, rfl⟩ <;> rcases hm with ⟨rfl, rfl⟩ | ⟨rfl, rfl⟩ <;> simp_all
    rw [afterClosing?_skip (by simp [hb, hsame]) (by simp [hb, hskip.1]), ih,
      afterClosing?_skip (by simp [he, hskip.2.1]) (by simp [he, hskip.2.2])]

end Scan

namespace Expression

/-- Every mark that an expression opens is closed in it. -/
theorem Derives.afterClosing?_append {opening closing : Punctuation} (hp : Paired opening closing)
    {k : Stratum} {read : List Token} {e : Tree} (h : Derives k read e) :
    ∀ (depth : Nat) (rest : List Token), afterClosing? opening closing (depth + 1) (read ++ rest) =
      afterClosing? opening closing (depth + 1) rest := by
  induction h with
  | number ht => exact fun depth rest => afterClosing?_skip (by simp [ht]) (by simp [ht]) _ _
  | scalar ht => exact fun depth rest => afterClosing?_skip (by simp [ht]) (by simp [ht]) _ _
  | element ht hb hi he ih =>
    intro depth rest
    rw [List.cons_append, afterClosing?_skip (by simp [ht]) (by simp [ht])]
    exact afterClosing?_enclosed hp (.inr ⟨rfl, rfl⟩) hb he ih depth rest
  | paren hb hi he ih => exact afterClosing?_enclosed hp (.inl ⟨rfl, rfl⟩) hb he ih
  | sign ht hop hp ih =>
    intro depth rest
    rw [List.cons_append, afterClosing?_skip (by simp [ht]) (by simp [ht]), ih]
  | binary hl ht hop hr ihl ihr =>
    intro depth rest
    rw [List.append_assoc, ihl, List.cons_append,
      afterClosing?_skip (by simp [ht]) (by simp [ht]), ihr]
  | lift _ ih => exact ih

/-- An expression that starts with a parenthesis: what stands in the pair is an expression, and the
scan for its partner ends behind it. -/
theorem Derives.exists_closing {k : Stratum} {read : List Token} {e : Tree} (h : Derives k read e) :
    ∀ {b : Token} {ts : List Token}, read = b :: ts → b.kind = .punctuation .leftParen →
      ∃ is close tail, read = b :: (is ++ close :: tail) ∧ is ∈ Form.expression ∧
        close.kind = .punctuation .rightParen ∧ ∀ rest,
          afterClosing? .leftParen .rightParen 0 (read ++ rest) = some (tail ++ rest) := by
  induction h with
  | number ht | scalar ht | element ht | sign ht =>
    intro b ts hread hb
    cases hread
    simp [ht] at hb
  | @paren b close is i hb hi he ih =>
    intro b' ts hread _
    cases hread
    have hp : Paired .leftParen .rightParen := .inl ⟨rfl, rfl⟩
    refine ⟨is, close, [], rfl, ⟨i, hi⟩, he, fun rest => ?_⟩
    have happ : b :: (is ++ [close]) ++ rest = b :: (is ++ close :: rest) := by simp
    rw [happ, afterClosing?_open hb, hi.afterClosing?_append hp, afterClosing?_last hp he]
    rfl
  | @binary k t sign op ls rs l r hl ht hop hr ihl ihr =>
    intro b ts hread hb
    -- the left operand starts with the parenthesis, so its partner stands there too
    obtain ⟨b', ls', rfl⟩ := List.exists_cons_of_ne_nil hl.ne_nil
    cases hread
    obtain ⟨is, close, tail, hls, his, hclose, hscan⟩ := ihl rfl hb
    refine ⟨is, close, tail ++ t :: rs, by rw [hls]; simp, his, hclose, fun rest => ?_⟩
    rw [List.append_assoc, hscan]
    simp
  | lift _ ih => exact ih

end Expression

/-! ### Classification -/

theorem classify_keyword {t : Token} {word : Keyword} (ht : t.kind = .keyword word) (text : String)
    (rest : List Token) : classify text (t :: rest) = .ok (.ofKeyword word) := by
  obtain ⟨kind, lexeme, span⟩ := t
  cases ht
  rfl

/-- The ways in which a statement is classified: by its first word, or by what stands before its first
equals sign, if there is one. -/
inductive Classified (text : String) (tokens : List Token) : Except Diagnostic StatementKind → Prop
  | word {t : Token} {word : Keyword} {rest : List Token} (htokens : tokens = t :: rest)
    (ht : t.kind = .keyword word) : Classified text tokens (.ok (.ofKeyword word))
  | unknown : Classified text tokens (.error ⟨.unknownStatement, ⟨0, text.utf8ByteSize⟩, none⟩)
  | refused {target rest : List Token} {equal : Token} {d : Diagnostic}
    (htokens : tokens = target ++ equal :: rest) (hequal : equal.kind = .punctuation .equal)
    (hd : checkTarget text target equal = .error d) : Classified text tokens (.error d)
  | assignment {target rest : List Token} {equal : Token}
    (htokens : tokens = target ++ equal :: rest) (hequal : equal.kind = .punctuation .equal)
    (htarget : checkTarget text target equal = .ok ()) : Classified text tokens (.ok .assignment)

theorem classified (text : String) (tokens : List Token) :
    Classified text tokens (classify text tokens) := by
  have hsplit : tokens.takeWhile (fun t => !t.isPunctuation .equal) ++
      tokens.dropWhile (fun t => !t.isPunctuation .equal) = tokens :=
    List.takeWhile_append_dropWhile
  have hhead := List.head?_dropWhile_not (fun t : Token => !t.isPunctuation .equal) tokens
  unfold classify
  split
  · exact .word rfl rfl
  · simp only
    split
    · exact .unknown
    · rename_i equal rest hdrop
      rw [hdrop] at hsplit hhead
      have hequal : equal.kind = .punctuation .equal := by simpa [Token.isPunctuation] using hhead
      cases hc : checkTarget text (tokens.takeWhile fun t => !t.isPunctuation .equal) equal with
      | error d => exact .refused hsplit.symm hequal hc
      | ok _ => exact .assignment hsplit.symm hequal hc

theorem classify_eq_ok {text : String} {tokens : List Token} {kind : StatementKind}
    (h : classify text tokens = .ok kind) :
    (∃ t word rest, tokens = t :: rest ∧ t.kind = .keyword word ∧ kind = .ofKeyword word) ∨
      kind = .assignment := by
  have hclassified := classified text tokens
  rw [h] at hclassified
  cases hclassified with
  | word htokens ht => exact .inl ⟨_, _, _, htokens, ht, rfl⟩
  | assignment => exact .inr rfl

theorem isElement_not_string {t : Token} (h : isElement t.kind = true) : t.isString = false := by
  cases hk : t.kind <;> simp_all [isElement, Token.isString]

theorem isElement_not_equal {t : Token} (h : isElement t.kind = true) :
    t.isPunctuation .equal = false := by
  cases hk : t.kind with
  | punctuation mark => cases mark <;> simp_all [isElement, Token.isPunctuation]
  | _ => simp [Token.isPunctuation, hk]

theorem isElement_of_mem_target {target : List Token} (h : target ∈ Form.target) :
    ∀ t ∈ target, isElement t.kind = true := by
  obtain ⟨name, index, hname, hindex, rfl⟩ := Form.mem_token_mul.mp h
  intro t ht
  rcases List.mem_cons.mp ht with rfl | ht
  · simp [isElement, hname]
  rcases hindex with hnil | hindex
  · obtain rfl := (Language.mem_one _).mp hnil
    simp at ht
  · obtain ⟨bracket, is, close, hb, ⟨e, he⟩, hc, rfl⟩ := Form.mem_index.mp hindex
    simp only [List.mem_cons, List.mem_append, List.not_mem_nil, or_false] at ht
    rcases ht with rfl | ht | rfl
    · simp [isElement, hb]
    · exact he.isElement t ht
    · simp [isElement, hc]

/-- No expression starts with a closing mark. -/
theorem Expression.Derives.head_ne {k : Stratum} {read : List Token} {e : Tree} (h : Derives k read e) :
    ∀ t ∈ read.head?, t.kind ≠ .punctuation .rightBracket := by
  induction h with
  | number ht | scalar ht | element ht | paren ht | sign ht => simp [ht]
  | binary hl ht hop hr ihl ihr =>
    intro t hmem
    obtain ⟨t', ls, rfl⟩ := List.exists_cons_of_ne_nil hl.ne_nil
    exact ihl t hmem
  | lift _ ih => exact ih

/-- The look-ahead accepts every target, whatever stands behind its equals sign. -/
theorem checkTarget_of_mem {target : List Token} (h : target ∈ Form.target) (text : String)
    (equal : Token) : checkTarget text target equal = .ok () := by
  have hstring : target.find? Token.isString = none := by
    rw [List.find?_eq_none]
    exact fun t ht => by simp [isElement_not_string (isElement_of_mem_target h t ht)]
  obtain ⟨name, index, hname, hindex, rfl⟩ := Form.mem_token_mul.mp h
  rcases hindex with hnil | hindex
  · obtain rfl := (Language.mem_one _).mp hnil
    simp [checkTarget, Token.isString, Token.isIdentifier, hname]
  · obtain ⟨bracket, is, close, hb, ⟨e, he⟩, hc, rfl⟩ := Form.mem_index.mp hindex
    have hp : Paired .leftBracket .rightBracket := .inr ⟨rfl, rfl⟩
    have hscan : afterClosing? .leftBracket .rightBracket 0 (bracket :: (is ++ [close])) = some [] := by
      rw [afterClosing?_open hb, he.afterClosing?_append hp, afterClosing?_last hp hc]
    obtain ⟨t, is', rfl⟩ := List.exists_cons_of_ne_nil he.ne_nil
    have ht : t.kind ≠ .punctuation .rightBracket := he.head_ne t (by simp)
    simp only [checkTarget, hstring, hscan]
    simp [Token.isIdentifier, Token.isPunctuation, hname, hb, ht]

/-- The target of an assignment ends at the first equals sign. -/
theorem classify_assignment {target rest : List Token} (h : target ∈ Form.target) {equal : Token}
    (he : equal.kind = .punctuation .equal) (text : String) :
    classify text (target ++ equal :: rest) = .ok .assignment := by
  have hbefore : ∀ t ∈ target, (!t.isPunctuation .equal) = true := fun t ht => by
    simp [isElement_not_equal (isElement_of_mem_target h t ht)]
  have hat : (!equal.isPunctuation .equal) = false := by simp [Token.isPunctuation, he]
  obtain ⟨name, index, hname, hindex, rfl⟩ := Form.mem_token_mul.mp h
  unfold classify
  split
  · rename_i heq
    cases heq
    simp at hname
  · simp only
    rw [List.dropWhile_append_of_pos hbefore, List.takeWhile_append_of_pos hbefore]
    simp only [List.dropWhile_cons, List.takeWhile_cons, hat]
    simp [checkTarget_of_mem h, Except.map]

/-- A sentence is classified as what it is. -/
theorem classify_of_mem_form {kind : StatementKind} {tokens : List Token} (h : tokens ∈ kind.form)
    (text : String) : classify text tokens = .ok kind := by
  cases kind with
  | assignment =>
    simp only [StatementKind.form, mul_assoc] at h
    obtain ⟨target, ht, _, hrest, rfl⟩ := Language.mem_mul.mp h
    obtain ⟨equal, rest, he, -, rfl⟩ := Form.mem_token_mul.mp hrest
    exact classify_assignment ht he text
  | _ =>
    simp only [StatementKind.form, mul_assoc] at h
    obtain ⟨t, rest, ht, -, rfl⟩ := Form.mem_token_mul.mp h
    exact classify_keyword ht text rest

end Primer
