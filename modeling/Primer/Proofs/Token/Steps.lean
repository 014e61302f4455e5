import Primer.Proofs.Token.Tiling

/-!
# One token at a time

What the lexer makes of a text in one step, with the place at which it goes on, whatever it found.

* `Lexer.Next l r`: the ways to read on, by what stands behind the blanks.
* `Lexer.next_cases`: there are no others.
* `Lexer.length_lt_of_unread`: behind a word that it does not know the lexer has come further.
-/

namespace Primer

open Text

namespace Lexer

/-- What is read next: nothing at the end, a token, a word that is none, or a string that never ends. -/
inductive Next : Lexer → Except Diagnostic (Option Token) × Lexer → Prop
  | finished {n : Nat} {blanks : List Char} (hblanks : ∀ c ∈ blanks, isBlank c = true) :
    Next ⟨n, blanks⟩ (.ok none, ⟨n + byteLength blanks, []⟩)
  | token {n : Nat} {blanks piece rest : List Char} {t : Token}
    (hblanks : ∀ c ∈ blanks, isBlank c = true) (hspells : Token.Spells t.kind piece)
    (hdisplay : t.display = String.ofList piece) (hstops : Token.Stops piece rest)
    (hstart : t.span.start = n + byteLength blanks)
    (hstop : t.span.stop = t.span.start + byteLength piece) :
    Next ⟨n, blanks ++ (piece ++ rest)⟩ (.ok (some t), ⟨t.span.stop, rest⟩)
  | word {n : Nat} {blanks word rest : List Char} {cause : Cause} {span : Span}
    (hblanks : ∀ c ∈ blanks, isBlank c = true) (hne : word ≠ [])
    (hword : ∀ c ∈ word, isSyntactic c = false) (hrest : ∀ c ∈ rest.head?, isSyntactic c = true)
    (hcause : wordKind word = .error cause) (hstart : span.start = n + byteLength blanks)
    (hstop : span.stop = span.start + byteLength word) :
    Next ⟨n, blanks ++ (word ++ rest)⟩ (.error ⟨cause, span, none⟩, ⟨span.stop, rest⟩)
  | unclosed {n : Nat} {blanks body : List Char} {span : Span}
    (hblanks : ∀ c ∈ blanks, isBlank c = true) (hbody : '"' ∉ body)
    (hstart : span.start = n + byteLength blanks)
    (hstop : span.stop = span.start + byteLength ('"' :: body)) :
    Next ⟨n, blanks ++ '"' :: body⟩ (.error ⟨.unclosedString, span, none⟩, ⟨span.start, '"' :: body⟩)

/-- Every character that is an element on its own has a kind, but blanks and quotes. -/
theorem exists_signKind {c : Char} (hc : isSyntactic c = true) (hblank : isBlank c = false)
    (hquote : c ≠ '"') : ∃ kind, signKind c = .ok kind := by
  have hall : "+-*/<>!()[]=,;".toList.all (fun c => (signKind c).isOk) = true := by decide +kernel
  have hmem : c ∈ "+-*/<>!()[]=,;".toList := by
    simp only [isSyntactic, hblank, Bool.false_or, List.contains_iff_mem] at hc
    simpa [hquote] using hc
  have hok := List.all_eq_true.mp hall c hmem
  cases hkind : signKind c with
  | ok kind => exact ⟨kind, rfl⟩
  | error cause =>
    rw [hkind] at hok
    cases hok

theorem emit_eq_error {l l' : Lexer} {kind : Except Cause Token.Kind} {piece rest : List Char}
    {d : Diagnostic} (h : l.emit kind piece rest = (.error d, l')) :
    ∃ cause, kind = .error cause ∧ d = ⟨cause, l.spanOf piece, none⟩ ∧ l' = l.after piece rest := by
  cases kind with
  | ok kind => cases h
  | error cause =>
    cases h
    exact ⟨cause, rfl, rfl, rfl⟩

/-- What cannot be read is a string that never ends, and the lexer stays in front of it, or a word, and it goes
on behind. -/
theorem front_eq_error {l l' : Lexer} {d : Diagnostic} (hblank : ∀ c ∈ l.rest.head?, isBlank c = false)
    (h : l.front = (.error d, l')) :
    (∃ body, '"' ∉ body ∧ l.rest = '"' :: body ∧ d = ⟨.unclosedString, l.spanOf l.rest, none⟩ ∧ l' = l) ∨
    ∃ word rest cause, word ≠ [] ∧ (∀ c ∈ word, isSyntactic c = false) ∧
      (∀ c ∈ rest.head?, isSyntactic c = true) ∧ wordKind word = .error cause ∧
      l.rest = word ++ rest ∧ d = ⟨cause, l.spanOf word, none⟩ ∧ l' = l.after word rest := by
  cases hrest : l.rest with
  | nil =>
    rw [front, hrest] at h
    cases h
  | cons c cs =>
    by_cases hquote : c = '"'
    · subst hquote
      rw [front, hrest] at h
      unfold quoted at h
      simp only at h
      split at h
      · rename_i hnone
        cases h
        refine .inl ⟨cs, fun hmem => ?_, rfl, by rw [hrest], rfl⟩
        simpa using List.dropWhile_eq_nil_iff.mp hnone _ hmem
      · cases h
    · rw [front_eq hrest hquote] at h
      split at h
      · rename_i pair rest hpair
        obtain ⟨cause, hkind, -⟩ := emit_eq_error h
        obtain ⟨op, hoperator⟩ := exists_operatorKind (pair?_eq_some_iff.mp hpair).1
        rw [hoperator] at hkind
        cases hkind
      · split at h
        · rename_i hsyntactic
          obtain ⟨cause, hkind, -⟩ := emit_eq_error h
          have hc : isBlank c = false := hblank c (by rw [hrest]; rfl)
          obtain ⟨kind, hsign⟩ := exists_signKind hsyntactic hc hquote
          rw [hsign] at hkind
          cases hkind
        · rename_i hsyntactic
          obtain ⟨cause, hkind, hd, hl'⟩ := emit_eq_error h
          refine .inr ⟨_, _, cause, ?_, ?_, ?_, hkind, ?_, hd, hl'⟩
          · simp [hsyntactic]
          · exact fun c' hc' => by simpa using List.mem_takeWhile_imp hc'
          · intro d' hd'
            have hhead := List.head?_dropWhile_not (!isSyntactic ·) (c :: cs)
            rw [Option.mem_def.mp hd'] at hhead
            simpa using hhead
          · exact List.takeWhile_append_dropWhile.symm

/-- The lexer reads on in one of these ways. -/
theorem next_cases (l : Lexer) : Next l l.next := by
  obtain ⟨n, cs⟩ := l
  have hsplit : cs.takeWhile isBlank ++ cs.dropWhile isBlank = cs := List.takeWhile_append_dropWhile
  have hblanks : ∀ c ∈ cs.takeWhile isBlank, isBlank c = true := fun c => List.mem_takeWhile_imp
  have hskip : skipBlanks ⟨n, cs⟩ = ⟨n + byteLength (cs.takeWhile isBlank), cs.dropWhile isBlank⟩ := rfl
  have hhead : ∀ c ∈ (cs.dropWhile isBlank).head?, isBlank c = false := by
    intro c hc
    have hhead := List.head?_dropWhile_not isBlank cs
    rwa [Option.mem_def.mp hc] at hhead
  generalize cs.takeWhile isBlank = blanks at hsplit hblanks hskip
  generalize cs.dropWhile isBlank = rest at hsplit hskip hhead
  subst hsplit
  have hfinds : Finds ⟨n + byteLength blanks, rest⟩ (next ⟨n, blanks ++ rest⟩) := by
    rw [next, hskip]
    exact finds_front _
  generalize hnext : next ⟨n, blanks ++ rest⟩ = r at hfinds
  obtain ⟨result, l'⟩ := r
  cases result with
  | ok found =>
    cases found with
    | none =>
      obtain ⟨hrest, rfl⟩ := hfinds
      have hrest : rest = [] := hrest
      subst hrest
      rw [List.append_nil]
      exact .finished hblanks
    | some t =>
      obtain ⟨piece, hspells, hdisplay, hstops, hspan, hrest, hposition⟩ := hfinds
      have hrest : rest = piece ++ l'.rest := hrest
      have hl' : l' = ⟨t.span.stop, l'.rest⟩ := by
        rw [hspan]
        exact congrArg (Lexer.mk · l'.rest) hposition
      rw [hrest, hl']
      exact .token hblanks hspells hdisplay hstops (by rw [hspan]; rfl) (by rw [hspan]; rfl)
  | error d =>
    rw [next, hskip] at hnext
    rcases front_eq_error hhead hnext with ⟨body, hbody, hrest, rfl, rfl⟩ |
      ⟨word, behind, cause, hne, hword, hbehind, hcause, hrest, rfl, rfl⟩
    · have hrest : rest = '"' :: body := hrest
      subst hrest
      exact .unclosed hblanks hbody rfl rfl
    · have hrest : rest = word ++ behind := hrest
      subst hrest
      exact .word hblanks hne hword hbehind hcause rfl rfl

/-- No word is at fault for a string that never ends. -/
theorem ne_unclosedString_of_wordKind {word : List Char} {cause : Cause}
    (h : wordKind word = .error cause) : cause ≠ .unclosedString := by
  rintro rfl
  unfold wordKind at h
  split at h
  · split at h <;> cases h
  · split at h
    · cases h
    · split at h <;> cases h

/-- A word that the lexer does not know is behind it. -/
theorem length_lt_of_unread {l l' : Lexer} {d : Diagnostic} (h : l.next = (.error d, l'))
    (hd : d.cause ≠ .unclosedString) : l'.rest.length < l.rest.length := by
  have hnext := next_cases l
  rw [h] at hnext
  cases hnext with
  | unclosed => exact absurd rfl hd
  | word _ hne =>
    have hpos := List.length_pos_iff.mpr hne
    simp only [List.length_append]
    omega

end Lexer

end Primer
