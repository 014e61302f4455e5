import Primer.Proofs.Number.RoundTrip

/-!
# What a numeral is

The texts that are read as numbers, said without a scanner, against the test for them and the reader.

* `Number.Unsigned body`: digits, at least one of them, with at most one point in any place.
* `Number.IsNumeral text`: such a text, with at most one sign before it.
* `Number.isNumber_iff`: the test for numerals holds for these texts and no others.
* `Number.Unsigned.whole_or_point`: the digits stand on both sides of the point, or there is no point.
* `Number.exists_read?_of_isNumber`: each of them is read as a number.
-/

namespace Primer.Number

open Word

/-- Digits with at most one point among them, in front of them or behind them. -/
structure Unsigned (body : List Char) : Prop where
  mem : ∀ c ∈ body, c.isDigit = true ∨ c = '.'
  points : body.count '.' ≤ 1
  digit : ∃ c ∈ body, c.isDigit = true

/-- A numeral: at most one sign, then digits with at most one point. -/
def IsNumeral (text : List Char) : Prop :=
  ∃ sign body, text = sign ++ body ∧ sign ∈ [[], ['+'], ['-']] ∧ Unsigned body

/-! ### The test -/

theorem ne_point_of_isDigit {c : Char} (h : c.isDigit = true) : c ≠ '.' := by
  rintro rfl
  cases h

/-- The scan carries on whether a point is still allowed and whether a digit was seen. -/
theorem isNumeralBody_iff (point digit : Bool) (cs : List Char) :
    isNumeralBody point digit cs = true ↔ (∀ c ∈ cs, c.isDigit = true ∨ c = '.') ∧
      cs.count '.' ≤ point.toNat ∧ (digit = true ∨ ∃ c ∈ cs, c.isDigit = true) := by
  induction cs generalizing point digit with
  | nil => simp [isNumeralBody]
  | cons c cs ih =>
    by_cases hdigit : c.isDigit = true
    · have hc : c ≠ '.' := ne_point_of_isDigit hdigit
      rw [isNumeralBody, if_pos hdigit, ih, List.count_cons_of_ne hc]
      simp [hdigit]
    · by_cases hc : c = '.'
      · subst hc
        cases point with
        | true =>
          rw [isNumeralBody, if_neg hdigit, if_pos (by decide), ih, List.count_cons_self]
          simp [hdigit]
        | false =>
          -- a second point
          rw [isNumeralBody, if_neg hdigit, if_neg (by decide), List.count_cons_self]
          simp
      · rw [isNumeralBody, if_neg hdigit, if_neg (by simp [hc])]
        simp [hdigit, hc]

theorem isNumeralBody_iff_unsigned (body : List Char) :
    isNumeralBody true false body = true ↔ Unsigned body := by
  rw [isNumeralBody_iff]
  simp only [Bool.false_eq_true, false_or, Bool.toNat_true]
  exact ⟨fun ⟨hmem, hpoints, hdigit⟩ => ⟨hmem, hpoints, hdigit⟩,
    fun h => ⟨h.mem, h.points, h.digit⟩⟩

/-- The test and the reader take the same sign off. -/
theorem isNumber_eq (text : List Char) :
    isNumber text = isNumeralBody true false (splitSign text).2 := by
  unfold isNumber
  split
  · rfl
  · rfl
  · rename_i hplus hminus
    rw [splitSign]
    · exact hplus
    · exact hminus

theorem exists_sign_append (text : List Char) :
    ∃ sign ∈ [[], ['+'], ['-']], text = sign ++ (splitSign text).2 := by
  unfold splitSign
  split
  · exact ⟨['+'], by simp, rfl⟩
  · exact ⟨['-'], by simp, rfl⟩
  · exact ⟨[], by simp, rfl⟩

/-- No sign is taken off a text that has none. -/
theorem Unsigned.splitSign_snd {body : List Char} (h : Unsigned body) : (splitSign body).2 = body := by
  have hplus : '+' ∉ body := fun hmem => absurd (h.mem _ hmem) (by decide)
  have hminus : '-' ∉ body := fun hmem => absurd (h.mem _ hmem) (by decide)
  unfold splitSign
  split
  · exact absurd List.mem_cons_self hplus
  · exact absurd List.mem_cons_self hminus
  · rfl

theorem isNumber_iff (text : List Char) : isNumber text = true ↔ IsNumeral text := by
  rw [isNumber_eq, isNumeralBody_iff_unsigned]
  constructor
  · intro h
    obtain ⟨sign, hsign, htext⟩ := exists_sign_append text
    exact ⟨sign, _, htext, hsign, h⟩
  · rintro ⟨sign, body, rfl, hsign, h⟩
    simp only [List.mem_cons, List.not_mem_nil, or_false] at hsign
    rcases hsign with rfl | rfl | rfl
    · rw [List.nil_append, h.splitSign_snd]
      exact h
    · exact h
    · exact h

/-! ### The reader -/

/-- A point parts the digits, or all of the text is digits. -/
theorem Unsigned.whole_or_point {body : List Char} (h : Unsigned body) :
    (body ≠ [] ∧ ∀ c ∈ body, c.isDigit = true) ∨
    ∃ whole fraction, body = whole ++ '.' :: fraction ∧ (∀ c ∈ whole, c.isDigit = true) ∧
      (∀ c ∈ fraction, c.isDigit = true) ∧ whole ++ fraction ≠ [] := by
  have hdigits : ∀ part : List Char, part ⊆ body → '.' ∉ part → ∀ c ∈ part, c.isDigit = true := by
    intro part hpart hpoint c hc
    refine (h.mem c (hpart hc)).resolve_right fun heq => hpoint ?_
    rwa [heq] at hc
  by_cases hpoint : '.' ∈ body
  · obtain ⟨whole, fraction, rfl⟩ := List.append_of_mem hpoint
    have hpoints := h.points
    rw [List.count_append, List.count_cons_self] at hpoints
    have hwhole : '.' ∉ whole := List.count_eq_zero.mp (by omega)
    have hfraction : '.' ∉ fraction := List.count_eq_zero.mp (by omega)
    refine .inr ⟨whole, fraction, rfl, hdigits whole (by simp) hwhole,
      hdigits fraction (fun c hc => by simp [hc]) hfraction, fun hnil => ?_⟩
    -- a point alone
    obtain ⟨rfl, rfl⟩ := List.append_eq_nil_iff.mp hnil
    obtain ⟨c, hc, hdigit⟩ := h.digit
    exact ne_point_of_isDigit hdigit (by simpa using hc)
  · obtain ⟨c, hc, -⟩ := h.digit
    exact .inl ⟨List.ne_nil_of_mem hc, hdigits body (List.Subset.refl body) hpoint⟩

/-- Every numeral has a value. -/
theorem exists_read?_of_isNumber {text : List Char} (h : isNumber text = true) :
    ∃ x, read? text = some x := by
  rw [isNumber_eq, isNumeralBody_iff_unsigned] at h
  unfold read?
  generalize splitSign text = parts at h
  obtain ⟨negative, body⟩ := parts
  rcases h.whole_or_point with ⟨hne, hbody⟩ | ⟨whole, fraction, heq, hwhole, hfraction, hne⟩
  · simp only [span_isDigit_all hbody]
    simp [hne]
  · have hpoint : ∀ c ∈ ('.' :: fraction).head?, c.isDigit = false := by simp [Char.isDigit]
    have heq : body = whole ++ '.' :: fraction := heq
    subst heq
    simp only [span_isDigit hwhole hpoint, span_isDigit_all hfraction]
    simpa using hne

/-- A number without a fraction, one without a whole part, and one with neither. -/
example : isNumber "+5.".toList = true ∧ isNumber "-.5".toList = true ∧ isNumber "+.".toList = false := by
  decide

end Primer.Number
