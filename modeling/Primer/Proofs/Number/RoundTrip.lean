import Primer.Proofs.Number.Rounding
import Primer.Word

/-!
# Numerals that are read back

A finite number is written as a numeral that is read as the same number.

* `Number.Positional text whole fraction`: digits, and perhaps a point with digits behind it.
* `Positional.isNumber_signed`, `Positional.read?_signed`: such a text is a numeral, with a sign or without.
* `Number.exists_positional_layout`: the layout of a decimal fraction is such a text, and stands for it.
* `Number.exists_positional_render`: so does the text of a finite number.
* `Number.isNumber_render`, `Number.read?_render`: it is a numeral, and is read back.
-/

namespace Primer.Number

/-- A numeral without a sign: digits, at least one of them, and perhaps a point with more behind it. -/
inductive Positional : List Char → List Char → List Char → Prop
  | whole {ds : List Char} (hne : ds ≠ []) (hds : ∀ c ∈ ds, c.isDigit = true) : Positional ds ds []
  | point {ds fs : List Char} (hne : ds ≠ []) (hds : ∀ c ∈ ds, c.isDigit = true)
    (hfs : ∀ c ∈ fs, c.isDigit = true) : Positional (ds ++ '.' :: fs) ds fs

/-- The text with its sign; only a minus is written. -/
def signedText (negative : Bool) (text : List Char) : List Char :=
  if negative then '-' :: text else text

/-! ### Digits -/

theorem span_isDigit {ds rest : List Char} (hds : ∀ c ∈ ds, c.isDigit = true)
    (hrest : ∀ c ∈ rest.head?, c.isDigit = false) : (ds ++ rest).span Char.isDigit = (ds, rest) := by
  induction ds with
  | nil =>
    rw [List.span_eq_takeWhile_dropWhile]
    cases rest with
    | nil => rfl
    | cons c rest => simp [hrest c rfl]
  | cons c ds ih =>
    rw [List.span_eq_takeWhile_dropWhile] at ih ⊢
    obtain ⟨htake, hdrop⟩ := Prod.mk.inj (ih fun x hx => hds x (List.mem_cons_of_mem c hx))
    simp [hds c List.mem_cons_self, htake, hdrop]

theorem span_isDigit_all {ds : List Char} (hds : ∀ c ∈ ds, c.isDigit = true) :
    ds.span Char.isDigit = (ds, []) := by
  have hspan := @span_isDigit ds [] hds (by simp)
  rwa [List.append_nil] at hspan

theorem isNumeralBody_append {ds : List Char} (hds : ∀ c ∈ ds, c.isDigit = true) (point digit : Bool)
    (rest : List Char) :
    Word.isNumeralBody point digit (ds ++ rest) =
      Word.isNumeralBody point (digit || !ds.isEmpty) rest := by
  induction ds generalizing digit with
  | nil => simp
  | cons c ds ih =>
    have hc : c.isDigit = true := hds c List.mem_cons_self
    rw [List.cons_append, Word.isNumeralBody, if_pos hc, ih fun x hx => hds x (List.mem_cons_of_mem c hx)]
    simp

theorem digitsValue_eq (ds : List Char) : digitsValue ds = Nat.ofDigitChars 10 ds 0 := rfl

theorem isDigit_replicate_zero (n : Nat) : ∀ c ∈ List.replicate n '0', c.isDigit = true := by
  intro c hc
  rw [List.eq_of_mem_replicate hc]
  rfl

theorem isDigit_toDigits (n : Nat) : ∀ c ∈ Nat.toDigits 10 n, c.isDigit = true :=
  fun _ hc => Nat.isDigit_of_mem_toDigits (by decide) (by decide) hc

/-! ### Reading -/

namespace Positional

variable {text whole fraction : List Char}

theorem exists_cons (h : Positional text whole fraction) :
    ∃ c rest, text = c :: rest ∧ c.isDigit = true := by
  cases h with
  | whole hne hds =>
    obtain ⟨c, cs, rfl⟩ := List.exists_cons_of_ne_nil hne
    exact ⟨c, cs, rfl, hds c List.mem_cons_self⟩
  | point hne hds =>
    obtain ⟨c, cs, rfl⟩ := List.exists_cons_of_ne_nil hne
    exact ⟨c, _, rfl, hds c List.mem_cons_self⟩

theorem mem (h : Positional text whole fraction) : ∀ c ∈ text, c.isDigit = true ∨ c = '.' := by
  cases h with
  | whole _ hds => exact fun c hc => .inl (hds c hc)
  | point _ hds hfs =>
    intro c hc
    rcases List.mem_append.mp hc with hc | hc
    · exact .inl (hds c hc)
    · rcases List.mem_cons.mp hc with rfl | hc
      · exact .inr rfl
      · exact .inl (hfs c hc)

theorem isNumeralBody (h : Positional text whole fraction) :
    Word.isNumeralBody true false text = true := by
  cases h with
  | whole hne hds =>
    have hbody := isNumeralBody_append hds true false []
    rw [List.append_nil] at hbody
    simpa [hbody, Word.isNumeralBody] using hne
  | point hne hds hfs =>
    have hbody := isNumeralBody_append hfs false true []
    rw [List.append_nil] at hbody
    have hdigit : (false || !whole.isEmpty) = true := by simpa using hne
    rw [isNumeralBody_append hds, hdigit, Word.isNumeralBody, if_neg (by decide), if_pos (by decide), hbody]
    rfl

/-- A sign is told from the digits, and so from the lack of a sign. -/
theorem splitSign_signed (h : Positional text whole fraction) (negative : Bool) :
    splitSign (signedText negative text) = (negative, text) := by
  cases negative with
  | true => rfl
  | false =>
    obtain ⟨c, rest, rfl, hc⟩ := h.exists_cons
    show splitSign (c :: rest) = _
    unfold splitSign
    split
    · rename_i heq
      cases heq
      cases hc
    · rename_i heq
      cases heq
      cases hc
    · rfl

theorem isNumber_signed (h : Positional text whole fraction) (negative : Bool) :
    Word.isNumber (signedText negative text) = true := by
  cases negative with
  | true => exact h.isNumeralBody
  | false =>
    show Word.isNumber text = true
    have hbody := h.isNumeralBody
    obtain ⟨c, rest, rfl, hc⟩ := h.exists_cons
    unfold Word.isNumber
    split
    · rename_i heq
      cases heq
      cases hc
    · rename_i heq
      cases heq
      cases hc
    · exact hbody

/-- All digits together, with as many places as there are behind the point, are rounded once. -/
theorem read?_signed (h : Positional text whole fraction) (negative : Bool) :
    read? (signedText negative text) =
      some (ofDecimal negative ⟨digitsValue (whole ++ fraction), -fraction.length⟩) := by
  unfold read?
  rw [h.splitSign_signed]
  cases h with
  | whole hne hds =>
    simp only [span_isDigit_all hds]
    simp [hne]
  | point hne hds hfs =>
    have hpoint : ∀ c ∈ ('.' :: fraction).head?, c.isDigit = false := by simp [Char.isDigit]
    simp only [span_isDigit hds hpoint, span_isDigit_all hfs]
    simp [hne]

end Positional

/-! ### Writing -/

/-- Zeros in front count for nothing. -/
theorem digitsValue_padded (zeros n : Nat) :
    digitsValue (List.replicate zeros '0' ++ Nat.toDigits 10 n) = n := by
  rw [digitsValue_eq, Nat.ofDigitChars_append, Nat.ofDigitChars_replicate_zero]
  simp

/-- Zeros behind are powers of ten. -/
theorem digitsValue_scaled (n zeros : Nat) :
    digitsValue (Nat.toDigits 10 n ++ List.replicate zeros '0') = n * 10 ^ zeros := by
  rw [digitsValue_eq, Nat.ofDigitChars_append, Nat.ofDigitChars_replicate_zero,
    Nat.ofDigitChars_ten_toDigits, Nat.mul_comm]

/-- A decimal fraction is laid out as a numeral that is rounded as the fraction is. -/
theorem exists_positional_layout (d : Decimal) : ∃ whole fraction, Positional d.layout whole fraction ∧
    Decimal.pattern ⟨digitsValue (whole ++ fraction), -fraction.length⟩ = d.pattern := by
  obtain ⟨digits, exponent⟩ := d
  cases exponent with
  | ofNat zeros =>
    have hlayout : Decimal.layout ⟨digits, .ofNat zeros⟩ =
        Nat.toDigits 10 digits ++ List.replicate zeros '0' := rfl
    rw [hlayout]
    refine ⟨_, [], .whole ?_ ?_, ?_⟩
    · simp [Nat.toDigits_ne_nil]
    · intro c hc
      rcases List.mem_append.mp hc with hc | hc
      · exact isDigit_toDigits digits c hc
      · exact isDigit_replicate_zero zeros c hc
    · rw [List.append_nil, digitsValue_scaled]
      simp [Decimal.pattern]
  | negSucc n =>
    set padded := List.replicate (n + 1 + 1 - (Nat.toDigits 10 digits).length) '0' ++
      Nat.toDigits 10 digits with hpadded
    have hlength : n + 1 < padded.length := by
      rw [hpadded, List.length_append, List.length_replicate]
      omega
    have hdigits : ∀ c ∈ padded, c.isDigit = true := by
      intro c hc
      rcases List.mem_append.mp hc with hc | hc
      · exact isDigit_replicate_zero _ c hc
      · exact isDigit_toDigits digits c hc
    have hlayout : Decimal.layout ⟨digits, .negSucc n⟩ =
        padded.take (padded.length - (n + 1)) ++ '.' :: padded.drop (padded.length - (n + 1)) := by
      simp [Decimal.layout, List.splitAt_eq, hpadded]
    rw [hlayout]
    refine ⟨_, _, .point ?_ ?_ ?_, ?_⟩
    · intro hnil
      have := congrArg List.length hnil
      rw [List.length_take, List.length_nil] at this
      omega
    · exact fun c hc => hdigits c (List.mem_of_mem_take hc)
    · exact fun c hc => hdigits c (List.mem_of_mem_drop hc)
    · have hplaces : (padded.drop (padded.length - (n + 1))).length = n + 1 := by
        rw [List.length_drop]
        omega
      rw [List.take_append_drop, hplaces, hpadded, digitsValue_padded]
      rfl

/-- Only zero has no units. -/
theorem eq_zero_of_unitsOfPattern {p : Nat} (h : unitsOfPattern p = 0) : p = 0 := by
  obtain ⟨m, k, hp, hunits, -, hk⟩ := exists_mantissa p
  have hm : m = 0 := by
    rw [hunits] at h
    exact (Nat.mul_eq_zero.mp h).resolve_right (Nat.two_pow_pos k).ne'
  have hk : k = 0 := hk.resolve_right (by rw [hm]; decide)
  rw [hp, hm, hk, Nat.zero_mul]

section Render

variable {x : Float}

/-- A finite number is written as a numeral that is rounded to it. -/
theorem exists_positional_render (h : pattern x < infinityPattern) : ∃ text whole fraction,
    (render x).toList = signedText (isNegative x) text ∧ Positional text whole fraction ∧
      Decimal.pattern ⟨digitsValue (whole ++ fraction), -fraction.length⟩ = pattern x := by
  have hdenote : denote x = .finite (isNegative x) (unitsOfPattern (pattern x)) := by
    rw [denote, if_pos h]
  unfold render
  rw [hdenote]
  simp only [String.toList_ofList]
  by_cases hunits : unitsOfPattern (pattern x) = 0
  · refine ⟨['0'], ['0'], [], by rw [if_pos hunits]; rfl, .whole (by simp) (by simp [Char.isDigit]), ?_⟩
    rw [eq_zero_of_unitsOfPattern hunits]
    exact (pattern_places 0 0).trans (nearest_eq (by decide) (by decide) (Nat.zero_mul _))
  · obtain ⟨whole, fraction, hlayout, hpattern⟩ := exists_positional_layout (shortest (pattern x))
    refine ⟨_, whole, fraction, by rw [if_neg hunits]; rfl, hlayout, ?_⟩
    rw [hpattern]
    exact pattern_search h _

theorem render_mem_of_infinite (h : ¬pattern x < infinityPattern) : render x ∈ ["NaN", "inf", "-inf"] := by
  unfold render denote
  rw [if_neg h]
  by_cases hinfinite : pattern x = infinityPattern
  · rw [if_pos hinfinite]
    cases isNegative x with
    | false =>
      show "inf" ∈ ["NaN", "inf", "-inf"]
      decide
    | true =>
      show "-inf" ∈ ["NaN", "inf", "-inf"]
      decide
  · rw [if_neg hinfinite]
    show "NaN" ∈ ["NaN", "inf", "-inf"]
    decide

/-- The text of a number is a numeral if and only if the number is finite. -/
theorem isNumber_render (x : Float) : Word.isNumber (render x).toList = x.isFinite := by
  rw [Bool.eq_iff_iff, isFinite_iff]
  by_cases h : pattern x < infinityPattern
  · obtain ⟨text, whole, fraction, hrender, htext, -⟩ := exists_positional_render h
    rw [hrender]
    exact iff_of_true (htext.isNumber_signed _) h
  · have hwords : ∀ s ∈ ["NaN", "inf", "-inf"], ¬Word.isNumber s.toList = true := by decide
    exact iff_of_false (hwords _ (render_mem_of_infinite h)) h

/-- The text of a finite number is read as the number, with its sign also where it is zero. -/
theorem read?_render (h : x.isFinite = true) : read? (render x).toList = some x := by
  have hfinite := (isFinite_iff x).mp h
  obtain ⟨text, whole, fraction, hrender, htext, hpattern⟩ := exists_positional_render hfinite
  rw [hrender, htext.read?_signed, ofDecimal, hpattern, ofPattern_pattern]

/-- Numbers are written with visible characters of one byte. -/
theorem mem_render (x : Float) : ∀ c ∈ (render x).toList, 32 < c.toNat ∧ c.toNat < 127 := by
  by_cases h : pattern x < infinityPattern
  · obtain ⟨text, whole, fraction, hrender, htext, -⟩ := exists_positional_render h
    have hmem : ∀ c ∈ text, 32 < c.toNat ∧ c.toNat < 127 := by
      intro c hc
      rcases htext.mem c hc with hdigit | rfl
      · obtain ⟨hlow, hhigh⟩ := Char.isDigit_iff_toNat.mp hdigit
        rw [show '0'.toNat = 48 from rfl] at hlow
        rw [show '9'.toNat = 57 from rfl] at hhigh
        omega
      · decide
    rw [hrender, signedText]
    intro c hc
    split at hc
    · rcases List.mem_cons.mp hc with rfl | hc
      · decide
      · exact hmem c hc
    · exact hmem c hc
  · have hwords : ∀ s ∈ ["NaN", "inf", "-inf"],
        s.toList.all fun c => decide (32 < c.toNat ∧ c.toNat < 127) := by decide
    exact fun c hc => of_decide_eq_true (List.all_eq_true.mp (hwords _ (render_mem_of_infinite h)) c hc)

theorem render_ne_nil (x : Float) : (render x).toList ≠ [] := by
  by_cases h : pattern x < infinityPattern
  · intro hnil
    have hnumber := isNumber_render x
    rw [hnil, (isFinite_iff x).mpr h] at hnumber
    cases hnumber
  · have hwords : ∀ s ∈ ["NaN", "inf", "-inf"], s.toList ≠ [] := by decide
    exact hwords _ (render_mem_of_infinite h)

end Render

end Primer.Number
