import Primer.Expression

/-!
# Expressions before a semicolon

An evaluation never reads past a terminator.  Where the tokens end in a semicolon it has one before it at
every step, so the end of the text is out of its sight: its outcome is the same for texts of every length.
-/

namespace Primer

/-- The tokens end in a semicolon. -/
def Terminated (tokens : List Token) : Prop :=
  ∃ front t, tokens = front ++ [t] ∧ t.kind = .punctuation .semicolon

theorem Cursor.spanAt_cons (t : Token) (rest : List Token) (length : Nat) :
    spanAt (t :: rest) length = t.span := rfl

namespace Terminated

variable {t : Token} {rest : List Token}

theorem exists_cons (h : Terminated rest) : ∃ t rest', rest = t :: rest' := by
  obtain ⟨front, t, rfl, -⟩ := h
  cases front with
  | nil => exact ⟨t, [], rfl⟩
  | cons t' front => exact ⟨t', front ++ [t], rfl⟩

/-- Behind anything but the semicolon there is still the semicolon. -/
theorem tail (h : Terminated (t :: rest)) (ht : t.kind ≠ .punctuation .semicolon) :
    Terminated rest := by
  obtain ⟨front, last, hsplit, hlast⟩ := h
  cases front with
  | nil =>
    cases hsplit
    exact absurd hlast ht
  | cons t' front =>
    cases hsplit
    exact ⟨front, last, rfl, hlast⟩

/-- There is a token in sight. -/
theorem spanAt (h : Terminated rest) (length length' : Nat) :
    Cursor.spanAt rest length = Cursor.spanAt rest length' := by
  obtain ⟨t, rest', rfl⟩ := h.exists_cons
  rfl

end Terminated

theorem Token.kind_ne_of_isPunctuation {t : Token} {mark mark' : Punctuation}
    (h : t.isPunctuation mark = true) (hne : mark ≠ mark') : t.kind ≠ .punctuation mark' := by
  intro ht
  have hmark : t.kind = .punctuation mark := by simpa [Token.isPunctuation] using h
  rw [ht] at hmark
  cases hmark
  exact hne rfl

namespace Expression

/-- Where an evaluation goes on, or has a value, it is before a semicolon still. -/
def Progress.Terminated : Progress → Prop
  | .next y => Primer.Terminated y.rest
  | .done e => ∀ x, e.value = .ok x → Primer.Terminated e.rest

namespace Yard

variable {s : Store} {y : Yard} {rest : List Token}

theorem terminated_move {m : Move} (h : Primer.Terminated rest) : (y.move m rest).Terminated := by
  unfold move
  split
  · exact h
  · exact fun _ _ => h

theorem terminated_operand {value : Except Diagnostic Float} (h : Primer.Terminated rest) :
    (y.operand value rest).Terminated := by
  unfold operand
  split
  · exact h
  · exact fun _ _ => h

theorem endLevel_terminated (h : Primer.Terminated y.rest) (length length' : Nat) :
    y.endLevel s length = y.endLevel s length' ∧ (y.endLevel s length).Terminated := by
  obtain ⟨t, rest, hr⟩ := h.exists_cons
  rw [hr] at h
  unfold endLevel
  simp only [hr, Cursor.spanAt_cons]
  cases (y.level.close t.span y.trace).1 with
  | error d => exact ⟨rfl, fun x hx => by cases hx⟩
  | ok value =>
    cases y.outer with
    | nil => exact ⟨rfl, fun _ _ => h⟩
    | cons around outer =>
      simp only
      by_cases ht : t.isPunctuation .rightBracket = true
      · have hrest := h.tail (Token.kind_ne_of_isPunctuation ht (by simp))
        simp only [ht, if_true]
        rw [hrest.spanAt length length']
        exact ⟨rfl, terminated_operand hrest⟩
      · simp only [ht, Bool.false_eq_true, if_false]
        exact ⟨trivial, fun x hx => by cases hx⟩

theorem name_terminated (h : Primer.Terminated rest) (t : Token) (length length' : Nat) :
    y.name s length t rest = y.name s length' t rest ∧ (y.name s length t rest).Terminated := by
  obtain ⟨t', rest', rfl⟩ := h.exists_cons
  unfold name
  simp only
  by_cases ht : t'.isPunctuation .leftBracket = true
  · have hrest := h.tail (Token.kind_ne_of_isPunctuation ht (by simp))
    simp only [ht, if_true]
    rw [hrest.spanAt length length']
    exact ⟨rfl, hrest⟩
  · simp only [ht, Bool.false_eq_true, if_false]
    exact ⟨trivial, terminated_operand h⟩

/-- A step takes no semicolon, and what comes behind its token is in sight. -/
theorem step_terminated (h : Primer.Terminated y.rest) (length length' : Nat) :
    y.step s length = y.step s length' ∧ (y.step s length).Terminated := by
  obtain ⟨t, rest, hr⟩ := h.exists_cons
  unfold step
  simp only [hr]
  by_cases ht : t.isTerminator = true
  · simp only [ht, if_true]
    exact endLevel_terminated h length length'
  · have hsemicolon : t.kind ≠ .punctuation .semicolon := by
      intro hkind
      simp [Token.isTerminator, Token.isPunctuation, hkind] at ht
    rw [hr] at h
    have hrest := h.tail hsemicolon
    simp only [ht, Bool.false_eq_true, if_false]
    split
    · split
      · exact ⟨rfl, fun _ _ => hrest⟩
      · exact ⟨rfl, terminated_operand hrest⟩
    · split
      · exact ⟨rfl, fun _ _ => hrest⟩
      · exact name_terminated hrest t length length'
    · exact ⟨rfl, terminated_move hrest⟩
    · exact ⟨rfl, terminated_move hrest⟩
    · exact ⟨rfl, terminated_move hrest⟩
    · exact ⟨rfl, fun _ _ => hrest⟩
    · exact ⟨rfl, fun _ _ => hrest⟩
    · exact ⟨rfl, fun _ _ => hrest⟩

theorem run_terminated {y : Yard} (h : Primer.Terminated y.rest) (length length' : Nat) :
    y.run s length = y.run s length' ∧
      ∀ x, (y.run s length).value = .ok x → Primer.Terminated (y.run s length).rest := by
  obtain ⟨hsame, hstep⟩ := step_terminated (s := s) h length length'
  rw [run, run]
  split
  · rename_i y' hy'
    have hlt := length_lt_of_step hy'
    rw [hy'] at hstep
    rw [hsame] at hy'
    rw [hy']
    exact run_terminated hstep length length'
  · rename_i e he
    rw [he] at hstep
    rw [hsame] at he
    rw [he]
    exact ⟨rfl, hstep⟩
termination_by y.rest.length

end Yard

end Expression

/-- The end of the text is out of sight of an evaluation before a semicolon, and the semicolon is left. -/
theorem evaluate_terminated {c c' : Cursor} (h : Terminated c.rest) (hrest : c'.rest = c.rest)
    (s : Store) : evaluate s c' = evaluate s c ∧
      ∀ x, (evaluate s c).value = .ok x → Terminated (evaluate s c).rest := by
  unfold evaluate Cursor.here
  rw [hrest, h.spanAt c'.length c.length]
  obtain ⟨hsame, hvalue⟩ :=
    Expression.Yard.run_terminated (s := s)
      (y := ⟨.init (Cursor.spanAt c.rest c.length), [], c.rest, []⟩) h c.length c'.length
  exact ⟨hsame.symm, hvalue⟩

end Primer
