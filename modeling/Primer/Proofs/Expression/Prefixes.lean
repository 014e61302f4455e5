import Mathlib.Data.List.Basic
import Primer.Proofs.Expression.Completeness
import Primer.Proofs.Expression.Terminated

/-!
# Where an expression goes wrong

What an evaluation has taken without a fault is the beginning of an expression, and with the token that it
rejects it is not: a fault of the syntax is found at the first token at which it can be found.

* `Viable read`: some expression with a terminator behind it begins with the tokens `read`.
* `Waits.completes`: an unfinished derivation is completed by closing its parentheses from the inside out,
  and `Around.completes` closes the brackets of the indices that it stands in.
* `Yard.exists_taken_of_step`, `Yard.offends_of_step`: a step sees one token behind those that it takes.
* `Diagnostic.Offends d left ahead`: the fault lies at the first of the tokens `ahead`.
* `evaluate_fault_earliest`: the tokens before the offending one are viable, and with it they are not.
-/

namespace Primer

namespace Expression

/-- Some expression with a terminator behind it begins with these tokens. -/
def Viable (read : List Token) : Prop :=
  ∃ sentence e t, Derives .comparison sentence e ∧ Ends [t] ∧ read <+: sentence ++ [t]

/-! ### Completing an expression -/

/-- A token to complete an expression with. -/
def spare (kind : Token.Kind) (lexeme : String) : Token := ⟨kind, lexeme, .single 0⟩

/-- Behind an operand that binds tightly enough, an unfinished derivation is completed by the parentheses
that it has open. -/
theorem Waits.completes {s : Store} {read : List Token} {held : Stacks} (h : Waits s read held) :
    ∀ {j : Stratum} {tail : List Token} {e : Tree}, Derives j tail e → Below j held.operators →
      ∃ suffix e', Derives .comparison (read ++ tail ++ suffix) e' := by
  induction h with
  | start =>
    intro j tail e he _
    have hwhole : Derives .comparison tail e := he.mono j.two_le_rank
    exact ⟨[], e, by simpa using hwhole⟩
  | @paren read operators operands t span h ht ih =>
    intro j tail e he _
    have hpair : Derives .primary (t :: (tail ++ [spare (.punctuation .rightParen) ")"])) e :=
      .paren ht (he.mono j.two_le_rank) rfl
    obtain ⟨suffix, e', he'⟩ := ih hpair (below_primary _)
    exact ⟨spare (.punctuation .rightParen) ")" :: suffix, e', by simpa using he'⟩
  | @sign read operators operands t span sign op h hb ht hop ih =>
    intro j tail e he hj
    have he : Derives .primary tail e := he.mono (Nat.succ_le_of_lt (below_cons.mp hj))
    obtain ⟨suffix, e', he'⟩ := ih (.sign ht hop he) hb
    exact ⟨suffix, e', by simpa using he'⟩
  | @binary read left operators operands t span k sign op x h hb hl ht hop ih =>
    intro j tail e he hj
    obtain ⟨l, hl, -⟩ := hl
    -- what stands behind the operator binds tighter than its stratum
    have hk : k.rank < j.rank := by
      have hlt := below_cons.mp hj
      rwa [Entry.precedence, (Stratum.operation?_eq_some.mp hop).2] at hlt
    obtain ⟨suffix, e', he'⟩ := ih (.binary hl ht hop (he.mono (Stratum.rank_tighter_le hk))) hb
    exact ⟨suffix, e', by simpa using he'⟩

theorem Level.Holds.completes {s : Store} {read : List Token} {l : Level} (h : l.Holds s read) :
    ∃ suffix e, Derives .comparison (read ++ suffix) e := by
  by_cases hl : l.last = .operand
  · obtain ⟨before, tail, x, operands, rfl, -, hw, ⟨e, he, -⟩, hb⟩ := h.finished hl
    exact hw.completes he hb
  · have hzero : Derives .primary [spare (.number 0) "0"] (.number 0) := .number rfl
    obtain ⟨suffix, e, he⟩ := (h.waits hl).completes hzero (below_primary _)
    exact ⟨spare (.number 0) "0" :: suffix, e, by simpa using he⟩

/-- An index is completed to the expression that it stands in. -/
theorem Around.completes {s : Store} {before : List Token} {outer : List Suspended}
    (h : Around s before outer) : ∀ {is : List Token} {i : Tree}, Derives .comparison is i →
      ∃ suffix e, Derives .comparison (before ++ is ++ suffix) e := by
  induction h with
  | nil =>
    intro is i hi
    exact ⟨[], i, by simpa using hi⟩
  | @cons before own name bracket level outer h hl hlast hn hb ih =>
    intro is i hi
    have helement : Derives .primary
        (name :: bracket :: (is ++ [spare (.punctuation .rightBracket) "]"])) (.element name.lexeme i) :=
      .element hn hb hi rfl
    obtain ⟨suffix, e, he⟩ := (hl.waits hlast).completes helement (below_primary _)
    obtain ⟨suffix', e', he'⟩ := ih he
    exact ⟨spare (.punctuation .rightBracket) "]" :: (suffix ++ suffix'), e', by simpa using he'⟩

/-- What an evaluation holds is the beginning of an expression. -/
theorem Yard.Holds.viable {s : Store} {read : List Token} {y : Yard} (h : y.Holds s read) :
    Viable read := by
  obtain ⟨before, own, rfl, ha, hl⟩ := h
  obtain ⟨suffix, i, hi⟩ := hl.completes
  obtain ⟨suffix', e, he⟩ := ha.completes hi
  refine ⟨_, e, spare (.punctuation .semicolon) ";", he, by simp [Ends, spare], ?_⟩
  exact ⟨suffix ++ suffix' ++ [spare (.punctuation .semicolon) ";"], by simp⟩

end Expression

/-! ### What a step sees -/

/-- The faults in front of what ends an expression, which is left unread.  All others lie at a token that has
been taken. -/
def Cause.isUnfinished : Cause → Bool
  | .missingExpression | .trailingOperator | .unclosedParen | .unclosedIndex => true
  | _ => false

/-- The fault lies at the first of the tokens `ahead`, where `left` is left unread: at a token that has been
taken, or in front of what ends an expression. -/
inductive Diagnostic.Offends (d : Diagnostic) (left : List Token) : List Token → Prop
  | taken {t : Token} (hcause : d.cause.isUnfinished = false) (hspan : d.span = t.span) :
    Offends d left (t :: left)
  | unread (hcause : d.cause.isUnfinished = true) (hends : Expression.Ends left) : Offends d left left

theorem Cursor.spanAt_of_head? {rest rest' : List Token} (h : rest'.head? = rest.head?) (length : Nat) :
    spanAt rest' length = spanAt rest length := by
  cases rest <;> cases rest' <;> simp_all [spanAt]

namespace Expression

/-- If the move fails, it blames the token at `span`, unless an operator lacked an operand. -/
def Move.Blames (span : Span) (m : Move) : Prop :=
  ∀ d, m.result = .error d → d.cause ≠ .malformed → d.cause.isUnfinished = false ∧ d.span = span

namespace Level

variable (l : Level) (span : Span) (trace : List Reduction)

theorem blames_fault {cause : Cause} (hcause : cause.isUnfinished = false) :
    (fault cause span trace).Blames span := by
  intro d hd _
  cases hd
  exact ⟨hcause, rfl⟩

theorem blames_openParen : (l.openParen span trace).Blames span := by
  unfold openParen
  split
  · exact blames_fault span trace rfl
  · intro d hd
    cases hd

theorem blames_closeParen : (l.closeParen span trace).Blames span := by
  unfold closeParen
  split
  · split <;> exact blames_fault span trace rfl
  · simp only
    split
    · intro d hd hm
      cases hd
      exact absurd rfl hm
    · exact blames_fault span _ rfl
    · intro d hd
      cases hd

theorem blames_operator (op : Operator) : (l.operator op span trace).Blames span := by
  unfold operator
  split
  · split
    · exact blames_fault span trace rfl
    · simp only
      split
      · intro d hd hm
        cases hd
        exact absurd rfl hm
      · intro d hd
        cases hd
  · split
    · exact blames_fault span trace rfl
    · exact blames_fault span trace rfl
    · intro d hd
      cases hd

end Level

namespace Yard

variable {s : Store} {length : Nat} {y y' : Yard} {t : Token} {rest : List Token}

/-- The evaluation with other tokens to come. -/
def ahead (y : Yard) (rest : List Token) : Yard := { y with rest }

/-- The ways in which a token is met that ends no expression, each as a function of what follows it.  Only a
name looks at what follows. -/
inductive Meets (s : Store) (length : Nat) (y : Yard) (t : Token) : (List Token → Progress) → Prop
  | number {x : Float} : Meets s length y t fun rest => y.operand (.ok x) rest
  | name : Meets s length y t fun rest => y.name s length t rest
  | move {m : Move} (hm : m.Blames t.span) : Meets s length y t fun rest => y.move m rest
  | refused {cause : Cause} (hcause : cause.isUnfinished = false) :
    Meets s length y t fun rest => y.halt (.error ⟨cause, t.span, none⟩) rest

theorem exists_meets (s : Store) (length : Nat) (y : Yard) {t : Token} (ht : t.isTerminator = false) :
    ∃ f, y.Meets s length t f ∧ ∀ rest, (y.ahead (t :: rest)).step s length = f rest := by
  simp only [step, ahead, ht, Bool.false_eq_true, if_false]
  split
  · by_cases hl : y.level.last = .operand
    · simp only [hl, if_true]
      exact ⟨_, .refused rfl, fun _ => rfl⟩
    · simp only [hl, if_false]
      exact ⟨_, .number, fun _ => rfl⟩
  · by_cases hl : y.level.last = .operand
    · simp only [hl, if_true]
      exact ⟨_, .refused rfl, fun _ => rfl⟩
    · simp only [hl, if_false]
      exact ⟨_, .name, fun _ => rfl⟩
  · exact ⟨_, .move (y.level.blames_openParen t.span y.trace), fun _ => rfl⟩
  · exact ⟨_, .move (y.level.blames_closeParen t.span y.trace), fun _ => rfl⟩
  · exact ⟨_, .move (y.level.blames_operator t.span y.trace _), fun _ => rfl⟩
  · exact ⟨_, .refused rfl, fun _ => rfl⟩
  · exact ⟨_, .refused rfl, fun _ => rfl⟩
  · exact ⟨_, .refused rfl, fun _ => rfl⟩

theorem ahead_of_rest (h : y.rest = rest) : y.ahead rest = y := by
  subst h
  rfl

theorem operand_next {value : Except Diagnostic Float} (h : y.operand value rest = .next y') :
    y'.rest = rest ∧ ∀ rest', y.operand value rest' = .next (y'.ahead rest') := by
  cases value with
  | ok x =>
    cases h
    exact ⟨rfl, fun rest' => rfl⟩
  | error d => cases h

theorem move_next {m : Move} (h : y.move m rest = .next y') :
    y'.rest = rest ∧ ∀ rest', y.move m rest' = .next (y'.ahead rest') := by
  unfold move at h ⊢
  split at h
  · cases h
    exact ⟨rfl, fun rest' => rfl⟩
  · cases h

/-- A name is taken with the bracket that opens its index, if there is one. -/
theorem name_next (h : y.name s length t rest = .next y') :
    ∃ taken, rest = taken ++ y'.rest ∧ ∀ rest', rest'.head? = y'.rest.head? →
      y.name s length t (taken ++ rest') = .next (y'.ahead rest') := by
  cases rest with
  | nil =>
    obtain ⟨hrest, hahead⟩ := operand_next h
    refine ⟨[], hrest.symm, fun rest' hhead => ?_⟩
    obtain rfl : rest' = [] := by simpa [hrest] using hhead
    exact hahead []
  | cons b rest =>
    unfold name at h
    by_cases hb : b.isPunctuation .leftBracket = true
    · simp only [hb, if_true] at h
      cases h
      refine ⟨[b], rfl, fun rest' hhead => ?_⟩
      simp only [name, List.singleton_append, hb, if_true, Cursor.spanAt_of_head? hhead length]
      rfl
    · simp only [hb] at h
      obtain ⟨hrest, hahead⟩ := operand_next h
      refine ⟨[], hrest.symm, fun rest' hhead => ?_⟩
      obtain ⟨more, rfl⟩ : ∃ more, rest' = b :: more := by
        rw [hrest, List.head?_cons] at hhead
        exact List.head?_eq_some_iff.mp hhead
      simp only [name, List.nil_append, hb]
      exact hahead (b :: more)

/-- The bracket that closes an index is taken, and what follows it is seen. -/
theorem endLevel_next (h : y.endLevel s length = .next y') :
    ∃ t, y.rest = t :: y'.rest ∧ ∀ rest', rest'.head? = y'.rest.head? →
      (y.ahead (t :: rest')).endLevel s length = .next (y'.ahead rest') := by
  cases hr : y.rest with
  | nil =>
    have hlt := length_lt_of_endLevel h
    rw [hr] at hlt
    exact absurd hlt (Nat.not_lt_zero _)
  | cons t rest =>
    unfold endLevel at h
    simp only [hr, Cursor.spanAt_cons] at h
    split at h
    · cases h
    · cases h
    · rename_i index name level outer hclose houter
      split at h
      · rename_i hbracket
        obtain ⟨hrest, hahead⟩ := operand_next h
        refine ⟨t, by rw [hrest], fun rest' hhead => ?_⟩
        rw [hrest] at hhead
        simp only [endLevel, ahead, Cursor.spanAt_cons, hclose, houter, hbracket, if_true,
          Cursor.spanAt_of_head? hhead length]
        exact hahead rest'
      · cases h

/-- A step that goes on sees one token behind those that it takes. -/
theorem exists_taken_of_step (h : y.step s length = .next y') :
    ∃ taken, y.rest = taken ++ y'.rest ∧ ∀ rest', rest'.head? = y'.rest.head? →
      (y.ahead (taken ++ rest')).step s length = .next (y'.ahead rest') := by
  cases hr : y.rest with
  | nil =>
    have hlt := length_lt_of_step h
    rw [hr] at hlt
    exact absurd hlt (Nat.not_lt_zero _)
  | cons t rest =>
    by_cases ht : t.isTerminator = true
    · have hends : ∀ rest, Ends (t :: rest) := fun rest => by simpa [Ends] using isTerminator_iff.mp ht
      rw [step_of_ends (hr ▸ hends rest)] at h
      obtain ⟨t', ht', hahead⟩ := endLevel_next h
      rw [hr] at ht'
      cases ht'
      refine ⟨[t], rfl, fun rest' hhead => ?_⟩
      rw [step_of_ends (hends rest')]
      exact hahead rest' hhead
    · obtain ⟨f, hmeets, hstep⟩ := y.exists_meets s length (by simpa using ht)
      rw [← ahead_of_rest hr, hstep] at h
      cases hmeets with
      | number =>
        obtain ⟨hrest, hahead⟩ := operand_next h
        exact ⟨[t], by rw [hrest]; rfl, fun rest' _ => (hstep rest').trans (hahead rest')⟩
      | name =>
        obtain ⟨taken, hrest, hahead⟩ := name_next h
        refine ⟨t :: taken, by rw [hrest]; rfl, fun rest' hhead => ?_⟩
        exact (hstep (taken ++ rest')).trans (hahead rest' hhead)
      | move =>
        obtain ⟨hrest, hahead⟩ := move_next h
        exact ⟨[t], by rw [hrest]; rfl, fun rest' _ => (hstep rest').trans (hahead rest')⟩
      | refused => cases h

/-! ### What a step complains about -/

/-- The step ends with the fault `d` and leaves `left` unread. -/
def Fails (d : Diagnostic) (left : List Token) (p : Progress) : Prop :=
  ∃ trace, p = .done ⟨.error d, left, trace⟩

variable {d : Diagnostic} {left : List Token}

/-- A value that is missing is a fault of the meaning, not of the syntax. -/
theorem not_fails_operand {value : Except Diagnostic Float} {x : Option Float} (hv : Resolves value x)
    (hk : d.cause.kind ≠ .semantic) : ¬Fails d left (y.operand value rest) := by
  rintro ⟨trace, h⟩
  cases value with
  | ok z => cases h
  | error d' =>
    cases h
    exact hk hv.2

theorem not_fails_name (hk : d.cause.kind ≠ .semantic) : ¬Fails d left (y.name s length t rest) := by
  have hscalar : ∀ rest, ¬Fails d left (y.operand (scalar s t) rest) :=
    fun rest => not_fails_operand (resolves_scalar s t) hk
  unfold name
  split
  · exact hscalar []
  · split
    · rintro ⟨trace, h⟩
      cases h
    · exact hscalar _

theorem fails_move {m : Move} (hd : Fails d left (y.move m rest)) :
    left = rest ∧ m.result = .error d ∧ ∀ rest', Fails d rest' (y.move m rest') := by
  obtain ⟨trace, h⟩ := hd
  unfold move at h
  split at h
  · cases h
  · rename_i d' hd'
    cases h
    refine ⟨rfl, hd', fun rest' => ⟨m.trace, ?_⟩⟩
    rw [move, hd']

end Yard

/-- At the end of an expression the fault is that something is still missing. -/
theorem Level.isUnfinished_of_close {l : Level} {here : Span} {trace : List Reduction} {d : Diagnostic}
    (h : (l.close here trace).1 = .error d) (hm : d.cause ≠ .malformed) :
    d.cause.isUnfinished = true := by
  unfold close at h
  split at h
  · cases h
    rfl
  · cases h
    rfl
  · simp only at h
    split at h
    · cases h
      exact absurd rfl hm
    · cases h
      rfl
    · cases h
    · cases h
      exact absurd rfl hm

namespace Yard

variable {s : Store} {length : Nat} {y y' : Yard} {t : Token} {rest left : List Token} {d : Diagnostic}

/-- The end of an expression sees only the token that ends it. -/
theorem fails_endLevel (hd : Fails d left (y.endLevel s length)) (hm : d.cause ≠ .malformed)
    (hk : d.cause.kind ≠ .semantic) : d.cause.isUnfinished = true ∧ left = y.rest ∧
      ∀ rest', rest'.head? = y.rest.head? → Fails d rest' ((y.ahead rest').endLevel s length) := by
  obtain ⟨trace, h⟩ := hd
  unfold endLevel at h
  simp only at h
  split at h
  · rename_i d' hclose
    cases h
    refine ⟨Level.isUnfinished_of_close hclose hm, rfl, fun rest' hhead => ?_⟩
    simp only [endLevel, ahead, Cursor.spanAt_of_head? hhead length, hclose]
    exact ⟨_, rfl⟩
  · cases h
  · rename_i index name level outer hclose houter
    split at h
    · rename_i t rest hr
      split at h
      · have hindex : (Tree.number index).value? s = some index := rfl
        exact absurd ⟨trace, h⟩ (not_fails_operand (resolves_element hindex name _) hk)
      · rename_i hbracket
        cases h
        refine ⟨rfl, rfl, fun rest' hhead => ?_⟩
        have hspan := Cursor.spanAt_of_head? hhead length
        rw [hr, List.head?_cons] at hhead
        obtain ⟨more, rfl⟩ := List.head?_eq_some_iff.mp hhead
        simp only [endLevel, ahead, hspan, hclose, houter, hbracket]
        exact ⟨_, rfl⟩
    · rename_i hr
      cases h
      refine ⟨rfl, rfl, fun rest' hhead => ?_⟩
      obtain rfl : rest' = [] := by simpa [hr] using hhead
      rw [hr] at hclose ⊢
      simp only [endLevel, ahead, hclose, houter]
      exact ⟨_, rfl⟩

/-- A step that finds a fault of the syntax sees no further than the token that the fault lies at. -/
theorem fails_step (hd : Fails d left (y.step s length)) (hm : d.cause ≠ .malformed)
    (hk : d.cause.kind ≠ .semantic) : d.Offends left y.rest ∧
      ∀ rest', rest'.head? = y.rest.head? → ∃ left', Fails d left' ((y.ahead rest').step s length) := by
  by_cases hends : Ends y.rest
  · rw [step_of_ends hends] at hd
    obtain ⟨hcause, rfl, hahead⟩ := fails_endLevel hd hm hk
    refine ⟨.unread hcause hends, fun rest' hhead => ⟨rest', ?_⟩⟩
    rw [step_of_ends (by rwa [ahead, Ends, hhead])]
    exact hahead rest' hhead
  · obtain ⟨t, rest, hr, ht⟩ : ∃ t rest, y.rest = t :: rest ∧ t.isTerminator = false := by
      cases hr : y.rest with
      | nil => exact absurd (by simp [Ends, hr]) hends
      | cons t rest =>
        refine ⟨t, rest, rfl, eq_false_of_ne_true fun ht => hends ?_⟩
        simpa [Ends, hr] using isTerminator_iff.mp ht
    obtain ⟨f, hmeets, hstep⟩ := y.exists_meets s length ht
    rw [← ahead_of_rest hr, hstep] at hd
    -- the same token is met again, whatever follows it
    have hagain : (∀ rest', Fails d rest' (f rest')) →
        ∀ rest', rest'.head? = y.rest.head? → ∃ left', Fails d left' ((y.ahead rest').step s length) := by
      intro hfails rest' hhead
      rw [hr, List.head?_cons] at hhead
      obtain ⟨more, rfl⟩ := List.head?_eq_some_iff.mp hhead
      exact ⟨more, hstep more ▸ hfails more⟩
    cases hmeets with
    | number => exact absurd hd (not_fails_operand (x := some _) rfl hk)
    | name => exact absurd hd (not_fails_name hk)
    | move hblames =>
      obtain ⟨rfl, hresult, hfails⟩ := fails_move hd
      obtain ⟨hcause, hspan⟩ := hblames d hresult hm
      exact ⟨hr ▸ .taken hcause hspan, hagain hfails⟩
    | refused hcause =>
      obtain ⟨trace, hd⟩ := hd
      cases hd
      exact ⟨hr ▸ .taken hcause rfl, hagain fun rest' => ⟨y.trace, rfl⟩⟩

/-! ### Whole evaluations -/

/-- An evaluation that ends with a fault of the syntax has taken a viable part, and finds the same fault
whatever follows the token that the fault lies at. -/
theorem Holds.run_fault (length : Nat) {read : List Token} {y : Yard} (h : y.Holds s read)
    (hd : (y.run s length).value = .error d) (hk : d.cause.kind ≠ .semantic) :
    ∃ new ahead, y.rest = new ++ ahead ∧ d.Offends (y.run s length).rest ahead ∧ Viable (read ++ new) ∧
      ∀ ahead', ahead'.head? = ahead.head? →
        ((y.ahead (new ++ ahead')).run s length).value = .error d := by
  have hs := h.step length
  rw [run_eq] at hd ⊢
  cases hstep : y.step s length with
  | next y' =>
    rw [hstep] at hs hd
    obtain ⟨taken, hrest, hy'⟩ := hs
    obtain ⟨taken', hrest', hstep'⟩ := exists_taken_of_step hstep
    obtain rfl : taken' = taken := List.append_cancel_right (hrest'.symm.trans hrest)
    have hlt := length_lt_of_step hstep
    obtain ⟨new, ahead, hnew, hoff, hviable, hagain⟩ := hy'.run_fault length hd hk
    refine ⟨taken' ++ new, ahead, by rw [hrest, hnew, List.append_assoc], hoff,
      by rwa [← List.append_assoc], fun ahead' hhead => ?_⟩
    have hsame : (new ++ ahead').head? = y'.rest.head? := by
      rw [hnew, List.head?_append, List.head?_append, hhead]
    rw [run_eq, List.append_assoc, hstep' _ hsame]
    exact hagain ahead' hhead
  | done e =>
    obtain ⟨value, left, trace⟩ := e
    rw [hstep] at hs hd
    obtain rfl : value = .error d := hd
    obtain ⟨hoff, hagain⟩ := fails_step ⟨trace, hstep⟩ hs hk
    refine ⟨[], y.rest, rfl, hoff, by simpa using h.viable, fun ahead' hhead => ?_⟩
    obtain ⟨left', trace', hfails⟩ := hagain ahead' hhead
    rw [run_eq, List.nil_append, hfails]
    rfl
termination_by y.rest.length

end Yard

end Expression

open Expression

/-- The beginning of an evaluation depends on the first token alone. -/
theorem evaluate_eq_run {s : Store} {c : Cursor} {rest : List Token} (h : c.rest.head? = rest.head?) :
    evaluate s { c with rest } = (Yard.ahead ⟨.init c.here, [], c.rest, []⟩ rest).run s c.length := by
  rw [evaluate, Cursor.here, Cursor.here, Cursor.spanAt_of_head? h.symm]
  rfl

/-- A fault of the syntax lies at the first token where it can: what stands before that token is the
beginning of an expression with a terminator behind it, and with the token it is not; at the end of the
tokens they are no expression. -/
theorem evaluate_fault_earliest {s : Store} {c : Cursor} {d : Diagnostic}
    (hd : (evaluate s c).value = .error d)
    (hk : d.cause.kind = .expression ∨ d.cause.kind = .syntactic) :
    ∃ read ahead, c.rest = read ++ ahead ∧ d.Offends (evaluate s c).rest ahead ∧ Viable read ∧
      match ahead with
      | [] => ¬∃ e, Derives .comparison read e
      | t :: _ => ¬Viable (read ++ [t]) := by
  have hk : d.cause.kind ≠ .semantic := by
    intro hsemantic
    simp [hsemantic] at hk
  have hinit : Yard.Holds s [] ⟨.init c.here, [], c.rest, []⟩ :=
    ⟨[], [], rfl, .nil, Level.holds_init _⟩
  obtain ⟨read, ahead, hrest, hoff, hviable, hagain⟩ := hinit.run_fault c.length hd hk
  refine ⟨read, ahead, hrest, hoff, hviable, ?_⟩
  -- no expression with a terminator behind it goes on so from here
  have hnone : ∀ {sentence behind ahead' : List Token} {e : Tree}, Derives .comparison sentence e →
      Ends behind → sentence ++ behind = read ++ ahead' → ahead'.head? = ahead.head? → False := by
    intro sentence behind ahead' e he hends heq hhead
    have hsame : c.rest.head? = (read ++ ahead').head? := by
      rw [show c.rest = read ++ ahead from hrest, List.head?_append, List.head?_append, hhead]
    have hfault : (evaluate s { c with rest := read ++ ahead' }).value = .error d := by
      rw [evaluate_eq_run hsame]
      exact hagain ahead' hhead
    have hvalue := evaluate_of_derives (s := s) (c := { c with rest := read ++ ahead' }) heq.symm he hends
    cases hx : e.value? s with
    | some x =>
      rw [hx] at hvalue
      rw [hfault] at hvalue
      cases hvalue.1
    | none =>
      rw [hx] at hvalue
      obtain ⟨d', hd', hsemantic⟩ := hvalue
      rw [hfault] at hd'
      cases hd'
      exact hk hsemantic
  cases ahead with
  | nil =>
    rintro ⟨e, he⟩
    have hends : Ends [] := by simp [Ends]
    exact hnone he hends rfl rfl
  | cons t rest =>
    rintro ⟨sentence, e, t', he, hends, more, hmore⟩
    have hsentence : sentence ++ [t'] = read ++ t :: more := by simp [← hmore]
    exact hnone he hends hsentence rfl

/-- The index in `a[(0;` lacks a parenthesis and a bracket, and this is seen at the semicolon: `a[(0` can go
on, as in `a[(0)];`. -/
theorem evaluate_fault_earliest_nested :
    let read : List Token := [spare .identifier "a", spare (.punctuation .leftBracket) "[",
      spare (.punctuation .leftParen) "(", spare (.number 0) "0"]
    let semicolon := spare (.punctuation .semicolon) ";"
    (evaluate .empty ⟨read ++ [semicolon], read ++ [semicolon], 0⟩).value =
        .error ⟨.unclosedParen, .single 0, none⟩ ∧
      Viable read ∧ ¬Viable (read ++ [semicolon]) := by
  intro read semicolon
  have hfault : (evaluate .empty ⟨read ++ [semicolon], read ++ [semicolon], 0⟩).value =
      .error ⟨.unclosedParen, .single 0, none⟩ := by
    decide +kernel
  have hleft : (evaluate .empty ⟨read ++ [semicolon], read ++ [semicolon], 0⟩).rest = [semicolon] := by
    decide +kernel
  refine ⟨hfault, ?_⟩
  obtain ⟨read', ahead, hread, hoff, hviable, hnot⟩ := evaluate_fault_earliest hfault (.inl rfl)
  rw [hleft] at hoff
  cases hoff with
  | taken hcause => cases hcause
  | unread =>
    obtain rfl : read = read' := List.append_cancel_right hread
    exact ⟨hviable, hnot⟩

end Primer
