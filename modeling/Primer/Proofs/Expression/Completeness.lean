import Primer.Proofs.Expression.Soundness

/-!
# Derivations drive evaluations

The converse: over tokens that derive an expression the evaluation runs to their end.

* `Reduces k held x base`: applying the operators of stratum `k` and tighter ones on the stacks `held`
  comes to the value `x` on top of `base`.
* `Yard.passes_of_derives`: an evaluation in which an operand is due comes to stand behind the tokens
  of a derivation, with stacks that reduce to its value, or fails with a semantic fault.
* `evaluate_eq_ok_iff`: evaluation agrees with the grammar.
-/

namespace Primer
namespace Expression

/-! ### Stacks that stand for a value -/

/-- Applying the operators of `held`, those of stratum `k` and tighter ones, comes to the value `x` on
top of `base`. -/
def Reduces (k : Stratum) (held : Stacks) (x : Float) (base : Stacks) : Prop :=
  ∀ j : Stratum, j.rank ≤ k.rank → ∀ trace, ∃ trace',
    unwind (binds j) held.operators held.operands trace =
      unwind (binds j) base.operators (x :: base.operands) trace'

namespace Reduces

theorem refl (k : Stratum) (operators : List (Entry × Span)) (operands : List Float) (x : Float) :
    Reduces k ⟨operators, x :: operands⟩ x ⟨operators, operands⟩ :=
  fun _ _ trace => ⟨trace, rfl⟩

theorem mono {k k' : Stratum} {held base : Stacks} {x : Float} (h : Reduces k held x base)
    (hk : k'.rank ≤ k.rank) : Reduces k' held x base :=
  fun j hj => h j (Nat.le_trans hj hk)

theorem sign {held : Stacks} {x : Float} {op : UnaryOp} {span : Span}
    {operators : List (Entry × Span)} {operands : List Float}
    (h : Reduces .primary held x ⟨(.unary op, span) :: operators, operands⟩) :
    Reduces .signed held (op.apply x) ⟨operators, operands⟩ := by
  intro j hj trace
  obtain ⟨trace', ht⟩ := h j (Nat.le_succ_of_le hj) trace
  have hp : binds j (.unary op) = true := decide_eq_true hj
  exact ⟨_, ht.trans (by simp [unwind, hp, Entry.apply?]; rfl)⟩

theorem binary {k : Stratum} {sign : Operator} {op : BinaryOp}
    (hop : k.operation? sign = some op) {held : Stacks} {x y : Float} {span : Span}
    {operators : List (Entry × Span)} {operands : List Float}
    (h : Reduces k.tighter held y ⟨(.binary op, span) :: operators, x :: operands⟩) :
    Reduces k held (op.apply x y) ⟨operators, operands⟩ := by
  intro j hj trace
  obtain ⟨trace', ht⟩ := h j (Nat.le_trans hj k.rank_le_tighter) trace
  have hp : binds j (.binary op) = true := by
    rw [binds, Entry.precedence, (Stratum.operation?_eq_some.mp hop).2]
    exact decide_eq_true hj
  exact ⟨_, ht.trans (by simp [unwind, hp, Entry.apply?]; rfl)⟩

/-- Operators that bind looser stay where they are. -/
theorem unwind {k : Stratum} {held base : Stacks} {x : Float} (h : Reduces k held x base)
    {j : Stratum} (hj : j.rank ≤ k.rank) (hb : Below j base.operators) (trace : List Reduction) :
    ∃ trace', Expression.unwind (binds j) held.operators held.operands trace =
      ⟨none, ⟨base.operators, x :: base.operands⟩, trace'⟩ := by
  obtain ⟨trace', ht⟩ := h j hj trace
  exact ⟨trace', ht.trans (unwind_of_below hb _ _)⟩

end Reduces

namespace Level

variable {held base : Stacks} {x : Float}

theorem close_of_reduces (h : Reduces .comparison held x ⟨[], []⟩) (start here : Span)
    (trace : List Reduction) : ∃ trace', close ⟨start, held, .operand⟩ here trace = (.ok x, trace') := by
  obtain ⟨trace', hu⟩ := h.unwind (Nat.le_refl _) (below_nil _) trace
  exact ⟨trace', by simp only [close, unwind, ne_paren_eq_binds, hu]⟩

theorem closeParen_of_reduces {place : Span} {operators : List (Entry × Span)}
    {operands : List Float} (h : Reduces .comparison held x ⟨(.paren, place) :: operators, operands⟩)
    (start span : Span) (trace : List Reduction) :
    ∃ trace', closeParen ⟨start, held, .operand⟩ span trace =
      ⟨.ok ⟨start, ⟨operators, x :: operands⟩, .operand⟩, trace'⟩ := by
  obtain ⟨trace', hu⟩ := h.unwind (Nat.le_refl _) (below_cons.mpr (by decide)) trace
  refine ⟨trace', ?_⟩
  rw [closeParen, if_neg (by simp)]
  simp only [unwind, ne_paren_eq_binds, hu]

theorem operator_of_reduces {k : Stratum} (h : Reduces k held x base) (hb : Below k base.operators)
    {sign : Operator} {op : BinaryOp} (hop : k.operation? sign = some op) (start span : Span)
    (trace : List Reduction) :
    ∃ trace', operator ⟨start, held, .operand⟩ sign span trace =
      ⟨.ok ⟨start, ⟨(.binary op, span) :: base.operators, x :: base.operands⟩, .operator⟩,
        trace'⟩ := by
  obtain ⟨hsign, hprec⟩ := Stratum.operation?_eq_some.mp hop
  obtain ⟨trace', hu⟩ := h.unwind (Nat.le_refl _) hb trace
  exact ⟨trace', by simp only [operator, if_true, hsign, unwind, precedence_eq_binds hprec, hu, wait]⟩

theorem operator_sign {l : Level} (hl : l.last ≠ .operand) (hb : Below .signed l.held.operators)
    {sign : Operator} {op : UnaryOp} (hop : UnaryOp.ofOperator? sign = some op) (span : Span)
    (trace : List Reduction) :
    l.operator sign span trace = ⟨.ok (l.wait (.unary op) span), trace⟩ := by
  rw [operator, if_neg hl, hop]
  split
  · rename_i hops
    rw [hops, below_cons] at hb
    exact absurd hb (Nat.lt_irrefl 5)
  · rename_i hnone _
    cases hnone
  · rename_i hsome _
    cases hsome
    rfl

end Level

namespace Yard

variable {s : Store} {length : Nat} {y : Yard} {t b : Token} {rest : List Token}

theorem step_of_ends (h : Ends y.rest) : y.step s length = y.endLevel s length := by
  unfold step
  split
  · rfl
  · rename_i t rest hr
    rw [if_pos]
    exact isTerminator_iff.mpr (h t (by simp [hr]))

theorem step_number (hr : y.rest = t :: rest) {x : Float} (ht : t.kind = .number x)
    (hl : y.level.last ≠ .operand) : y.step s length = y.operand (.ok x) rest := by
  simp [step, hr, ht, hl, Token.isTerminator, Token.isPunctuation, Token.isKeyword]

theorem step_identifier (hr : y.rest = t :: rest) (ht : t.kind = .identifier)
    (hl : y.level.last ≠ .operand) : y.step s length = y.name s length t rest := by
  simp [step, hr, ht, hl, Token.isTerminator, Token.isPunctuation, Token.isKeyword]

theorem step_operator (hr : y.rest = t :: rest) {sign : Operator} (ht : t.kind = .operator sign) :
    y.step s length = y.move (y.level.operator sign t.span y.trace) rest := by
  simp [step, hr, ht, Token.isTerminator, Token.isPunctuation, Token.isKeyword]

theorem step_openParen (hr : y.rest = t :: rest) (ht : t.kind = .punctuation .leftParen) :
    y.step s length = y.move (y.level.openParen t.span y.trace) rest := by
  simp [step, hr, ht, Token.isTerminator, Token.isPunctuation, Token.isKeyword]

theorem step_closeParen (hr : y.rest = t :: rest) (ht : t.kind = .punctuation .rightParen) :
    y.step s length = y.move (y.level.closeParen t.span y.trace) rest := by
  simp [step, hr, ht, Token.isTerminator, Token.isPunctuation, Token.isKeyword]

/-- The evaluation `y` when a value has been read, with `held` on the stacks. -/
def behind (y : Yard) (held : Stacks) (rest : List Token) (trace : List Reduction) : Yard :=
  { y with level := ⟨y.level.start, held, .operand⟩, rest, trace }

/-- How an evaluation goes on over tokens with a given value: it comes to stand behind them, with that
value on the stacks; where a name has no value it fails with a semantic fault. -/
def Passes (s : Store) (length : Nat) (y : Yard) (k : Stratum) (rest : List Token) :
    Option Float → Prop
  | some x => ∃ held trace, Reduces k held x y.level.held ∧
      y.run s length = (y.behind held rest trace).run s length
  | none => ∃ d, (y.run s length).value = .error d ∧ d.cause.kind = .semantic

/-- A primary value whose last token has just been read. -/
theorem passes_operand {value : Except Diagnostic Float} {x : Option Float} {ahead : List Token}
    {trace : List Reduction} (hv : Resolves value x) (h : y.run s length =
      (operand ⟨y.level, y.outer, ahead, trace⟩ value rest).finish s length) :
    y.Passes s length .primary rest x := by
  cases value with
  | ok z =>
    obtain rfl : x = some z := hv
    exact ⟨_, _, .refl _ _ _ _, h⟩
  | error d =>
    obtain ⟨rfl, hd⟩ := hv
    exact ⟨d, by rw [h]; rfl, hd⟩

/-- Going on behind a part of an expression; a part without a value leaves the whole without one. -/
theorem Passes.andThen {y' : Yard} (h : y.run s length = y'.run s length) {k k' : Stratum}
    {rest' : List Token} {part whole : Option Float} (hp : y'.Passes s length k' rest' part)
    (hnone : part = none → whole = none)
    (hsome : ∀ x held trace, part = some x → Reduces k' held x y'.level.held →
      y.run s length = (y'.behind held rest' trace).run s length →
      y.Passes s length k rest whole) :
    y.Passes s length k rest whole := by
  cases part with
  | none =>
    rw [hnone rfl, Passes, h]
    exact hp
  | some x =>
    obtain ⟨held, trace, hred, hrun⟩ := hp
    exact hsome x held trace rfl hred (h.trans hrun)

/-- An array name, its index under way. -/
theorem step_bracket (hr : y.rest = t :: b :: rest) (ht : t.kind = .identifier)
    (hb : b.kind = .punctuation .leftBracket) (hl : y.level.last ≠ .operand) :
    y.step s length = .next ⟨.init (Cursor.spanAt rest length), ⟨t, y.level⟩ :: y.outer, rest,
      y.trace⟩ := by
  rw [step_identifier hr ht hl]
  simp [name, Token.isPunctuation, hb]

/-- A name without an index. -/
theorem step_scalar (hr : y.rest = t :: rest) (ht : t.kind = .identifier)
    (hnext : ∀ b ∈ rest.head?, b.kind ≠ .punctuation .leftBracket) (hl : y.level.last ≠ .operand) :
    y.step s length = y.operand (scalar s t) rest := by
  rw [step_identifier hr ht hl]
  cases rest with
  | nil => rfl
  | cons b rest =>
    have hb : b.isPunctuation .leftBracket = false := by
      simpa [Token.isPunctuation] using hnext b (by simp)
    simp [name, hb]

/-- An index whose bracket closes. -/
theorem step_closeBracket {held : Stacks} {x : Float} (h : Reduces .comparison held x ⟨[], []⟩)
    (hb : b.kind = .punctuation .rightBracket) (start : Span) (level : Level)
    (outer : List Suspended) (trace : List Reduction) :
    ∃ trace', step s length ⟨⟨start, held, .operand⟩, ⟨t, level⟩ :: outer, b :: rest, trace⟩ =
      operand ⟨level, outer, b :: rest, trace'⟩
        (element s t x (t.span.union (Cursor.spanAt rest length))) rest := by
  obtain ⟨trace', hc⟩ := Level.close_of_reduces h start (Cursor.spanAt (b :: rest) length) trace
  have hends : Ends (b :: rest) := by simp [Ends, hb]
  refine ⟨trace', ?_⟩
  rw [step_of_ends hends, endLevel]
  simp only [hc, Token.isPunctuation, hb, decide_true, if_true]

/-- A derivation drives the evaluation over its tokens. -/
theorem passes_of_derives {k : Stratum} {read : List Token} {e : Tree} (h : Derives k read e) :
    ∀ {y : Yard} {rest : List Token}, y.rest = read ++ rest →
      (∀ t ∈ rest.head?, t.kind ≠ .punctuation .leftBracket) → y.level.last ≠ .operand →
      Below k y.level.held.operators → y.Passes s length k rest (e.value? s) := by
  induction h with
  | @number t x ht =>
    intro y rest hr _ hl _
    have hv : Resolves (.ok x) ((Tree.number x).value? s) := rfl
    have hr : y.rest = t :: rest := hr
    apply passes_operand hv
    rw [run_eq, step_number hr ht hl]
  | @scalar t ht =>
    intro y rest hr hnext hl _
    have hr : y.rest = t :: rest := hr
    apply passes_operand (resolves_scalar s t)
    rw [run_eq, step_scalar hr ht hnext hl]
  | @element t b e is i ht hb hi he ih =>
    intro y rest hr hnext hl _
    -- the index is an expression of its own, on empty stacks
    let y' : Yard := ⟨.init (Cursor.spanAt (is ++ e :: rest) length), ⟨t, y.level⟩ :: y.outer,
      is ++ e :: rest, y.trace⟩
    have hrun : y.run s length = y'.run s length := by
      rw [run_eq, step_bracket (by simpa using hr) ht hb hl]
      rfl
    have hp : y'.Passes s length .comparison (e :: rest) (i.value? s) :=
      ih rfl (by simp [he]) (by simp [y', Level.init]) (below_nil _)
    refine hp.andThen hrun (fun h => by simp [Tree.value?, h]) ?_
    intro x held trace hx hred hrun
    obtain ⟨trace', hstep⟩ := step_closeBracket hred he y'.level.start y.level y.outer trace
    apply passes_operand (resolves_element hx t _)
    rw [hrun, run_eq, behind, hstep]
  | @paren b e is i hb hi he ih =>
    intro y rest hr hnext hl _
    have hr : y.rest = b :: (is ++ e :: rest) := by simpa using hr
    let y' : Yard := { y with level := y.level.wait .paren b.span, rest := is ++ e :: rest }
    have hrun : y.run s length = y'.run s length := by
      rw [run_eq, step_openParen hr hb, Level.openParen, if_neg hl]
      rfl
    have hp : y'.Passes s length .comparison (e :: rest) (i.value? s) :=
      ih rfl (by simp [he]) (by simp [y', Level.wait]) (below_cons.mpr (by decide))
    refine hp.andThen hrun id ?_
    intro x held trace hx hred hrun
    obtain ⟨trace', hc⟩ := Level.closeParen_of_reduces hred y.level.start e.span trace
    rw [hx]
    refine ⟨_, trace', .refl _ _ _ _, ?_⟩
    have hrest : (y'.behind held (e :: rest) trace).rest = e :: rest := rfl
    rw [hrun, run_eq, step_closeParen hrest he]
    simp only [behind, y', Level.wait, hc]
    rfl
  | @sign t sign op ps p ht hop hp ih =>
    intro y rest hr hnext hl hb
    have hr : y.rest = t :: (ps ++ rest) := hr
    let y' : Yard := { y with level := y.level.wait (.unary op) t.span, rest := ps ++ rest }
    have hrun : y.run s length = y'.run s length := by
      rw [run_eq, step_operator hr ht, Level.operator_sign hl hb hop]
      rfl
    have hp : y'.Passes s length .primary rest (p.value? s) :=
      ih rfl hnext (by simp [y', Level.wait]) (below_primary _)
    refine hp.andThen hrun (fun h => by simp [Tree.value?, h]) ?_
    intro x held trace hx hred hrun
    rw [Tree.value?, hx]
    exact ⟨held, trace, .sign hred, hrun⟩
  | @binary k t sign op ls rs l r hl ht hop hr ihl ihr =>
    intro y rest hrest hnext hlast hb
    have hp : y.Passes s length k (t :: (rs ++ rest)) (l.value? s) :=
      ihl (by simpa using hrest) (by simp [ht]) hlast hb
    refine hp.andThen rfl (fun h => by simp [Tree.value?, h]) ?_
    intro x held trace hx hred hrun
    -- the operator applies what binds as tightly, and waits for its right operand
    obtain ⟨trace', ho⟩ := Level.operator_of_reduces hred hb hop y.level.start t.span trace
    let y' : Yard := ⟨⟨y.level.start, ⟨(.binary op, t.span) :: y.level.held.operators,
      x :: y.level.held.operands⟩, .operator⟩, y.outer, rs ++ rest, trace'⟩
    have hrun' : y.run s length = y'.run s length := by
      have hbehind : (y.behind held (t :: (rs ++ rest)) trace).rest = t :: (rs ++ rest) := rfl
      rw [hrun, run_eq, step_operator hbehind ht]
      simp only [behind, ho]
      rfl
    have hk : op.precedence < k.tighter.rank := by
      have hprec := (Stratum.operation?_eq_some.mp hop).2
      have h4 := op.precedence_le_four
      rw [hprec] at h4 ⊢
      exact Stratum.rank_lt_tighter (Nat.le_succ_of_le h4)
    have hp' : y'.Passes s length k.tighter rest (r.value? s) :=
      ihr rfl hnext (by simp [y']) (below_cons.mpr hk)
    refine hp'.andThen hrun' (fun h => by simp [Tree.value?, h, hx]) ?_
    intro z held' trace'' hz hred' hrun''
    rw [Tree.value?, hx, hz]
    exact ⟨held', trace'', .binary hop hred', hrun''⟩
  | @lift k ts e h ih =>
    intro y rest hr hnext hl hb
    refine (ih hr hnext hl (hb.mono k.rank_le_tighter)).andThen rfl id ?_
    intro x held trace hx hred hrun
    rw [hx]
    exact ⟨held, trace, hred.mono k.rank_le_tighter, hrun⟩

end Yard

end Expression

open Expression

/-- What the evaluation of a derivable expression in front of a terminator comes to: its value with
just its tokens read, or a semantic fault. -/
theorem evaluate_of_derives {s : Store} {c : Cursor} {read rest : List Token} {e : Tree}
    (hc : c.rest = read ++ rest) (he : Derives .comparison read e) (hr : Ends rest) :
    match e.value? s with
    | some x => (evaluate s c).value = .ok x ∧ (evaluate s c).rest = rest
    | none => ∃ d, (evaluate s c).value = .error d ∧ d.cause.kind = .semantic := by
  have hnext : ∀ t ∈ rest.head?, t.kind ≠ .punctuation .leftBracket := by
    intro t ht hk
    have := hr t ht
    simp [hk] at this
  have hp : Yard.Passes s c.length ⟨.init c.here, [], c.rest, []⟩ .comparison rest (e.value? s) :=
    Yard.passes_of_derives he hc hnext (by simp [Level.init]) (below_nil _)
  cases hv : e.value? s with
  | none =>
    rw [hv] at hp
    exact hp
  | some x =>
    rw [hv] at hp
    obtain ⟨held, trace, hred, hrun⟩ := hp
    obtain ⟨trace', hclose⟩ :=
      Level.close_of_reduces hred c.here (Cursor.spanAt rest c.length) trace
    have hend : evaluate s c = ⟨.ok x, rest, trace'⟩ := by
      rw [evaluate, hrun, Yard.run_eq, Yard.step_of_ends hr, Yard.endLevel]
      simp only [Yard.behind, Level.init, hclose]
      rfl
    exact ⟨by rw [hend], by rw [hend]⟩

/-- An evaluation gives the value `x` and leaves `rest` unread just if what it has read derives a
comparison of that value and a terminator or nothing follows. -/
theorem evaluate_eq_ok_iff (s : Store) (c : Cursor) (x : Float) (rest : List Token) :
    (evaluate s c).value = .ok x ∧ (evaluate s c).rest = rest ↔
      ∃ read e, c.rest = read ++ rest ∧ Derives .comparison read e ∧ Ends rest ∧
        e.value? s = some x := by
  constructor
  · rintro ⟨hx, rfl⟩
    exact exists_derives_of_evaluate hx
  · rintro ⟨read, e, hc, he, hr, hx⟩
    have h := evaluate_of_derives (s := s) hc he hr
    rw [hx] at h
    exact h

end Primer
