import Primer.Proofs.Expression.Grammar

/-!
# Evaluations read derivations

While an expression is read, the operator stack holds the part of the derivation that still waits for
its right operands, and the operand stack the values of what stands to the left of them.

* `Waits s read held`: the tokens `read` of one expression, in which an operand is due, are held as
  `held`; every entry of the stack is one piece of an unfinished derivation.
* `Waits.unwind`: applying the operators from the top down joins these pieces to derivations of ever
  looser strata, and never lacks an operand.
* `Yard.Holds s read y`: the invariant of a whole evaluation, suspended expressions included.
  `Yard.Holds.step` and `Yard.Holds.run` carry it along.
* `exists_derives_of_evaluate`: an evaluation that gives a value has read a comparison of that value.
-/

namespace Primer
namespace Expression

/-! ### Entries and strata -/

/-- The entry on top, if there is one, binds looser than stratum `k`. -/
def Below (k : Stratum) (operators : List (Entry × Span)) : Prop :=
  ∀ top ∈ operators.head?, top.1.precedence < k.rank

@[simp] theorem below_nil (k : Stratum) : Below k [] := by simp [Below]

@[simp] theorem below_cons {k : Stratum} {entry : Entry} {span : Span}
    {operators : List (Entry × Span)} :
    Below k ((entry, span) :: operators) ↔ entry.precedence < k.rank := by simp [Below]

theorem Below.mono {k k' : Stratum} {operators : List (Entry × Span)} (h : Below k operators)
    (hk : k.rank ≤ k'.rank) : Below k' operators :=
  fun top ht => Nat.lt_of_lt_of_le (h top ht) hk

theorem Entry.precedence_lt_six (entry : Entry) : entry.precedence < 6 := by
  cases entry with
  | paren => decide
  | unary op => exact Nat.lt_succ_self 5
  | binary op => exact Nat.lt_of_le_of_lt op.precedence_le_four (by decide)

theorem below_primary (operators : List (Entry × Span)) : Below .primary operators :=
  fun top _ => top.1.precedence_lt_six

/-- The operators of stratum `k` and of tighter ones. -/
def binds (k : Stratum) (entry : Entry) : Bool := k.rank ≤ entry.precedence

/-- All operators bind at least as tightly as comparisons, and parentheses do not. -/
theorem ne_paren_eq_binds : (fun entry : Entry => decide (entry ≠ .paren)) = binds .comparison := by
  funext entry
  cases entry with
  | paren => decide
  | unary op => rfl
  | binary op => cases op <;> decide

theorem precedence_eq_binds {k : Stratum} {op : BinaryOp} (h : op.precedence = k.rank) :
    (fun entry : Entry => decide (op.precedence ≤ entry.precedence)) = binds k := by
  funext entry
  rw [h, binds]

theorem unwind_of_below {k : Stratum} {operators : List (Entry × Span)} (h : Below k operators)
    (operands : List Float) (trace : List Reduction) :
    unwind (binds k) operators operands trace = ⟨none, ⟨operators, operands⟩, trace⟩ := by
  cases operators with
  | nil => rfl
  | cons top operators =>
    obtain ⟨entry, span⟩ := top
    have hlt : ¬ k.rank ≤ entry.precedence := Nat.not_le.mpr (below_cons.mp h)
    simp [unwind, binds, hlt]

/-! ### Unfinished derivations on the stacks -/

/-- The tokens `read` of one expression in which an operand is due, and the stacks that hold them. -/
inductive Waits (s : Store) : List Token → Stacks → Prop
  | start : Waits s [] ⟨[], []⟩
  | paren {read : List Token} {operators : List (Entry × Span)} {operands : List Float} {t : Token}
    {span : Span} (h : Waits s read ⟨operators, operands⟩)
    (ht : t.kind = .punctuation .leftParen) :
    Waits s (read ++ [t]) ⟨(.paren, span) :: operators, operands⟩
  | sign {read : List Token} {operators : List (Entry × Span)} {operands : List Float} {t : Token}
    {span : Span} {sign : Operator} {op : UnaryOp} (h : Waits s read ⟨operators, operands⟩)
    (hb : Below .signed operators) (ht : t.kind = .operator sign)
    (hop : UnaryOp.ofOperator? sign = some op) :
    Waits s (read ++ [t]) ⟨(.unary op, span) :: operators, operands⟩
  | binary {read left : List Token} {operators : List (Entry × Span)} {operands : List Float}
    {t : Token} {span : Span} {k : Stratum} {sign : Operator} {op : BinaryOp} {x : Float}
    (h : Waits s read ⟨operators, operands⟩) (hb : Below k operators)
    (hl : Evaluates s k left x) (ht : t.kind = .operator sign)
    (hop : k.operation? sign = some op) :
    Waits s (read ++ left ++ [t]) ⟨(.binary op, span) :: operators, x :: operands⟩

/-- The tokens `all` of one expression end in a finished part of stratum `k`, whose value is on top of
the operands, and the stacks hold the rest of them. -/
def Finished (s : Store) (k : Stratum) (all : List Token) (held : Stacks) : Prop :=
  ∃ read tail x operands, all = read ++ tail ∧ held.operands = x :: operands ∧
    Waits s read ⟨held.operators, operands⟩ ∧ Evaluates s k tail x ∧ Below k held.operators

/-- Applying the operators of stratum `k` and tighter ones joins what they wait for to a finished
part of stratum `k`.  No operator lacks an operand. -/
theorem Waits.unwind {s : Store} {k : Stratum} (hk : k.rank ≤ 5) {read : List Token}
    {held : Stacks} (h : Waits s read held) :
    ∀ {j : Stratum} {tail : List Token} {x : Float} (trace : List Reduction), k.rank ≤ j.rank →
      Evaluates s j tail x → Below j held.operators →
      ∃ held' trace',
        unwind (binds k) held.operators (x :: held.operands) trace = ⟨none, held', trace'⟩ ∧
          Finished s k (read ++ tail) held' := by
  induction h with
  | start =>
    intro j tail x trace hkj hx _
    exact ⟨_, _, rfl, ⟨[], tail, x, [], rfl, rfl, .start, hx.mono hkj, below_nil k⟩⟩
  | @paren read operators operands t span h ht ih =>
    intro j tail x trace hkj hx _
    have hb : Below k ((.paren, span) :: operators) := below_cons.mpr k.two_le_rank
    exact ⟨_, _, unwind_of_below hb _ _,
      ⟨read ++ [t], tail, x, operands, rfl, rfl, .paren h ht, hx.mono hkj, hb⟩⟩
  | @sign read operators operands t span sign op h hb ht hop ih =>
    intro j tail x trace hkj hx hj
    -- only a primary value can stand behind a sign
    have hx' : Evaluates s .primary tail x :=
      hx.mono (Nat.succ_le_of_lt (below_cons.mp hj))
    obtain ⟨held', trace', hu, hf⟩ := ih (j := .signed)
      (.unary op x (op.apply x) :: trace) hk
      (Evaluates.sign ht hop hx') hb
    refine ⟨held', trace', ?_, by simpa using hf⟩
    have hp : binds k (.unary op) = true := decide_eq_true hk
    simpa [Expression.unwind, hp, Entry.apply?] using hu
  | @binary read left operators operands t span m sign op y h hb hl ht hop ih =>
    intro j tail x trace hkj hx hj
    have hprec := (Stratum.operation?_eq_some.mp hop).2
    by_cases hkm : k.rank ≤ m.rank
    · -- the operator is applied: what stands behind it is of a tighter stratum
      have hmj : m.rank < j.rank := by
        have := below_cons.mp hj
        rwa [Entry.precedence, hprec] at this
      have hx' : Evaluates s m.tighter tail x := hx.mono (Stratum.rank_tighter_le hmj)
      obtain ⟨held', trace', hu, hf⟩ := ih (.binary op y x (op.apply y x) :: trace) hkm
        (Evaluates.binary hl ht hop hx') hb
      refine ⟨held', trace', ?_, by simpa using hf⟩
      have hp : binds k (.binary op) = true := by
        rw [binds, Entry.precedence, hprec]
        exact decide_eq_true hkm
      simpa [Expression.unwind, hp, Entry.apply?] using hu
    · have hb' : Below k ((.binary op, span) :: operators) := by
        rw [below_cons, Entry.precedence, hprec]
        omega
      exact ⟨_, _, unwind_of_below hb' _ _,
        ⟨_, tail, x, _, rfl, rfl, .binary h hb hl ht hop, hx.mono hkj, hb'⟩⟩

theorem Finished.unwind {s : Store} {k : Stratum} {read : List Token} {held : Stacks}
    (h : Finished s .primary read held) (hk : k.rank ≤ 5) (trace : List Reduction) :
    ∃ held' trace', Expression.unwind (binds k) held.operators held.operands trace =
      ⟨none, held', trace'⟩ ∧ Finished s k read held' := by
  obtain ⟨before, tail, x, operands, rfl, hx, hw, he, hb⟩ := h
  rw [hx]
  exact hw.unwind hk (j := .primary) trace (Nat.le_succ_of_le hk) he hb

/-! ### One expression under way -/

/-- The tokens `read` of an expression, and what a level holds of them. -/
def Level.Holds (s : Store) (read : List Token) (l : Level) : Prop :=
  match l.last with
  | .nothing => read = [] ∧ l.held = ⟨[], []⟩
  | .operator => read ≠ [] ∧ Waits s read l.held
  | .operand => Finished s .primary read l.held

/-- A move to a level that holds `read`, or to a fault that the tokens are to blame for. -/
def Move.Sound (s : Store) (read : List Token) (m : Move) : Prop :=
  match m.result with
  | .ok l => l.Holds s read
  | .error d => d.cause ≠ .malformed

namespace Level

variable {s : Store} {read : List Token} {l : Level}

theorem holds_init (start : Span) : (init start).Holds s [] := ⟨rfl, rfl⟩

theorem Holds.waits (h : l.Holds s read) (hl : l.last ≠ .operand) : Waits s read l.held := by
  cases hc : l.last with
  | nothing =>
    rw [Holds, hc] at h
    rw [h.1, h.2]
    exact .start
  | operator =>
    rw [Holds, hc] at h
    exact h.2
  | operand => exact absurd hc hl

theorem Holds.finished (h : l.Holds s read) (hl : l.last = .operand) :
    Finished s .primary read l.held := by
  rw [Holds, hl] at h
  exact h

/-- A primary value fills the place of the operand that is due. -/
theorem Holds.push (h : l.Holds s read) (hl : l.last ≠ .operand) {tail : List Token} {x : Float}
    (hx : Evaluates s .primary tail x) : (l.push x).Holds s (read ++ tail) :=
  ⟨read, tail, x, l.held.operands, rfl, rfl, h.waits hl, hx, below_primary _⟩

theorem Holds.openParen (h : l.Holds s read) {t : Token} (ht : t.kind = .punctuation .leftParen)
    (trace : List Reduction) : (l.openParen t.span trace).Sound s (read ++ [t]) := by
  unfold Level.openParen
  by_cases hl : l.last = .operand
  · rw [if_pos hl]
    simp [Move.Sound, fault]
  · rw [if_neg hl]
    exact ⟨by simp, .paren (h.waits hl) ht⟩

/-- What is left on top when everything up to a parenthesis is applied. -/
theorem eq_paren_of_below {entry : Entry} {span : Span} {operators : List (Entry × Span)}
    (h : Below .comparison ((entry, span) :: operators)) : entry = .paren := by
  have hlt := below_cons.mp h
  cases entry with
  | paren => rfl
  | unary op => exact absurd hlt (by simp [Entry.precedence, Stratum.rank])
  | binary op => cases op <;> exact absurd hlt (by decide)

theorem Holds.closeParen (h : l.Holds s read) {t : Token} (ht : t.kind = .punctuation .rightParen)
    (trace : List Reduction) : (l.closeParen t.span trace).Sound s (read ++ [t]) := by
  unfold Level.closeParen
  by_cases hl : l.last = .operand
  · rw [if_neg (by simpa using hl)]
    obtain ⟨held', trace', hu, before, tail, x, operands, rfl, hx, hw, he, hb⟩ :=
      (h.finished hl).unwind (k := .comparison) (by decide) trace
    simp only [Level.unwind, ne_paren_eq_binds, hu]
    cases hops : held'.operators with
    | nil => simp [Move.Sound, fault]
    | cons top operators =>
      obtain ⟨entry, span⟩ := top
      rw [hops] at hw hb
      obtain rfl := eq_paren_of_below hb
      -- the parenthesis was pushed when `[b]` was read, and what follows it is a comparison
      obtain _ | ⟨hw, hb⟩ := hw
      rename_i before b
      refine ⟨before, b :: (tail ++ [t]), x, operands, by simp, hx, hw, ?_, below_primary _⟩
      exact .paren hb he ht
  · rw [if_pos hl]
    split <;> simp [Move.Sound, fault]

theorem Holds.operator (h : l.Holds s read) {t : Token} {sign : Operator}
    (ht : t.kind = .operator sign) (trace : List Reduction) :
    (l.operator sign t.span trace).Sound s (read ++ [t]) := by
  unfold Level.operator
  by_cases hl : l.last = .operand
  · rw [if_pos hl]
    cases hop : BinaryOp.ofOperator? sign with
    | none => simp [Move.Sound, fault]
    | some op =>
      obtain ⟨k, hk⟩ := Stratum.exists_rank_eq op
      have hk5 : k.rank ≤ 5 := hk ▸ Nat.le_succ_of_le op.precedence_le_four
      obtain ⟨held', trace', hu, before, tail, x, operands, rfl, hx, hw, he, hb⟩ :=
        (h.finished hl).unwind hk5 trace
      simp only [Level.unwind, precedence_eq_binds hk, hu]
      refine ⟨by simp, ?_⟩
      have hw' : Waits s (before ++ tail ++ [t])
          ⟨(.binary op, t.span) :: held'.operators, x :: operands⟩ :=
        .binary hw hb he ht (Stratum.operation?_eq_some.mpr ⟨hop, hk⟩)
      rwa [← hx] at hw'

  · rw [if_neg hl]
    have hw := h.waits hl
    cases hops : l.held.operators with
    | nil =>
      cases hop : UnaryOp.ofOperator? sign with
      | none => simp [Move.Sound, fault]
      | some op => exact ⟨by simp, .sign hw (by simp [hops]) ht hop⟩
    | cons top operators =>
      obtain ⟨entry, span⟩ := top
      cases hop : UnaryOp.ofOperator? sign with
      | none => cases entry <;> simp [Move.Sound, fault]
      | some op =>
        cases entry with
        | unary previous => simp [Move.Sound, fault]
        | paren => exact ⟨by simp, .sign hw (by rw [hops]; simp [Entry.precedence, Stratum.rank]) ht hop⟩
        | binary previous =>
          refine ⟨by simp, .sign hw ?_ ht hop⟩
          rw [hops, below_cons]
          exact Nat.lt_succ_of_le previous.precedence_le_four

/-- At its end an expression has the value of a comparison. -/
theorem Holds.close (h : l.Holds s read) (here : Span) (trace : List Reduction) :
    match (l.close here trace).1 with
    | .ok x => Evaluates s .comparison read x
    | .error d => d.cause ≠ .malformed := by
  unfold Level.close
  cases hl : l.last with
  | nothing => simp
  | operator => simp
  | operand =>
    obtain ⟨held', trace', hu, before, tail, x, operands, rfl, hx, hw, he, hb⟩ :=
      (h.finished hl).unwind (k := .comparison) (by decide) trace
    simp only [Level.unwind, ne_paren_eq_binds, hu]
    cases hops : held'.operators with
    | cons top operators => simp
    | nil =>
      rw [hops] at hw
      cases hw
      simpa [hx] using he

end Level

/-! ### Whole evaluations -/

/-- Nothing follows, or a comma, a semicolon, a closing bracket or `goto`. -/
def Ends (rest : List Token) : Prop :=
  ∀ t ∈ rest.head?, t.kind = .punctuation .comma ∨ t.kind = .punctuation .semicolon ∨
    t.kind = .punctuation .rightBracket ∨ t.kind = .keyword .goto

theorem isTerminator_iff {t : Token} :
    t.isTerminator = true ↔ t.kind = .punctuation .comma ∨ t.kind = .punctuation .semicolon ∨
      t.kind = .punctuation .rightBracket ∨ t.kind = .keyword .goto := by
  simp [Token.isTerminator, Token.isPunctuation, Token.isKeyword, or_assoc]

/-- The tokens before an index, and the expressions that are suspended for it and for the indices
around it. -/
inductive Around (s : Store) : List Token → List Suspended → Prop
  | nil : Around s [] []
  | cons {before own : List Token} {name bracket : Token} {level : Level} {outer : List Suspended}
    (h : Around s before outer) (hl : level.Holds s own) (hlast : level.last ≠ .operand)
    (hn : name.kind = .identifier) (hb : bracket.kind = .punctuation .leftBracket) :
    Around s (before ++ own ++ [name, bracket]) (⟨name, level⟩ :: outer)

namespace Yard

variable {s : Store} {length : Nat} {read : List Token} {y : Yard}

/-- The tokens `read` so far, and what an evaluation holds of them. -/
def Holds (s : Store) (read : List Token) (y : Yard) : Prop :=
  ∃ before own, read = before ++ own ∧ Around s before y.outer ∧ y.level.Holds s own

end Yard

/-- Where a step leads that started with `read` behind it and `rest` ahead: further on, with what it
took of `rest`, to the value of `read`, or to a fault that the tokens are to blame for. -/
def Progress.Sound (s : Store) (read rest : List Token) : Progress → Prop
  | .next y => ∃ new, rest = new ++ y.rest ∧ y.Holds s (read ++ new)
  | .done e =>
    match e.value with
    | .ok x => e.rest = rest ∧ Ends rest ∧ Evaluates s .comparison read x
    | .error d => d.cause ≠ .malformed

/-- The value of a name agrees with the value `x` of its tree; if there is none, the fault is a
semantic one. -/
def Resolves (value : Except Diagnostic Float) (x : Option Float) : Prop :=
  match value with
  | .ok z => x = some z
  | .error d => x = none ∧ d.cause.kind = .semantic

theorem resolves_scalar (s : Store) (t : Token) :
    Resolves (scalar s t) ((Tree.scalar t.lexeme).value? s) := by
  unfold scalar
  rw [Tree.value?]
  cases s.get? t.lexeme with
  | some x => exact rfl
  | none => exact ⟨rfl, rfl⟩

theorem resolves_element {s : Store} {index : Tree} {i : Float} (hi : index.value? s = some i)
    (t : Token) (span : Span) :
    Resolves (element s t i span) ((Tree.element t.lexeme index).value? s) := by
  unfold element
  simp only [Tree.value?, hi]
  cases s.element? t.lexeme i with
  | error e => exact ⟨rfl, rfl⟩
  | ok value =>
    cases value with
    | some x => exact rfl
    | none => exact ⟨rfl, rfl⟩

/-- How an evaluation ends after a step. -/
def Progress.finish (s : Store) (length : Nat) : Progress → Evaluation
  | .next y => y.run s length
  | .done e => e

namespace Yard

variable {s : Store} {length : Nat} {read : List Token} {y : Yard}

theorem Holds.move {own before : List Token} (ha : Around s before y.outer) {m : Move} {t : Token}
    {rest : List Token} (hm : m.Sound s (own ++ [t])) :
    (y.move m rest).Sound s (before ++ own) (t :: rest) := by
  unfold Yard.move
  rw [Move.Sound] at hm
  split
  · rename_i l hl
    rw [hl] at hm
    exact ⟨[t], rfl, before, own ++ [t], by simp, ha, hm⟩
  · rename_i d hd
    rw [hd] at hm
    exact hm

/-- Reading a primary value `new`, of which `taken` is still ahead. -/
theorem Holds.operand {own before new taken rest : List Token} (ha : Around s before y.outer)
    (hl : y.level.Holds s own) (hlast : y.level.last ≠ .operand)
    (hread : before ++ own ++ new = read ++ taken) {e : Tree} (he : Derives .primary new e)
    {value : Except Diagnostic Float} (hv : Resolves value (e.value? s)) :
    (y.operand value rest).Sound s read (taken ++ rest) := by
  cases value with
  | ok x =>
    refine ⟨taken, rfl, before, own ++ new, ?_, ha, hl.push hlast ⟨e, he, hv⟩⟩
    rw [← hread, List.append_assoc]
  | error d =>
    intro hc
    have hd := hv.2
    rw [hc] at hd
    cases hd

/-- Ending a level: the value of the whole expression, or of an index whose element is then read. -/
theorem Holds.endLevel (length : Nat) (h : y.Holds s read) (hr : Ends y.rest) :
    (y.endLevel s length).Sound s read y.rest := by
  obtain ⟨before, own, rfl, ha, hl⟩ := h
  have hc := hl.close (Cursor.spanAt y.rest length) y.trace
  unfold Yard.endLevel
  simp only
  cases hv : (y.level.close (Cursor.spanAt y.rest length) y.trace).1 with
  | error d =>
    rw [hv] at hc
    exact hc
  | ok x =>
    rw [hv] at hc
    cases ho : y.outer with
    | nil =>
      rw [ho] at ha
      cases ha
      exact ⟨rfl, hr, hc⟩
    | cons top outer =>
      rw [ho] at ha
      obtain _ | ⟨ha, hlevel, hlast, hn, hb⟩ := ha
      rename_i before own' name bracket level
      cases hrest : y.rest with
      | nil => simp [halt, Progress.Sound]
      | cons t rest =>
        by_cases ht : t.isPunctuation .rightBracket = true
        · simp only [ht, if_true]
          have he : t.kind = .punctuation .rightBracket := by simpa [Token.isPunctuation] using ht
          obtain ⟨index, hindex, hi⟩ := hc
          have hread : before ++ own' ++ (name :: bracket :: (own ++ [t])) =
              before ++ own' ++ [name, bracket] ++ own ++ [t] := by simp
          exact Holds.operand ha hlevel hlast hread (.element hn hb hindex he)
            (resolves_element hi name _)
        · simp [ht, halt, Progress.Sound]

theorem Holds.name (h : y.Holds s read) (hlast : y.level.last ≠ .operand) {t : Token}
    {rest : List Token} (ht : t.kind = .identifier) :
    (y.name s length t rest).Sound s read (t :: rest) := by
  obtain ⟨before, own, rfl, ha, hl⟩ := h
  have hscalar : ∀ rest, (y.operand (scalar s t) rest).Sound s (before ++ own) ([t] ++ rest) :=
    fun rest => Holds.operand ha hl hlast rfl (.scalar ht) (resolves_scalar s t)
  unfold Yard.name
  cases rest with
  | nil => exact hscalar []
  | cons b rest =>
    simp only
    split
    · rename_i hb
      have hb : b.kind = .punctuation .leftBracket := by simpa [Token.isPunctuation] using hb
      exact ⟨[t, b], rfl, before ++ own ++ [t, b], [], by simp, .cons ha hl hlast ht hb,
        Level.holds_init _⟩
    · exact hscalar (b :: rest)

/-- What one step preserves, and what it ends with. -/
theorem Holds.step (length : Nat) (h : y.Holds s read) : (y.step s length).Sound s read y.rest := by
  have hh := h
  obtain ⟨before, own, rfl, ha, hl⟩ := h
  unfold Yard.step
  cases hrest : y.rest with
  | nil => simpa only [hrest] using hh.endLevel length (by simp [Ends, hrest])
  | cons t rest =>
    simp only
    by_cases hterm : t.isTerminator = true
    · rw [if_pos hterm]
      rw [← hrest]
      exact hh.endLevel length (by simpa [Ends, hrest] using isTerminator_iff.mp hterm)
    · rw [if_neg hterm]
      cases hk : t.kind with
      | number x =>
        simp only
        by_cases hlast : y.level.last = .operand
        · simp [hlast, halt, Progress.Sound]
        · rw [if_neg hlast]
          have hread : before ++ own ++ [t] = before ++ own ++ [t] := rfl
          exact Holds.operand ha hl hlast hread (.number hk) rfl
      | identifier =>
        simp only
        by_cases hlast : y.level.last = .operand
        · simp [hlast, halt, Progress.Sound]
        · rw [if_neg hlast]
          exact hh.name hlast hk
      | string => simp [halt, Progress.Sound]
      | keyword word => simp [halt, Progress.Sound]
      | operator op => exact Holds.move ha (hl.operator hk y.trace)
      | punctuation mark =>
        cases mark with
        | leftParen => exact Holds.move ha (hl.openParen hk y.trace)
        | rightParen => exact Holds.move ha (hl.closeParen hk y.trace)
        | _ => simp [halt, Progress.Sound]

theorem run_eq (y : Yard) : y.run s length = (y.step s length).finish s length := by
  rw [Yard.run]
  split <;> rename_i h <;> rw [h] <;> rfl

/-- What a whole evaluation ends with: a value of the tokens it has read, in front of a terminator,
or a fault that the tokens are to blame for. -/
theorem Holds.run (length : Nat) {read : List Token} {y : Yard} (h : y.Holds s read) :
    match (y.run s length).value with
    | .ok x => ∃ new, y.rest = new ++ (y.run s length).rest ∧ Ends (y.run s length).rest ∧
        Evaluates s .comparison (read ++ new) x
    | .error d => d.cause ≠ .malformed := by
  have hs := h.step length
  rw [run_eq]
  cases hstep : y.step s length with
  | next y' =>
    rw [hstep] at hs
    obtain ⟨taken, hrest, hy'⟩ := hs
    have hlt := length_lt_of_step hstep
    have ih := Holds.run length hy'
    rw [Progress.finish]
    split at ih
    · obtain ⟨new, hnew, hends, hx⟩ := ih
      exact ⟨taken ++ new, by rw [hrest, hnew, List.append_assoc], hends,
        by rwa [List.append_assoc] at hx⟩
    · exact ih
  | done e =>
    rw [hstep, Progress.Sound] at hs
    rw [Progress.finish]
    split at hs
    · obtain ⟨hrest, hends, hx⟩ := hs
      exact ⟨[], by simp [hrest], hrest ▸ hends, by simpa using hx⟩
    · exact hs
termination_by y.rest.length

end Yard

end Expression

open Expression

/-- What an evaluation with a value has read, and where it stopped. -/
theorem exists_derives_of_evaluate {s : Store} {c : Cursor} {x : Float}
    (h : (evaluate s c).value = .ok x) :
    ∃ read e, c.rest = read ++ (evaluate s c).rest ∧ Derives .comparison read e ∧
      Ends (evaluate s c).rest ∧ e.value? s = some x := by
  have hinit : Yard.Holds s [] ⟨.init c.here, [], c.rest, []⟩ :=
    ⟨[], [], rfl, .nil, Level.holds_init _⟩
  have hrun := hinit.run c.length
  have hv : (Yard.run s c.length ⟨.init c.here, [], c.rest, []⟩).value = .ok x := h
  rw [hv] at hrun
  obtain ⟨read, hread, hends, e, he, hx⟩ := hrun
  exact ⟨read, e, hread, he, hends, hx⟩

end Primer
