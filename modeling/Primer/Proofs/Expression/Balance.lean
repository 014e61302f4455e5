import Mathlib.Data.List.Chain
import Primer.Proofs.Expression.Soundness

/-!
# Balance of the stacks

An expression under way holds one operand for each operation that waits for its right one, and one more where
the last thing read was an operand.  The balance alone, without the grammar, is enough for every application
of an operator to find what it needs.

* `Stacks.Balanced held spare`: there are `spare` operands more than operations, and no sign stands on a sign.
* `Stacks.reduce?`: the operator on top is applied, if there is one and it finds its operands.
* `Unwinding p held held'`: `held'` is met while the operators of `held` are applied as long as `p` holds of
  the one on top.  `Stacks.Balanced.unwind` says that this never fails.
* `Yard.Balanced y`: the levels of an evaluation are balanced.  `Yard.Balanced.step` and `Yard.Balanced.run`
  carry it along, and no fault that an evaluation ends with is one of the stacks.
* `evaluate_balanced`: so it is for all that an evaluation goes through.
-/

namespace Primer

/-- The faults that the tokens of an expression or the store can be to blame for. -/
def Cause.isOfExpression : Cause → Bool
  | .missingExpression | .unclosedIndex | .adjacentOperands | .operandBeforeParen | .emptyParens
  | .unfinishedParens | .unopenedParen | .unclosedParen | .repeatedSign .. | .missingLeft _
  | .notBinary _ | .trailingOperator | .stringOperand | .unexpected _ | .unassigned ..
  | .uninitialized .. | .store _ => true
  | _ => false

namespace Expression

def Entry.isUnary : Entry → Bool
  | .unary _ => true
  | _ => false

def Entry.isBinary : Entry → Bool
  | .binary _ => true
  | _ => false

/-! ### Balanced stacks -/

/-- The number of operations that wait for their right operand. -/
def binaries (operators : List (Entry × Span)) : Nat := operators.countP (·.1.isBinary)

@[simp] theorem binaries_nil : binaries [] = 0 := rfl

@[simp] theorem binaries_cons (entry : Entry) (span : Span) (operators : List (Entry × Span)) :
    binaries ((entry, span) :: operators) = binaries operators + if entry.isBinary then 1 else 0 :=
  List.countP_cons

/-- No sign stands on a sign. -/
def SignsApart (operators : List (Entry × Span)) : Prop :=
  operators.IsChain fun above below => ¬(above.1.isUnary = true ∧ below.1.isUnary = true)

namespace Stacks

/-- There are `spare` operands more than operations that wait for one, and no sign stands on a sign. -/
structure Balanced (held : Stacks) (spare : Nat) : Prop where
  operands : held.operands.length = binaries held.operators + spare
  signs : SignsApart held.operators

/-- Takes the operator on top and applies it; there has to be one, it can be no parenthesis, and it has to
find its operands. -/
def reduce? (held : Stacks) : Option Stacks :=
  match held.operators with
  | [] => none
  | (entry, _) :: operators => Option.map (fun r => ⟨operators, r.2⟩) <| entry.apply? held.operands

/-- There is an operator on top that `p` holds of. -/
def Due (p : Entry → Bool) (held : Stacks) : Prop := ∃ top ∈ held.operators.head?, p top.1 = true

variable {held held' : Stacks} {p : Entry → Bool}

theorem balanced_nil : Balanced ⟨[], []⟩ 0 := ⟨rfl, .nil⟩

/-- One operand too many is what every operator needs: it takes what it waits for, and puts its result in the
place of the one too many. -/
theorem Balanced.reduce? (h : held.Balanced 1) (hp : p .paren = false) (hdue : held.Due p) :
    ∃ held', held.reduce? = some held' ∧ held'.Balanced 1 := by
  obtain ⟨operators, operands⟩ := held
  obtain ⟨⟨entry, span⟩, htop, hentry⟩ := hdue
  obtain ⟨below, rfl⟩ := List.head?_eq_some_iff.mp htop
  have hcount := h.operands
  have hsigns : SignsApart below := h.signs.tail
  cases entry with
  | paren =>
    rw [hp] at hentry
    cases hentry
  | unary op =>
    have hcount : operands.length = binaries below + 1 := by simpa [Entry.isBinary] using hcount
    obtain ⟨x, operands, rfl⟩ := List.exists_cons_of_length_eq_add_one hcount
    exact ⟨_, rfl, hcount, hsigns⟩
  | binary op =>
    have hcount : operands.length = binaries below + 1 + 1 := by simpa [Entry.isBinary] using hcount
    obtain ⟨right, operands, rfl⟩ := List.exists_cons_of_length_eq_add_one hcount
    have hcount : operands.length = binaries below + 1 := Nat.succ.inj hcount
    obtain ⟨left, operands, rfl⟩ := List.exists_cons_of_length_eq_add_one hcount
    exact ⟨_, rfl, hcount, hsigns⟩

end Stacks

/-- The stacks that are met while operators are applied as long as `p` holds of the one on top. -/
inductive Unwinding (p : Entry → Bool) (held : Stacks) : Stacks → Prop
  | start : Unwinding p held held
  | applied {middle held' : Stacks} (h : Unwinding p held middle) (hdue : middle.Due p)
    (hreduce : middle.reduce? = some held') : Unwinding p held held'

/-- What operators are applied by: up to a parenthesis, or those that bind at least as tightly as an
operation. -/
inductive Sweep : (Entry → Bool) → Prop
  | toParen : Sweep (· ≠ .paren)
  | tighter (op : BinaryOp) : Sweep (op.precedence ≤ ·.precedence)

theorem Sweep.paren {p : Entry → Bool} (h : Sweep p) : p .paren = false := by
  cases h with
  | toParen => rfl
  | tighter op => cases op <;> rfl

/-- The balance is kept by each application, so it holds of all stacks that are met. -/
theorem Unwinding.balanced {p : Entry → Bool} {held held' : Stacks} (hp : p .paren = false)
    (hb : held.Balanced 1) (h : Unwinding p held held') : held'.Balanced 1 := by
  induction h with
  | start => exact hb
  | applied _ hdue hreduce ih =>
    obtain ⟨next, hnext, hbalanced⟩ := ih.reduce? hp hdue
    rw [hreduce] at hnext
    cases hnext
    exact hbalanced

theorem Unwinding.trans {p : Entry → Bool} {held middle held' : Stacks} (h : Unwinding p held middle)
    (h' : Unwinding p middle held') : Unwinding p held held' := by
  induction h' with
  | start => exact h
  | applied _ hdue hreduce ih => exact .applied ih hdue hreduce

/-- Unwinding goes on to stacks where nothing is due, and no operator lacks an operand on the way. -/
theorem Stacks.Balanced.unwind {p : Entry → Bool} (hp : p .paren = false) :
    ∀ {operators : List (Entry × Span)} {operands : List Float},
      Balanced ⟨operators, operands⟩ 1 → ∀ trace, ∃ held trace',
        unwind p operators operands trace = ⟨none, held, trace'⟩ ∧
          Unwinding p ⟨operators, operands⟩ held ∧ ¬held.Due p := by
  intro operators
  induction operators with
  | nil =>
    intro operands _ trace
    exact ⟨_, _, rfl, .start, by simp [Due]⟩
  | cons top operators ih =>
    intro operands h trace
    obtain ⟨entry, span⟩ := top
    by_cases hentry : p entry = true
    · have hdue : Due p ⟨(entry, span) :: operators, operands⟩ := ⟨_, rfl, hentry⟩
      obtain ⟨held', hreduce, hb⟩ := h.reduce? hp hdue
      obtain ⟨r, happly, rfl⟩ := Option.map_eq_some_iff.mp hreduce
      obtain ⟨held, trace', hunwind, hunwinding, hdone⟩ := ih hb (r.1 :: trace)
      refine ⟨held, trace', ?_, (Unwinding.start.applied hdue hreduce).trans hunwinding, hdone⟩
      rw [Expression.unwind, if_pos hentry, happly]
      exact hunwind
    · refine ⟨_, _, by rw [Expression.unwind, if_neg hentry], .start, ?_⟩
      rintro ⟨_, htop, htrue⟩
      cases htop
      exact hentry htrue

/-! ### One expression under way -/

/-- The operands that an expression holds beyond one for each operation: one behind an operand, and none
elsewhere. -/
def Last.spare : Last → Nat
  | .operand => 1
  | .nothing | .operator => 0

/-- The stacks of a level are balanced. -/
def Level.Balanced (l : Level) : Prop := l.held.Balanced l.last.spare

/-- A move to a balanced level, or to a fault that the tokens are to blame for. -/
def Move.Balanced (m : Move) : Prop :=
  match m.result with
  | .ok l => l.Balanced
  | .error d => d.cause.isOfExpression = true

namespace Level

variable {l : Level}

theorem balanced_init (start : Span) : (init start).Balanced := Stacks.balanced_nil

theorem Balanced.due (h : l.Balanced) (hl : l.last ≠ .operand) : l.held.Balanced 0 := by
  unfold Balanced at h
  cases hlast : l.last with
  | operand => exact absurd hlast hl
  | nothing => rwa [hlast] at h
  | operator => rwa [hlast] at h

theorem Balanced.complete (h : l.Balanced) (hl : l.last = .operand) : l.held.Balanced 1 := by
  unfold Balanced at h
  rwa [hl] at h

theorem Balanced.unwind (h : l.Balanced) (hl : l.last = .operand) {p : Entry → Bool} (hp : Sweep p)
    (trace : List Reduction) :
    ∃ held trace', l.unwind p trace = ⟨none, held, trace'⟩ ∧ Unwinding p l.held held ∧ ¬held.Due p ∧
      held.Balanced 1 := by
  have hb := h.complete hl
  obtain ⟨held, trace', hunwind, hunwinding, hdone⟩ := Stacks.Balanced.unwind hp.paren hb trace
  exact ⟨held, trace', hunwind, hunwinding, hdone, hunwinding.balanced hp.paren hb⟩

theorem Balanced.push (h : l.Balanced) (hl : l.last ≠ .operand) (x : Float) : (l.push x).Balanced := by
  have hdue := h.due hl
  exact ⟨congrArg (· + 1) hdue.operands, hdue.signs⟩

theorem Balanced.openParen (h : l.Balanced) (span : Span) (trace : List Reduction) :
    (l.openParen span trace).Balanced := by
  unfold Level.openParen
  by_cases hl : l.last = .operand
  · rw [if_pos hl]
    rfl
  · rw [if_neg hl]
    have hdue := h.due hl
    refine ⟨?_, List.isChain_cons.mpr ⟨by simp [Entry.isUnary], hdue.signs⟩⟩
    simpa [wait, Entry.isBinary, Last.spare] using hdue.operands

theorem Balanced.closeParen (h : l.Balanced) (span : Span) (trace : List Reduction) :
    (l.closeParen span trace).Balanced := by
  unfold Level.closeParen
  by_cases hl : l.last = .operand
  · rw [if_neg (by simpa using hl)]
    obtain ⟨held, trace', hunwind, -, hdone, hb⟩ := h.unwind hl .toParen trace
    simp only [hunwind]
    cases hoperators : held.operators with
    | nil => rfl
    | cons top operators =>
      -- what stops the unwinding is the parenthesis, which waits for nothing
      obtain ⟨entry, place⟩ := top
      have hparen : entry = .paren := by
        by_contra hne
        exact hdone ⟨_, by rw [hoperators]; rfl, by simpa using hne⟩
      subst hparen
      obtain ⟨hoperands, hsigns⟩ := hb
      rw [hoperators] at hoperands hsigns
      refine ⟨?_, hsigns.tail⟩
      simpa [Entry.isBinary, Last.spare] using hoperands
  · rw [if_pos hl]
    split <;> rfl

theorem Balanced.operator (h : l.Balanced) (op : Operator) (span : Span) (trace : List Reduction) :
    (l.operator op span trace).Balanced := by
  unfold Level.operator
  by_cases hl : l.last = .operand
  · rw [if_pos hl]
    split
    · rfl
    · rename_i binary _
      obtain ⟨held, trace', hunwind, -, -, hb⟩ := h.unwind hl (.tighter binary) trace
      simp only [hunwind]
      refine ⟨?_, List.isChain_cons.mpr ⟨by simp [Entry.isUnary], hb.signs⟩⟩
      simpa [wait, Entry.isBinary, Last.spare] using hb.operands
  · rw [if_neg hl]
    have hdue := h.due hl
    split
    · rfl
    · rfl
    · rename_i unary _ hnot
      -- no sign is on top, or this one would have been refused
      refine ⟨?_, List.isChain_cons.mpr ⟨fun below hbelow => ?_, hdue.signs⟩⟩
      · simpa [wait, Entry.isBinary, Last.spare] using hdue.operands
      · rintro ⟨-, hunary⟩
        obtain ⟨entry, place⟩ := below
        obtain ⟨operators, hoperators⟩ := List.head?_eq_some_iff.mp hbelow
        cases entry with
        | unary previous => exact hnot previous place operators hoperators
        | _ => cases hunary

theorem Balanced.close (h : l.Balanced) {here : Span} {trace : List Reduction} {d : Diagnostic}
    (hd : (l.close here trace).1 = .error d) : d.cause.isOfExpression = true := by
  unfold Level.close at hd
  split at hd
  · cases hd
    rfl
  · cases hd
    rfl
  · rename_i hl
    obtain ⟨held, trace', hunwind, -, -, hb⟩ := h.unwind hl .toParen trace
    simp only [hunwind] at hd
    cases hoperators : held.operators with
    | cons top operators =>
      rw [hoperators] at hd
      cases hd
      rfl
    | nil =>
      -- with no operator left there is one operand
      have hcount := hb.operands
      rw [hoperators] at hcount
      obtain ⟨x, hx⟩ := List.length_eq_one_iff.mp hcount
      rw [hoperators, hx] at hd
      cases hd

end Level

/-! ### Whole evaluations -/

/-- The level under way is balanced, and so are those that are suspended, each of which waits for an
operand. -/
structure Yard.Balanced (y : Yard) : Prop where
  level : y.level.Balanced
  outer : ∀ o ∈ y.outer, o.level.Balanced ∧ o.level.last ≠ .operand

/-- A step leads to balanced levels again, or ends with no fault of the stacks. -/
def Progress.Balanced : Progress → Prop
  | .next y => y.Balanced
  | .done e => ∀ d, e.value = .error d → d.cause.isOfExpression = true

theorem isOfExpression_of_scalar {s : Store} {name : Token} {d : Diagnostic}
    (hd : scalar s name = .error d) : d.cause.isOfExpression = true := by
  unfold scalar at hd
  split at hd <;> cases hd
  rfl

theorem isOfExpression_of_element {s : Store} {name : Token} {index : Float} {span : Span}
    {d : Diagnostic} (hd : element s name index span = .error d) : d.cause.isOfExpression = true := by
  unfold element at hd
  split at hd <;> cases hd <;> rfl

namespace Yard

variable {s : Store} {length : Nat} {y : Yard} {rest : List Token}

theorem balanced_halt {cause : Cause} {span : Span} (h : cause.isOfExpression = true) :
    (y.halt (.error ⟨cause, span, none⟩) rest).Balanced := by
  intro d hd
  cases hd
  exact h

theorem Balanced.move (h : y.Balanced) {m : Move} (hm : m.Balanced) : (y.move m rest).Balanced := by
  unfold Yard.move
  unfold Move.Balanced at hm
  split <;> rename_i hresult <;> rw [hresult] at hm
  · exact ⟨hm, h.outer⟩
  · intro d hd
    cases hd
    exact hm

theorem Balanced.operand (h : y.Balanced) (hl : y.level.last ≠ .operand)
    {value : Except Diagnostic Float} (hv : ∀ d, value = .error d → d.cause.isOfExpression = true) :
    (y.operand value rest).Balanced := by
  unfold Yard.operand
  split
  · exact ⟨h.level.push hl _, h.outer⟩
  · exact hv

theorem Balanced.endLevel (h : y.Balanced) : (y.endLevel s length).Balanced := by
  unfold Yard.endLevel
  simp only
  split
  · rename_i hclose
    intro d hd
    cases hd
    exact h.level.close hclose
  · intro d hd
    cases hd
  · rename_i index name level outer _ houter
    have hall := h.outer
    rw [houter] at hall
    obtain ⟨⟨hlevel, hlast⟩, hmore⟩ := List.forall_mem_cons.mp hall
    split
    · split
      · exact Balanced.operand ⟨hlevel, hmore⟩ hlast fun d => isOfExpression_of_element
      · exact balanced_halt rfl
    · exact balanced_halt rfl

theorem Balanced.name (h : y.Balanced) (hl : y.level.last ≠ .operand) (t : Token) :
    (y.name s length t rest).Balanced := by
  unfold Yard.name
  split
  · exact h.operand hl fun d => isOfExpression_of_scalar
  · split
    · exact ⟨Level.balanced_init _, List.forall_mem_cons.mpr ⟨⟨h.level, hl⟩, h.outer⟩⟩
    · exact h.operand hl fun d => isOfExpression_of_scalar

/-- What one step preserves, and that its faults are none of the stacks. -/
theorem Balanced.step (h : y.Balanced) : (y.step s length).Balanced := by
  unfold Yard.step
  split
  · exact h.endLevel
  · split
    · exact h.endLevel
    · split
      · split
        · exact balanced_halt rfl
        · rename_i hl
          exact h.operand hl fun d hd => by cases hd
      · split
        · exact balanced_halt rfl
        · rename_i hl
          exact h.name hl _
      · exact h.move (h.level.openParen _ _)
      · exact h.move (h.level.closeParen _ _)
      · exact h.move (h.level.operator _ _ _)
      · exact balanced_halt rfl
      · exact balanced_halt rfl
      · exact balanced_halt rfl

/-- No evaluation ends with a fault of the stacks. -/
theorem Balanced.run {y : Yard} (h : y.Balanced) {d : Diagnostic}
    (hd : (y.run s length).value = .error d) : d.cause.isOfExpression = true := by
  have hs : (y.step s length).Balanced := h.step
  rw [run_eq] at hd
  cases hstep : y.step s length with
  | next y' =>
    rw [hstep] at hs hd
    have hlt := length_lt_of_step hstep
    exact Balanced.run hs hd
  | done e =>
    rw [hstep] at hs hd
    exact hs d hd
termination_by y.rest.length

/-- The states that an evaluation goes through. -/
inductive Reached (s : Store) (c : Cursor) : Yard → Prop
  | start : Reached s c ⟨.init c.here, [], c.rest, []⟩
  | next {y y' : Yard} (h : Reached s c y) (hstep : y.step s c.length = .next y') : Reached s c y'

theorem balanced_start (c : Cursor) : Balanced ⟨.init c.here, [], c.rest, []⟩ :=
  ⟨Level.balanced_init _, by simp⟩

theorem Reached.balanced {c : Cursor} (h : Reached s c y) : y.Balanced := by
  induction h with
  | start => exact balanced_start c
  | next _ hstep ih =>
    have hs : (Yard.step s c.length _).Balanced := ih.step
    rwa [hstep] at hs

/-- The levels of an evaluation, innermost first. -/
def levels (y : Yard) : List Level := y.level :: y.outer.map Suspended.level

end Yard

end Expression

/-! ### Wording -/

/-- The text begins with `lead`. -/
inductive Begins (lead : String) : String → Prop
  | self : Begins lead lead
  | append {text : String} (h : Begins lead text) (more : String) : Begins lead (text ++ more)

theorem Begins.isPrefix {lead text : String} (h : Begins lead text) : lead.toList <+: text.toList := by
  induction h with
  | self => exact List.prefix_rfl
  | append _ more ih => simpa using ih.trans (List.prefix_append _ more.toList)

theorem Begins.ne {lead text text' : String} (h : Begins lead text)
    (h' : ¬lead.toList <+: text'.toList) : text ≠ text' := by
  rintro rfl
  exact h' h.isPrefix

/-- The faults that what is read before an expression has ruled out, and the one that the stacks rule out. -/
def Cause.ruledOut : List Cause := [.malformed, .missingTarget, .missingEqual]

theorem StoreError.message_ne (e : StoreError) : ∀ cause ∈ Cause.ruledOut, e.message ≠ cause.message := by
  have hne : ∀ {lead : String}, Begins lead e.message →
      (∀ cause ∈ Cause.ruledOut, ¬lead.toList <+: cause.message.toList) →
      ∀ cause ∈ Cause.ruledOut, e.message ≠ cause.message :=
    fun h hlead cause hcause => h.ne (hlead cause hcause)
  cases e with
  | redeclared => exact hne (show Begins "Cannot redeclare an existing array." _ from .self) (by decide)
  | invalidSize | fractionalSize | undeclared | negativeIndex =>
    exact hne ((Begins.self.append _).append _) (by decide)
  | fractionalIndex => exact hne (((Begins.self.append _).append _).append _) (by decide)
  | outOfBounds =>
    exact hne ((((((Begins.self.append _).append _).append _).append _).append _).append _) (by decide)

/-- What the tokens of an expression or the store are to blame for is worded otherwise. -/
theorem Cause.message_ne {cause : Cause} (h : cause.isOfExpression = true) :
    ∀ other ∈ ruledOut, cause.message ≠ other.message := by
  have hne : ∀ {lead : String}, Begins lead cause.message →
      (∀ other ∈ ruledOut, ¬lead.toList <+: other.message.toList) →
      ∀ other ∈ ruledOut, cause.message ≠ other.message :=
    fun h hlead other hother => h.ne (hlead other hother)
  cases cause with
  | missingExpression | unclosedIndex | adjacentOperands | operandBeforeParen | emptyParens
  | unfinishedParens | unopenedParen | unclosedParen | trailingOperator | stringOperand => decide
  | repeatedSign previous => cases previous <;> exact hne ((Begins.self.append _).append _) (by decide)
  | missingLeft | notBinary | unexpected | unassigned =>
    exact hne ((Begins.self.append _).append _) (by decide)
  | uninitialized => exact hne ((((Begins.self.append _).append _).append _).append _) (by decide)
  | store error => exact error.message_ne
  | _ => cases h

/-! ### Evaluations -/

open Expression

/-- An evaluation fails because of its tokens or of the store. -/
theorem isOfExpression_of_evaluate {s : Store} {c : Cursor} {d : Diagnostic}
    (hd : (evaluate s c).value = .error d) : d.cause.isOfExpression = true :=
  (Yard.balanced_start c).run hd

/-- **The stacks of an evaluation are balanced.**  Wherever an evaluation is, each of its levels holds one
operand for every operation that waits, one more behind an operand, and no sign on a sign.  So wherever it
applies operators, each that is due is there with its operands, and where none is left there is one value; it
never ends with the fault of an expression that the stacks do not fit. -/
theorem evaluate_balanced (s : Store) (c : Cursor) :
    (∀ y, Yard.Reached s c y →
      (∀ l ∈ y.levels,
        (l.last = .operand → l.held.operands.length = binaries l.held.operators + 1) ∧
        (l.last ≠ .operand → l.held.operands.length = binaries l.held.operators) ∧
        SignsApart l.held.operators) ∧
      (y.level.last = .operand → ∀ p, Sweep p →
        (∀ trace, ∃ held trace', y.level.unwind p trace = ⟨none, held, trace'⟩ ∧
          Unwinding p y.level.held held ∧ ¬held.Due p) ∧
        ∀ held, Unwinding p y.level.held held →
          (held.Due p → ∃ held', held.reduce? = some held') ∧
          (held.operators = [] → ∃ x, held.operands = [x]))) ∧
    ∀ d, (evaluate s c).value = .error d → d.cause.message ≠ "Invalid Arithmetic Expression" := by
  refine ⟨fun y hy => ⟨fun l hl => ?_, fun hlast p hp => ⟨fun trace => ?_, fun held hheld => ?_⟩⟩,
    fun d hd => Cause.message_ne (isOfExpression_of_evaluate hd) .malformed (by decide)⟩
  · have hb : l.Balanced := by
      rcases List.mem_cons.mp hl with rfl | hl
      · exact hy.balanced.level
      · obtain ⟨o, ho, rfl⟩ := List.mem_map.mp hl
        exact (hy.balanced.outer o ho).1
    exact ⟨fun hlast => (hb.complete hlast).operands, fun hlast => (hb.due hlast).operands, hb.signs⟩
  · obtain ⟨held, trace', hunwind, hunwinding, hdone, -⟩ := hy.balanced.level.unwind hlast hp trace
    exact ⟨held, trace', hunwind, hunwinding, hdone⟩
  · have hb := hheld.balanced hp.paren (hy.balanced.level.complete hlast)
    refine ⟨fun hdue => ?_, fun hempty => ?_⟩
    · obtain ⟨held', hreduce, -⟩ := hb.reduce? hp.paren hdue
      exact ⟨held', hreduce⟩
    · have hcount := hb.operands
      rw [hempty] at hcount
      exact List.length_eq_one_iff.mp hcount

end Primer
