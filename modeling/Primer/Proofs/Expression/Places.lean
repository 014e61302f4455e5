import Primer.Proofs.Expression.Soundness

/-!
# Places of faults

The faults of an evaluation lie where its tokens lie.  What counts as such a place is left open: `G` is
any property of spans that unions keep, it holds of the tokens and of the point behind the text, and
then it holds of every fault.

* `Yard.Placed G y`: all that an evaluation under way could blame has the property.
* `placed_of_evaluate`: so has what it blames in the end.
-/

namespace Primer

/-- A fault with a place that has the property `G`, not pinned to a statement yet. -/
def Diagnostic.Placed (G : Span → Prop) (d : Diagnostic) : Prop := G d.span ∧ d.context = none

/-- Unions of spans with the property `G` have it too. -/
def Span.Joins (G : Span → Prop) : Prop := ∀ a b, G a → G b → G (a.union b)

/-- The tokens lie at places with the property `G`, and so does the end of their text. -/
def Cursor.Placed (G : Span → Prop) (c : Cursor) : Prop :=
  (∀ t ∈ c.rest, G t.span) ∧ G (.single c.length)

theorem Cursor.spanAt_placed {G : Span → Prop} {rest : List Token} {length : Nat}
    (hr : ∀ t ∈ rest, G t.span) (hl : G (.single length)) : G (spanAt rest length) := by
  cases rest with
  | nil => exact hl
  | cons t rest => exact hr t List.mem_cons_self

namespace Expression

variable {G : Span → Prop}

/-! ### Levels -/

/-- Whatever an expression under way could blame has the property `G`. -/
def Level.Placed (G : Span → Prop) (l : Level) : Prop := G l.start ∧ ∀ p ∈ l.held.operators, G p.2

def Move.Placed (G : Span → Prop) (m : Move) : Prop :=
  match m.result with
  | .ok l => l.Placed G
  | .error d => d.Placed G

theorem placed_fault {cause : Cause} {span : Span} (h : G span) (trace : List Reduction) :
    (fault cause span trace).Placed G := ⟨h, rfl⟩

/-- Applying operators leaves some of them and blames one of them at most. -/
theorem unwind_placed (p : Entry → Bool) (operators : List (Entry × Span)) (operands : List Float)
    (trace : List Reduction) (h : ∀ q ∈ operators, G q.2) :
    (∀ place ∈ (unwind p operators operands trace).fault, G place) ∧
      ∀ q ∈ (unwind p operators operands trace).held.operators, G q.2 := by
  induction operators generalizing operands trace with
  | nil => simp [unwind]
  | cons head operators ih =>
    obtain ⟨entry, span⟩ := head
    have htail : ∀ q ∈ operators, G q.2 := fun q hq => h q (List.mem_cons_of_mem _ hq)
    rw [unwind]
    by_cases hp : p entry = true
    · rw [if_pos hp]
      cases entry.apply? operands with
      | none => simpa using ⟨h _ List.mem_cons_self, fun a b => htail (a, b)⟩
      | some r => exact ih r.2 (r.1 :: trace) htail
    · rw [if_neg hp]
      exact ⟨by simp, h⟩

namespace Level

variable {l : Level} {span : Span}

theorem Placed.unwind (h : l.Placed G) (p : Entry → Bool) (trace : List Reduction) :
    (∀ place ∈ (l.unwind p trace).fault, G place) ∧
      ∀ q ∈ (l.unwind p trace).held.operators, G q.2 :=
  unwind_placed p _ _ _ h.2

theorem Placed.wait (h : l.Placed G) (hs : G span) (entry : Entry) : (l.wait entry span).Placed G :=
  ⟨h.1, List.forall_mem_cons.mpr ⟨hs, h.2⟩⟩

theorem Placed.openParen (h : l.Placed G) (hs : G span) (trace : List Reduction) :
    (l.openParen span trace).Placed G := by
  unfold Level.openParen
  split
  · exact placed_fault hs trace
  · exact h.wait hs .paren

theorem Placed.closeParen (h : l.Placed G) (hs : G span) (trace : List Reduction) :
    (l.closeParen span trace).Placed G := by
  unfold Level.closeParen
  split
  · split <;> exact placed_fault hs trace
  · obtain ⟨hfault, hheld⟩ := h.unwind (fun entry => decide (entry ≠ .paren)) trace
    simp only
    split
    · rename_i hplace
      exact placed_fault (hfault _ hplace) _
    · exact placed_fault hs _
    · rename_i top operators _ hoperators
      rw [hoperators] at hheld
      exact ⟨h.1, fun q hq => hheld q (List.mem_cons_of_mem _ hq)⟩

theorem Placed.operator (h : l.Placed G) (hs : G span) (op : Operator) (trace : List Reduction) :
    (l.operator op span trace).Placed G := by
  unfold Level.operator
  split
  · split
    · exact placed_fault hs trace
    · rename_i binary _
      obtain ⟨hfault, hheld⟩ :=
        h.unwind (fun entry => decide (binary.precedence ≤ entry.precedence)) trace
      simp only
      split
      · rename_i hplace
        exact placed_fault (hfault _ hplace) _
      · have hl : Placed G { l with held := (l.unwind _ trace).held } := ⟨h.1, hheld⟩
        exact hl.wait hs (.binary binary)
  · split
    · exact placed_fault hs trace
    · exact placed_fault hs trace
    · exact h.wait hs _

theorem Placed.close (hG : Span.Joins G) (h : l.Placed G) {here : Span} (hh : G here)
    {trace : List Reduction} {d : Diagnostic} (hd : (l.close here trace).1 = .error d) :
    d.Placed G := by
  unfold Level.close at hd
  split at hd
  · cases hd
    exact ⟨h.1, rfl⟩
  · cases hd
    exact ⟨hh, rfl⟩
  · obtain ⟨hfault, hheld⟩ := h.unwind (fun entry => decide (entry ≠ .paren)) trace
    simp only at hd
    split at hd
    · rename_i hplace
      cases hd
      exact ⟨hfault _ hplace, rfl⟩
    · rename_i hoperators
      cases hd
      rw [hoperators] at hheld
      exact ⟨hheld _ List.mem_cons_self, rfl⟩
    · cases hd
    · cases hd
      exact ⟨hG _ _ h.1 hh, rfl⟩

end Level

/-! ### Whole evaluations -/

namespace Yard

/-- Whatever an evaluation under way could blame has the property `G`. -/
def Placed (G : Span → Prop) (y : Yard) : Prop :=
  y.level.Placed G ∧ (∀ q ∈ y.outer, G q.name.span ∧ q.level.Placed G) ∧ ∀ t ∈ y.rest, G t.span

end Yard

/-- A step leads to such a yard again, or blames a place with the property. -/
def Progress.Placed (G : Span → Prop) : Progress → Prop
  | .next y => y.Placed G
  | .done e => ∀ d, e.value = .error d → d.Placed G

theorem placed_of_scalar {s : Store} {name : Token} (hn : G name.span) {d : Diagnostic}
    (hd : scalar s name = .error d) : d.Placed G := by
  unfold scalar at hd
  split at hd <;> cases hd
  exact ⟨hn, rfl⟩

theorem placed_of_element {s : Store} {name : Token} {index : Float} {span : Span} (hs : G span)
    {d : Diagnostic} (hd : element s name index span = .error d) : d.Placed G := by
  unfold element at hd
  split at hd <;> cases hd <;> exact ⟨hs, rfl⟩

namespace Yard

variable {s : Store} {length : Nat} {y : Yard} {rest : List Token}

theorem placed_halt {value : Except Diagnostic Float} (h : ∀ d, value = .error d → d.Placed G) :
    (y.halt value rest).Placed G := h

theorem Placed.move (h : y.Placed G) (hr : ∀ t ∈ rest, G t.span) {m : Move} (hm : m.Placed G) :
    (y.move m rest).Placed G := by
  unfold Yard.move
  unfold Move.Placed at hm
  split <;> rename_i hresult <;> rw [hresult] at hm
  · exact ⟨hm, h.2.1, hr⟩
  · intro d hd
    cases hd
    exact hm

theorem Placed.operand (h : y.Placed G) (hr : ∀ t ∈ rest, G t.span)
    {value : Except Diagnostic Float} (hv : ∀ d, value = .error d → d.Placed G) :
    (y.operand value rest).Placed G := by
  unfold Yard.operand
  split
  · exact ⟨h.1, h.2.1, hr⟩
  · exact placed_halt hv

theorem Placed.endLevel (hG : Span.Joins G) (hl : G (.single length)) (h : y.Placed G) :
    (y.endLevel s length).Placed G := by
  obtain ⟨hlevel, houter, hrest⟩ := h
  have hhere : G (Cursor.spanAt y.rest length) := Cursor.spanAt_placed hrest hl
  have hclose : ∀ d, (y.level.close (Cursor.spanAt y.rest length) y.trace).1 = .error d →
      d.Placed G := fun d => hlevel.close hG hhere
  unfold Yard.endLevel
  simp only
  split
  · rename_i hvalue
    exact placed_halt fun d hd => hclose d (hd ▸ hvalue)
  · exact placed_halt fun d hd => by cases hd
  · rename_i index name level outer _ hy
    have hunclosed : Diagnostic.Placed G ⟨.unclosedIndex, Cursor.spanAt y.rest length, none⟩ :=
      ⟨hhere, rfl⟩
    rw [hy] at houter
    obtain ⟨⟨hname, hlevel'⟩, houter'⟩ := List.forall_mem_cons.mp houter
    split
    · rename_i t rest hr
      rw [hr] at hrest
      have hrest' := (List.forall_mem_cons.mp hrest).2
      split
      · refine Placed.operand ⟨hlevel', houter', ?_⟩ hrest' fun d hd => placed_of_element ?_ hd
        · exact hr ▸ hrest
        · exact hG _ _ hname (Cursor.spanAt_placed hrest' hl)
      · exact placed_halt fun d hd => by cases hd; exact hunclosed
    · exact placed_halt fun d hd => by cases hd; exact hunclosed

theorem Placed.name (hl : G (.single length)) (h : y.Placed G) {t : Token} (ht : G t.span)
    (hr : ∀ t ∈ rest, G t.span) : (y.name s length t rest).Placed G := by
  have hscalar : ∀ d, scalar s t = .error d → d.Placed G := fun d => placed_of_scalar ht
  unfold Yard.name
  split
  · exact h.operand hr hscalar
  · rename_i t' rest'
    have hr' := (List.forall_mem_cons.mp hr).2
    split
    · exact ⟨⟨Cursor.spanAt_placed hr' hl, by simp [Level.init]⟩,
        List.forall_mem_cons.mpr ⟨⟨ht, h.1⟩, h.2.1⟩, hr'⟩
    · exact h.operand hr hscalar

/-- What one step preserves, and what it blames. -/
theorem Placed.step (hG : Span.Joins G) (hl : G (.single length)) (h : y.Placed G) :
    (y.step s length).Placed G := by
  unfold Yard.step
  split
  · exact h.endLevel hG hl
  · rename_i t rest hr
    have hrest := h.2.2
    rw [hr] at hrest
    obtain ⟨ht, hrest'⟩ := List.forall_mem_cons.mp hrest
    have hhalt : ∀ cause, (y.halt (.error ⟨cause, t.span, none⟩) rest).Placed G :=
      fun cause => placed_halt fun d hd => by cases hd; exact ⟨ht, rfl⟩
    split
    · exact h.endLevel hG hl
    · split
      · split
        · exact hhalt _
        · exact h.operand hrest' fun d hd => by cases hd
      · split
        · exact hhalt _
        · exact h.name hl ht hrest'
      · exact h.move hrest' (h.1.openParen ht y.trace)
      · exact h.move hrest' (h.1.closeParen ht y.trace)
      · exact h.move hrest' (h.1.operator ht _ y.trace)
      · exact hhalt _
      · exact hhalt _
      · exact hhalt _

theorem Placed.run (hG : Span.Joins G) (hl : G (.single length)) {y : Yard} (h : y.Placed G)
    {d : Diagnostic} (hd : (y.run s length).value = .error d) : d.Placed G := by
  have hs := h.step (s := s) hG hl
  rw [run_eq] at hd
  cases hstep : y.step s length with
  | next y' =>
    rw [hstep] at hs hd
    have hlt := length_lt_of_step hstep
    exact Placed.run hG hl hs hd
  | done e =>
    rw [hstep] at hs hd
    exact hs d hd
termination_by y.rest.length

end Yard

end Expression

open Expression

variable {G : Span → Prop} {s : Store} {c : Cursor} {d : Diagnostic}

theorem placed_of_evaluate (hG : Span.Joins G) (hc : c.Placed G)
    (hd : (evaluate s c).value = .error d) : d.Placed G := by
  have hhere : G c.here := Cursor.spanAt_placed hc.1 hc.2
  have hinit : Yard.Placed G ⟨.init c.here, [], c.rest, []⟩ :=
    ⟨⟨hhere, by simp [Level.init]⟩, by simp, hc.1⟩
  exact hinit.run hG hc.2 hd

end Primer
