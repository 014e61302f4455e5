import Primer.Proofs.Machine.Session
import Primer.Proofs.Program.Offsets

/-!
# What holds in every session

* `Program.Marked p`: the labels of the program mark statements of it.
* `Machine.Valid m`: the counter, the labels and the store are in order.
* `Machine.Reaches m m'`: a session that is at `m` can come to `m'`.
* `session_invariant`: sessions stay in order, and what a store holds is never lost.
-/

namespace Primer

open Source

variable {I O : Type}

/-! ### Labels -/

namespace Program

/-- Every label marks a statement. -/
def Marked (p : Program) : Prop :=
  ∀ (label : String) (i : Nat), p.location? label = some i → i < p.statements.size

/-- A new label marks the place of the statement that comes next. -/
theorem Marked.addLabel {p p' : Program} (h : p.Marked) {name : Option (List Char)}
    (hadd : p.addLabel name = .ok p') :
    ∀ (label : String) (i : Nat), p'.location? label = some i → i ≤ p.statements.size := by
  intro label i hi
  unfold Program.addLabel at hadd
  split at hadd
  · cases hadd
    exact Nat.le_of_lt (h label i hi)
  · rename_i word
    split at hadd <;> cases hadd
    have hi : (p.labels.insert (String.ofList word) p.statements.size)[label]? = some i := hi
    rw [Std.ExtTreeMap.getElem?_insert] at hi
    split at hi
    · exact Nat.le_of_eq (Option.some.inj hi).symm
    · exact Nat.le_of_lt (h label i hi)

theorem Marked.addCode {p p' : Program} (h : p.Marked) {l : CodeLine} (hadd : p.addCode l = .ok p') :
    p'.Marked := by
  rw [addCode_eq] at hadd
  split at hadd
  · cases hadd
  · split at hadd
    · cases hadd
    · split at hadd
      · cases hadd
      · rename_i p₁ hlabel
        cases hadd
        intro label i hi
        have hle := h.addLabel hlabel label i hi
        have hsize := congrArg Array.size (statements_of_addLabel hlabel)
        simp only [Array.size_push]
        omega

theorem Marked.foldlM {ls : List CodeLine} {p p' : Program} (h : p.Marked)
    (hadd : ls.foldlM addLine p = .ok p') : p'.Marked := by
  induction ls generalizing p with
  | nil =>
    cases hadd
    exact h
  | cons l ls ih =>
    obtain ⟨p₁, hcode, hrest⟩ := addCode_of_foldlM hadd
    exact ih (h.addCode hcode) hrest

/-- Programs are loaded with labels that mark their statements. -/
theorem marked_of_load {source : String} {p : Program} (h : load source = .ok p) : p.Marked := by
  refine Marked.foldlM (fun label i hi => ?_) (foldlM_of_load h)
  simp [location?, empty] at hi

end Program

/-! ### Jumps -/

namespace Action

/-- Where the action jumps, a label marks the place. -/
def Lands (a : Action I O Flow) : Prop :=
  ∀ w, Leads a w
    (fun flow w' => ∀ i, flow = .jump i → ∃ label, w'.machine.program.location? label = some i)
    (fun _ _ => True)

theorem lands_pure {flow : Flow} (h : ∀ i, flow ≠ .jump i) : Lands (pure flow : Action I O Flow) :=
  fun _ => leads_pure.mpr fun i hi => absurd hi (h i)

/-- What comes before the end of a statement says nothing about its jump. -/
theorem lands_bind {α : Type} {a : Action I O α} {f : α → Action I O Flow} (h : ∀ x, Lands (f x)) :
    Lands (a >>= f) := by
  intro w
  have htrue : Leads a w (fun _ _ => True) (fun _ _ => True) := by
    unfold Leads
    split <;> trivial
  exact htrue.bind (fun x w' _ => h x w') fun _ _ _ => trivial

theorem lands_target (label : Token) :
    Lands (target label >>= fun i => pure (.jump i) : Action I O Flow) := by
  intro w
  unfold target
  rw [bind_assoc]
  refine leads_bind.mpr (leads_get.mpr ?_)
  cases hi : w.machine.program.location? label.lexeme with
  | none => trivial
  | some i =>
    refine leads_pure.mpr fun j hj => ⟨label.lexeme, ?_⟩
    cases hj
    exact hi

theorem lands_conditional : Lands (conditional : Action I O Flow) := by
  refine lands_bind fun _ => lands_bind fun condition => lands_bind fun _ => lands_bind fun label => ?_
  refine lands_bind fun _ => ?_
  split
  · exact lands_target label
  · exact lands_pure (by simp)

theorem lands_goto : Lands (goto : Action I O Flow) :=
  lands_bind fun label => lands_bind fun _ => lands_target label

theorem lands_assignment : Lands (assignment : Action I O Flow) :=
  lands_bind fun _ => lands_bind fun _ => lands_bind fun _ => lands_bind fun _ => lands_bind fun _ =>
    lands_bind fun _ => lands_bind fun _ => lands_pure (by simp)

theorem lands_dim : Lands (dim : Action I O Flow) :=
  lands_bind fun _ => lands_bind fun _ => lands_bind fun _ => lands_bind fun _ => lands_bind fun _ =>
    lands_bind fun _ => lands_bind fun _ => lands_bind fun _ => lands_pure (by simp)

theorem lands_print [Writer O] : Lands (print : Action I O Flow) :=
  lands_bind fun _ => lands_bind fun _ => lands_bind fun _ => lands_bind fun _ => lands_pure (by simp)

theorem lands_read [Reader I] [Writer O] : Lands (read : Action I O Flow) :=
  lands_bind fun _ => lands_bind fun _ => lands_bind fun _ => lands_bind fun _ => lands_pure (by simp)

/-- Statements jump to marked places alone. -/
theorem lands_statement [Reader I] [Writer O] (kind : StatementKind) :
    Lands (statement kind : Action I O Flow) := by
  cases kind with
  | assignment => exact lands_assignment
  | «if» => exact lands_bind fun _ => lands_conditional
  | goto => exact lands_bind fun _ => lands_goto
  | dim => exact lands_bind fun _ => lands_dim
  | print => exact lands_bind fun _ => lands_print
  | read => exact lands_bind fun _ => lands_read
  | stop => exact lands_bind fun _ => lands_bind fun _ => lands_pure (by simp)
  | «end» => exact lands_bind fun _ => lands_bind fun _ => lands_pure (by simp)

end Action

/-! ### Steps -/

namespace Machine

/-- The counter is at a statement or behind the last one, labels mark statements, and the store is as
changes leave it. -/
structure Valid (m : Machine I O) : Prop where
  counter : m.counter ≤ m.program.statements.size
  labels : m.program.Marked
  store : m.store.Valid

/-- Nothing is lost from the store, and it stays in order. -/
def Keeping (m m' : Machine I O) : Prop :=
  m.Alike m' ∧ m.store.Extends m'.store ∧ (m.store.Valid → m'.store.Valid)

theorem frame_keeping : Machine.Frame.Whole (I := I) (O := O) Keeping where
  refl m := ⟨frame_alike.refl m, .refl _, id⟩
  trans h h' := ⟨frame_alike.trans h.1 h'.1, h.2.1.trans h'.2.1, h'.2.2 ∘ h.2.2⟩
  note m r hr := ⟨frame_alike.note m r hr, .refl _, id⟩
  sink m sink := ⟨frame_alike.sink m sink, .refl _, id⟩
  input m input := ⟨frame_alike.input m input, .refl _, id⟩
  store m s h := ⟨frame_alike.store m s h, h.extends, h.valid⟩

theorem follow_store (m : Machine I O) (flow : Flow) : (m.follow flow).2.store = m.store := by
  cases flow <;> rfl

/-- Where a statement leaves the counter. -/
theorem follow_counter_le {m : Machine I O} {flow : Flow} (hlt : m.counter < m.program.statements.size)
    (hjump : ∀ i, flow = .jump i → i < m.program.statements.size) :
    (m.follow flow).2.counter ≤ m.program.statements.size := by
  cases flow with
  | next => exact hlt
  | jump i => exact Nat.le_of_lt (hjump i rfl)
  | terminate => exact hlt
  | stop => exact Nat.le_of_lt hlt

theorem Same.valid {m m' : Machine I O} (h : m.Same m') (hm : m.Valid) :
    m'.Valid ∧ m.store.Extends m'.store := by
  obtain ⟨hcounter, hlabels, hstore⟩ := hm
  refine ⟨⟨?_, h.program ▸ hlabels, h.store ▸ hstore⟩, h.store ▸ .refl _⟩
  rw [h.program, h.counter]
  exact hcounter

theorem Keeping.valid {m m' : Machine I O} (h : m.Keeping m') (hm : m.Valid) : m'.Valid := by
  obtain ⟨halike, -, hstore⟩ := h
  refine ⟨?_, halike.program ▸ hm.labels, hstore hm.store⟩
  rw [halike.program, halike.counter]
  exact hm.counter

variable [Reader I] [Writer O]

theorem Executes.valid {m : Machine I O} {s : Statement} {r : Except Diagnostic Step × Machine I O}
    (h : m.Executes s r) (hs : m.program.statements[m.counter]? = some s) (hm : m.Valid) :
    r.2.Valid ∧ m.store.Extends r.2.store := by
  obtain ⟨hlt, -⟩ := Array.getElem?_eq_some_iff.mp hs
  cases h with
  | unclosed => exact ⟨hm, .refl _⟩
  | unread _ _ hsame => exact hsame.valid hm
  | unknown _ _ hsame => exact hsame.valid hm
  | @failed _ kind _ m' w _ ht hsame _ _ hw =>
    obtain ⟨hm', hextends⟩ := hsame.valid hm
    have hw := (statement_within frame_keeping ht _ _ _).error hw
    exact ⟨hw.valid hm', hextends.trans hw.2.1⟩
  | @executed _ kind flow m' w _ ht hsame _ _ hw =>
    obtain ⟨hm', hextends⟩ := hsame.valid hm
    obtain ⟨halike, hlater, hvalid⟩ := (statement_within frame_keeping ht _ _ _).ok hw
    have hlands := (Action.lands_statement kind _).ok hw
    have hlabels : w.machine.program.Marked := halike.program ▸ hm'.labels
    have hcounter : w.machine.counter < w.machine.program.statements.size := by
      rw [halike.program, halike.counter, hsame.program, hsame.counter]
      exact hlt
    refine ⟨⟨?_, ?_, ?_⟩, ?_⟩
    · rw [follow_program]
      refine follow_counter_le hcounter fun i hi => ?_
      obtain ⟨label, hlabel⟩ := hlands i hi
      exact hlabels label i hlabel
    · rw [follow_program]
      exact hlabels
    · rw [follow_store]
      exact hvalid hm'.store
    · rw [follow_store]
      exact hextends.trans hlater

/-- A step keeps the machine in order, whatever it returns. -/
theorem Valid.step {m : Machine I O} (hm : m.Valid) (hc : m.Coherent) :
    m.step.2.Valid ∧ m.store.Extends m.step.2.store := by
  have hsteps := hc.steps
  generalize m.step = r at hsteps
  cases hsteps with
  | ranOff => exact ⟨hm, .refl _⟩
  | afterEnd => exact ⟨hm, .refl _⟩
  | executes hs _ h => exact h.valid hs hm

/-! ### Sessions -/

/-- The states that a session can come to from one of its states, with steps and runs in any order. -/
inductive Reaches (m : Machine I O) : Machine I O → Prop
  | refl : Reaches m m
  | step {m' : Machine I O} (h : Reaches m m') : Reaches m m'.step.2
  | run {m' : Machine I O} (h : Reaches m m') (fuel : Nat) : Reaches m (m'.run fuel).2

theorem Reaches.preserves {P : Machine I O → Prop} (hstep : ∀ m, P m → P m.step.2)
    (hconclude : ∀ m, P m → P m.conclude.2) {m m' : Machine I O} (h : m.Reaches m') (hm : P m) : P m' := by
  induction h with
  | refl => exact hm
  | step _ ih => exact hstep _ ih
  | run _ fuel ih => exact run_preserves hstep hconclude ih fuel

/-- The states that a session can come to are states of sessions. -/
theorem Reachable.reaches {p : Program} {m m' : Machine I O} (hm : m.Reachable p) (h : m.Reaches m') :
    m'.Reachable p := by
  induction h with
  | refl => exact hm
  | step _ ih => exact ih.step
  | run _ fuel ih => exact ih.run fuel

/-- Whatever a session does, it stays in order and loses nothing. -/
theorem Valid.reaches {m m' : Machine I O} (hm : m.Valid) (hc : m.Coherent) (h : m.Reaches m') :
    m'.Valid ∧ m.store.Extends m'.store := by
  refine (h.preserves (P := fun m' => m'.Coherent ∧ m'.Valid ∧ m.store.Extends m'.store) ?_ ?_
    ⟨hc, hm, .refl _⟩).2
  · rintro m₁ ⟨hc₁, hm₁, hextends⟩
    obtain ⟨hvalid, hlater⟩ := hm₁.step hc₁
    exact ⟨hc₁.step.2, hvalid, hextends.trans hlater⟩
  · rintro m₁ ⟨hc₁, hm₁, hextends⟩
    have hend := frame_keeping.conclude frame_keeping.sink m₁
    exact ⟨hc₁.of_eq hend.1.program hend.1.cache, hend.valid hm₁, hextends.trans hend.2.1⟩

theorem Reachable.valid {p : Program} (hp : p.Marked) {m : Machine I O} (h : m.Reachable p) : m.Valid := by
  induction h with
  | start input sink log => exact ⟨Nat.zero_le _, hp, Store.valid_empty⟩
  | step h ih => exact (ih.step h.coherent.2).1
  | run h fuel ih => exact (ih.reaches h.coherent.2 (Reaches.refl.run fuel)).1

/-- **Sessions stay in order.**  In every state of every session with a loaded program the counter is at
most the number of statements, labels mark statements, names are identifiers, arrays have at least one
cell and elements lie within their arrays; and whatever comes later has all that is there, with the arrays
as large as they are. -/
theorem session_invariant {source : String} {p : Program} (hload : Program.load source = .ok p)
    {m : Machine I O} (hm : m.Reachable p) :
    (m.program = p ∧ m.Valid) ∧
      ∀ m' : Machine I O, m.Reaches m' → (m'.program = p ∧ m'.Valid) ∧ m.store.Extends m'.store := by
  have hmarked := Program.marked_of_load hload
  have hvalid := hm.valid hmarked
  refine ⟨⟨hm.coherent.1, hvalid⟩, fun m' hm' => ?_⟩
  obtain ⟨hvalid', hextends⟩ := hvalid.reaches hm.coherent.2 hm'
  exact ⟨⟨(hm.reaches hm').coherent.1, hvalid'⟩, hextends⟩

/-- A loop that reads into an array, for every input and for as long as it is run. -/
theorem session_invariant_loop :
    ∃ p, Program.load "dim a[2];\nl: read x, a[x];\ngoto l;\nstop;" = .ok p ∧
      ∀ (input : List UInt8) (fuel fuel' : Nat),
        ((start p input Sink.unlimited (.init .warn)).run fuel).2.Valid ∧
        ((start p input Sink.unlimited (.init .warn)).run fuel).2.store.Extends
          (((start p input Sink.unlimited (.init .warn)).run fuel).2.run fuel').2.store := by
  have hsome : (Program.load "dim a[2];\nl: read x, a[x];\ngoto l;\nstop;").toOption.isSome = true := by
    decide +kernel
  cases hp : Program.load "dim a[2];\nl: read x, a[x];\ngoto l;\nstop;" with
  | error d =>
    rw [hp] at hsome
    cases hsome
  | ok p =>
    refine ⟨p, rfl, fun input fuel fuel' => ?_⟩
    have hall := session_invariant hp ((Reachable.start input Sink.unlimited (.init .warn)).run fuel)
    exact ⟨hall.1.2, (hall.2 _ (Reaches.refl.run fuel')).2⟩

end Machine

end Primer
