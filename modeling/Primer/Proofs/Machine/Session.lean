import Primer.Machine.Run
import Primer.Proofs.Machine.Frame
import Primer.Proofs.Token.Tiling

/-!
# Sessions

What a step does, said once, and the states that steps and runs can reach.

* `Machine.Executes m s r`: the ways in which a machine can execute the statement `s`, from the missing
  semicolon to the statement that takes effect.
* `Machine.Steps m r`: the ways in which it can take a step.
* `Machine.Coherent m`: the cache holds the tokens of the statements.
* `Machine.Reachable p m`: a state of a session with the program `p`.
-/

namespace Primer

variable {I O : Type}

namespace Machine

/-- Every filled slot of the cache holds the tokens of its statement. -/
def Coherent (m : Machine I O) : Prop :=
  ∀ (i : Nat) (tokens : List Token), m.cache[i]? = some tokens →
    ∃ s, m.program.statements[i]? = some s ∧ tokenize s.text = .ok tokens

/-- The machines agree on all but the cache and the log. -/
structure Same (m m' : Machine I O) : Prop where
  program : m'.program = m.program
  store : m'.store = m.store
  phase : m'.phase = m.phase
  counter : m'.counter = m.counter
  input : m'.input = m.input
  sink : m'.sink = m.sink

/-- A slot is filled with the tokens that its statement has. -/
theorem Coherent.tokensOf {m : Machine I O} (h : m.Coherent) {s : Statement}
    (hs : m.program.statements[m.counter]? = some s) :
    (m.tokensOf m.counter s.text).1 = tokenize s.text ∧
      m.Same (m.tokensOf m.counter s.text).2 ∧ (m.tokensOf m.counter s.text).2.Coherent := by
  unfold Machine.tokensOf
  split
  · rename_i tokens hcache
    obtain ⟨s', hs', ht⟩ := h _ _ hcache
    rw [hs] at hs'
    cases hs'
    exact ⟨ht.symm, ⟨rfl, rfl, rfl, rfl, rfl, rfl⟩, h⟩
  · split
    · rename_i d ht
      exact ⟨ht.symm, ⟨rfl, rfl, rfl, rfl, rfl, rfl⟩, h⟩
    · rename_i tokens ht
      refine ⟨ht.symm, ⟨rfl, rfl, rfl, rfl, rfl, rfl⟩, fun i tokens' hcache => ?_⟩
      have hcache : (m.cache.insert m.counter tokens)[i]? = some tokens' := hcache
      rw [Std.ExtTreeMap.getElem?_insert] at hcache
      split at hcache
      · rename_i hi
        cases hcache
        have hi : m.counter = i := by simpa using hi
        exact ⟨s, hi ▸ hs, ht⟩
      · exact h i tokens' hcache

theorem Coherent.of_eq {m m' : Machine I O} (h : m.Coherent) (hp : m'.program = m.program)
    (hc : m'.cache = m.cache) : m'.Coherent := by
  intro i tokens hcache
  rw [hp]
  exact h i tokens (hc ▸ hcache)

/-- The tokens of a statement, at places that are nowhere special. -/
theorem placed_true {text : String} {tokens : List Token} (ht : tokenize text = .ok tokens) (length : Nat)
    (m : Machine I O) : Work.Placed (fun _ => True) ⟨.ofTokens tokens length, m⟩ :=
  ⟨fun _ _ => trivial, isIdentifier_of_tokenize ht, trivial, trivial, List.suffix_refl _⟩

theorem follow_program (m : Machine I O) (flow : Flow) : (m.follow flow).2.program = m.program := by
  cases flow <;> rfl

theorem follow_cache (m : Machine I O) (flow : Flow) : (m.follow flow).2.cache = m.cache := by
  cases flow <;> rfl

/-- The end of a run flushes, and a success is recorded. -/
theorem conclude_cases [Writer O] (m : Machine I O) :
    ((Writer.flush m.sink).1 = .ok () ∧
      m.conclude = (.ok (), { m with sink := (Writer.flush m.sink).2 }.note (.stopped (m.counter + 1)))) ∨
    ∃ reason, (Writer.flush m.sink).1 = .error reason ∧
      m.conclude =
        (.error ⟨.unwritable reason, .single 0, none⟩, { m with sink := (Writer.flush m.sink).2 }) := by
  unfold conclude
  obtain ⟨result, sink⟩ := Writer.flush m.sink
  cases result with
  | ok u => exact .inl ⟨rfl, rfl⟩
  | error reason => exact .inr ⟨reason, rfl, rfl⟩

/-- The end of a run is in every relation that flushing is in. -/
theorem Frame.conclude [Writer O] {R : Machine I O → Machine I O → Prop} (hR : Machine.Frame R)
    (hsink : ∀ m sink, R m { m with sink }) (m : Machine I O) : R m m.conclude.2 := by
  have hflush := hsink m (Writer.flush m.sink).2
  rcases m.conclude_cases with ⟨-, h⟩ | ⟨reason, -, h⟩
  · rw [h]
    exact hR.trans hflush (hR.note _ _ (by simp))
  · rw [h]
    exact hflush

/-- Machines with the same output end their runs alike, and in every relation that flushing keeps them in. -/
theorem conclude_both [Writer O] {R : Machine I O → Machine I O → Prop} {m m' : Machine I O}
    (hsink : m'.sink = m.sink) (hflush : ∀ sink, R { m with sink } { m' with sink })
    (hnote : ∀ {n n' : Machine I O} (r r' : Record), R n n' → R (n.note r) (n'.note r')) :
    m'.conclude.1 = m.conclude.1 ∧ R m.conclude.2 m'.conclude.2 := by
  unfold conclude
  rw [hsink]
  obtain ⟨result, sink⟩ := Writer.flush m.sink
  cases result with
  | ok u => exact ⟨rfl, hnote _ _ (hflush sink)⟩
  | error reason => exact ⟨rfl, hflush sink⟩

theorem conclude_alike [Writer O] (m : Machine I O) : m.Alike m.conclude.2 :=
  frame_alike.conclude frame_alike.sink m

theorem conclude_error [Writer O] {m : Machine I O} {d : Diagnostic} (hd : m.conclude.1 = .error d) :
    ∃ reason, (Writer.flush m.sink).1 = .error reason ∧ d = ⟨.unwritable reason, .single 0, none⟩ ∧
      m.conclude.2 = { m with sink := (Writer.flush m.sink).2 } := by
  rcases m.conclude_cases with ⟨-, h⟩ | ⟨reason, hflush, h⟩
  · rw [h] at hd
    cases hd
  · rw [h] at hd ⊢
    cases hd
    exact ⟨reason, hflush, rfl, rfl⟩

variable [Reader I] [Writer O]

/-- The ways in which a statement is executed. -/
inductive Executes (m : Machine I O) (s : Statement) : Except Diagnostic Step × Machine I O → Prop
  | unclosed (hclosed : isClosed s.text = false) :
    Executes m s (.error ⟨.missingSemicolon, .single (s.text.utf8ByteSize - 1), none⟩, m)
  | unread {d : Diagnostic} {m' : Machine I O} (hclosed : isClosed s.text = true)
    (ht : tokenize s.text = .error d) (hm : m.Same m') (hc : m'.Coherent) :
    Executes m s (.error d, m')
  | unknown {tokens : List Token} {d : Diagnostic} {m' : Machine I O} (hclosed : isClosed s.text = true)
    (ht : tokenize s.text = .ok tokens) (hm : m.Same m') (hc : m'.Coherent)
    (hk : classify s.text tokens = .error d) : Executes m s (.error d, m')
  | failed {tokens : List Token} {kind : StatementKind} {d : Diagnostic} {m' : Machine I O} {w : Work I O}
    (hclosed : isClosed s.text = true) (ht : tokenize s.text = .ok tokens) (hm : m.Same m')
    (hc : m'.Coherent) (hk : classify s.text tokens = .ok kind)
    (hw : Action.statement kind ⟨.ofTokens tokens s.text.utf8ByteSize, m'⟩ = .error d w) :
    Executes m s (.error d, w.machine)
  | executed {tokens : List Token} {kind : StatementKind} {flow : Flow} {m' : Machine I O} {w : Work I O}
    (hclosed : isClosed s.text = true) (ht : tokenize s.text = .ok tokens) (hm : m.Same m')
    (hc : m'.Coherent) (hk : classify s.text tokens = .ok kind)
    (hw : Action.statement kind ⟨.ofTokens tokens s.text.utf8ByteSize, m'⟩ = .ok flow w) :
    Executes m s (.ok (w.machine.follow flow).1, (w.machine.follow flow).2)

/-- The ways in which a step is taken.  The faults of a statement are pinned to it. -/
inductive Steps (m : Machine I O) : Except Diagnostic Step × Machine I O → Prop
  | ranOff (hs : m.program.statements[m.counter]? = none) :
    Steps m (.error ⟨.ranOff, .single 0, none⟩, m)
  | afterEnd {s : Statement} (hs : m.program.statements[m.counter]? = some s)
    (hp : m.phase = .terminated) :
    Steps m (.error ⟨.afterEnd, ⟨0, s.text.utf8ByteSize⟩, some ⟨m.counter + 1, s.text, s.offset⟩⟩, m)
  | executes {s : Statement} {r : Except Diagnostic Step × Machine I O}
    (hs : m.program.statements[m.counter]? = some s) (hp : m.phase = .running)
    (h : m.Executes s r) :
    Steps m (r.1.mapError (·.within ⟨m.counter + 1, s.text, s.offset⟩), r.2)

/-- Executes a statement that has been read. -/
def executeTokens (m : Machine I O) (s : Statement) (tokens : List Token) :
    Except Diagnostic Step × Machine I O :=
  match classify s.text tokens with
  | .error d => (.error d, m)
  | .ok kind =>
    let m := m.note (.executing (m.counter + 1) s.line kind s.text)
    match Action.statement kind ⟨.ofTokens tokens s.text.utf8ByteSize, m⟩ with
    | .error d w => (.error d, w.machine)
    | .ok flow w => (.ok (w.machine.follow flow).1, (w.machine.follow flow).2)

/-- A closed statement is read and then executed. -/
theorem execute_of_isClosed {m : Machine I O} {s : Statement} (hclosed : isClosed s.text = true) :
    m.execute s = match (m.tokensOf m.counter s.text).1 with
      | .error d => (.error d, (m.tokensOf m.counter s.text).2)
      | .ok tokens => (m.tokensOf m.counter s.text).2.executeTokens s tokens := by
  unfold execute executeTokens
  simp only [hclosed, Bool.not_true, Bool.false_eq_true, if_false]
  obtain ⟨result, m'⟩ := m.tokensOf m.counter s.text
  cases result <;> rfl

theorem execute_of_not_isClosed {m : Machine I O} {s : Statement} (hclosed : isClosed s.text = false) :
    m.execute s = (.error ⟨.missingSemicolon, .single (s.text.utf8ByteSize - 1), none⟩, m) := by
  simp [execute, hclosed]

/-- A statement is executed within what reading it and executing its tokens keep. -/
theorem execute_preserves {P : Machine I O → Prop} {m : Machine I O} {s : Statement} (hm : P m)
    (hread : P (m.tokensOf m.counter s.text).2)
    (htokens : ∀ tokens, (m.tokensOf m.counter s.text).1 = .ok tokens →
      P ((m.tokensOf m.counter s.text).2.executeTokens s tokens).2) : P (m.execute s).2 := by
  by_cases hclosed : isClosed s.text = true
  · rw [execute_of_isClosed hclosed]
    split
    · exact hread
    · rename_i tokens hok
      exact htokens tokens hok
  · rw [execute_of_not_isClosed (by simpa using hclosed)]
    exact hm

/-- What the execution of a statement can do. -/
theorem Coherent.executes {m : Machine I O} (h : m.Coherent) {s : Statement}
    (hs : m.program.statements[m.counter]? = some s) : m.Executes s (m.execute s) := by
  obtain ⟨htokens, hsame, hcoherent⟩ := h.tokensOf hs
  unfold execute
  cases hclosed : isClosed s.text with
  | false => exact .unclosed hclosed
  | true =>
    simp only [Bool.not_true, Bool.false_eq_true, if_false]
    split
    · rename_i d m' hm
      rw [hm] at htokens hsame hcoherent
      exact .unread hclosed htokens.symm hsame hcoherent
    · rename_i tokens m' hm
      rw [hm] at htokens hsame hcoherent
      split
      · rename_i d hk
        exact .unknown hclosed htokens.symm hsame hcoherent hk
      · rename_i kind hk
        -- the note on the execution changes the log alone
        have hnoted : ∀ r, m.Same (m'.note r) := fun r =>
          ⟨hsame.program, hsame.store, hsame.phase, hsame.counter, hsame.input, hsame.sink⟩
        split
        · rename_i d w hw
          exact .failed hclosed htokens.symm (hnoted _) hcoherent hk hw
        · rename_i flow w hw
          exact .executed hclosed htokens.symm (hnoted _) hcoherent hk hw

/-- A step executes the statement under the counter, if there is one and the machine is running. -/
theorem step_eq_execute {m : Machine I O} {s : Statement}
    (hs : m.program.statements[m.counter]? = some s) (hrunning : m.phase = .running) :
    m.step = ((m.execute s).1.mapError (·.within ⟨m.counter + 1, s.text, s.offset⟩),
      (m.execute s).2) := by
  unfold step
  rw [hs]
  simp only [hrunning]

theorem step_eq_of_none {m : Machine I O} (hs : m.program.statements[m.counter]? = none) :
    m.step = (.error ⟨.ranOff, .single 0, none⟩, m) := by
  unfold step
  rw [hs]

theorem step_eq_of_terminated {m : Machine I O} {s : Statement}
    (hs : m.program.statements[m.counter]? = some s) (hp : m.phase = .terminated) :
    m.step = (.error ⟨.afterEnd, ⟨0, s.text.utf8ByteSize⟩, some ⟨m.counter + 1, s.text, s.offset⟩⟩,
      m) := by
  unfold step
  rw [hs]
  simp only [hp]

/-- A step stays within what the statement under the counter keeps. -/
theorem step_preserves {P : Machine I O → Prop} {m : Machine I O} (hm : P m)
    (hexecute : ∀ s, m.program.statements[m.counter]? = some s → P (m.execute s).2) : P m.step.2 := by
  cases hs : m.program.statements[m.counter]? with
  | none =>
    rw [step_eq_of_none hs]
    exact hm
  | some s =>
    cases hp : m.phase with
    | terminated =>
      rw [step_eq_of_terminated hs hp]
      exact hm
    | running =>
      rw [step_eq_execute hs hp]
      exact hexecute s hs

/-- What a step can do. -/
theorem Coherent.steps {m : Machine I O} (hm : m.Coherent) : m.Steps m.step := by
  cases hs : m.program.statements[m.counter]? with
  | none =>
    rw [step_eq_of_none hs]
    exact .ranOff hs
  | some s =>
    cases hp : m.phase with
    | terminated =>
      rw [step_eq_of_terminated hs hp]
      exact .afterEnd hs hp
    | running =>
      rw [step_eq_execute hs hp]
      exact .executes hs hp (hm.executes hs)

/-! ### What steps preserve -/

/-- What a statement does to the machine is in every relation that the single changes are in. -/
theorem statement_within {R : Machine I O → Machine I O → Prop} (hR : Machine.Frame.Whole R) {text : String}
    {tokens : List Token} (ht : tokenize text = .ok tokens) (kind : StatementKind) (length : Nat)
    (m : Machine I O) :
    Action.Leads (Action.statement kind) ⟨.ofTokens tokens length, m⟩ (fun _ w => R m w.machine)
      (fun _ w => R m w.machine) :=
  (Action.keeps_statement (fun _ _ _ _ => trivial) hR kind _ (placed_true ht length m)).mono
    (fun _ _ hw => hw.1.machine) fun _ _ hw => hw.1

/-- A statement keeps the program and the sense of the cache. -/
theorem Executes.preserves {m : Machine I O} {s : Statement} {r : Except Diagnostic Step × Machine I O}
    (h : m.Executes s r) (hm : m.Coherent) : r.2.program = m.program ∧ r.2.Coherent := by
  cases h with
  | unclosed => exact ⟨rfl, hm⟩
  | unread _ _ hsame hc => exact ⟨hsame.program, hc⟩
  | unknown _ _ hsame hc => exact ⟨hsame.program, hc⟩
  | failed _ ht hsame hc _ hw =>
    have hw := (statement_within frame_alike ht _ _ _).error hw
    exact ⟨hw.program.trans hsame.program, hc.of_eq hw.program hw.cache⟩
  | @executed _ _ flow _ w _ ht hsame hc _ hw =>
    have hw := (statement_within frame_alike ht _ _ _).ok hw
    refine ⟨?_, hc.of_eq ?_ ?_⟩
    · rw [follow_program, hw.program, hsame.program]
    · rw [follow_program, hw.program]
    · rw [follow_cache, hw.cache]

theorem Coherent.step {m : Machine I O} (hm : m.Coherent) :
    m.step.2.program = m.program ∧ m.step.2.Coherent := by
  have hsteps := hm.steps
  generalize m.step = r at hsteps
  cases hsteps with
  | ranOff => exact ⟨rfl, hm⟩
  | afterEnd => exact ⟨rfl, hm⟩
  | executes _ _ h => exact h.preserves hm

/-- A run ends where a step fails. -/
theorem run_of_step_error {m : Machine I O} {d : Diagnostic} (h : m.step.1 = .error d) (fuel : Nat) :
    m.run (fuel + 1) = (some (.error d), m.step.2) := by
  rw [Machine.run]
  generalize m.step = r at h
  obtain ⟨result, m'⟩ := r
  obtain rfl : result = .error d := h
  rfl

/-- What steps and the end of a run preserve, runs preserve. -/
theorem run_preserves {P : Machine I O → Prop} (hstep : ∀ m, P m → P m.step.2)
    (hconclude : ∀ m, P m → P m.conclude.2) {m : Machine I O} (hm : P m) (fuel : Nat) :
    P (m.run fuel).2 := by
  induction fuel generalizing m with
  | zero => exact hm
  | succ fuel ih =>
    have hnext := hstep m hm
    rw [Machine.run]
    split
    · rename_i d m' hm'
      rwa [hm'] at hnext
    · rename_i m' hm'
      rw [hm'] at hnext
      exact ih hnext
    · rename_i m' hm'
      rw [hm'] at hnext
      exact hconclude m' hnext

theorem Coherent.run {m : Machine I O} (hm : m.Coherent) (fuel : Nat) :
    (m.run fuel).2.program = m.program ∧ (m.run fuel).2.Coherent := by
  refine run_preserves (P := fun m' => m'.program = m.program ∧ m'.Coherent) ?_ ?_ ⟨rfl, hm⟩ fuel
  · rintro m' ⟨hprogram, hm'⟩
    exact ⟨hm'.step.1.trans hprogram, hm'.step.2⟩
  · rintro m' ⟨hprogram, hm'⟩
    have hend := conclude_alike m'
    exact ⟨hend.program.trans hprogram, hm'.of_eq hend.program hend.cache⟩

/-! ### Reachable states -/

/-- The states of the sessions with a program: steps and runs in any order, whatever each returned. -/
inductive Reachable (p : Program) : Machine I O → Prop
  | start (input : I) (sink : O) (log : Log) : Reachable p (.start p input sink log)
  | step {m : Machine I O} (h : Reachable p m) : Reachable p m.step.2
  | run {m : Machine I O} (h : Reachable p m) (fuel : Nat) : Reachable p (m.run fuel).2

theorem Reachable.coherent {p : Program} {m : Machine I O} (h : m.Reachable p) :
    m.program = p ∧ m.Coherent := by
  induction h with
  | start input sink log =>
    refine ⟨rfl, fun i tokens hcache => ?_⟩
    simp [Machine.start] at hcache
  | step h ih => exact ⟨ih.2.step.1.trans ih.1, ih.2.step.2⟩
  | run h fuel ih => exact ⟨(ih.2.run fuel).1.trans ih.1, (ih.2.run fuel).2⟩

/-- A run fails where one of its steps does, or when the output is flushed behind its last step. -/
theorem Reachable.run_error {p : Program} {m : Machine I O} (h : m.Reachable p) {fuel : Nat}
    {d : Diagnostic} (hd : (m.run fuel).1 = some (.error d)) :
    ∃ m' : Machine I O, m'.Reachable p ∧
      (m'.step.1 = .error d ∧ (m.run fuel).2 = m'.step.2 ∨
        ∃ reason, m'.step.1 = .ok .stopped ∧ (Writer.flush m'.step.2.sink).1 = .error reason ∧
          d = ⟨.unwritable reason, .single 0, none⟩ ∧
          (m.run fuel).2 = { m'.step.2 with sink := (Writer.flush m'.step.2.sink).2 }) := by
  induction fuel generalizing m with
  | zero => cases hd
  | succ fuel ih =>
    have hnext : m.step.2.Reachable p := h.step
    rw [Machine.run] at hd ⊢
    split at hd
    · rename_i d' m' hm'
      cases hd
      refine ⟨m, h, .inl ⟨?_, ?_⟩⟩ <;> rw [hm']
    · rename_i m' hm'
      rw [hm'] at hnext
      exact ih hnext hd
    · rename_i m' hm'
      obtain ⟨reason, hflush, hd, hsame⟩ := conclude_error (Option.some.inj hd)
      refine ⟨m, h, .inr ⟨reason, ?_, ?_, hd, ?_⟩⟩ <;> rw [hm']
      · exact hflush
      · exact hsame

end Machine

variable [Reader I] [Writer O]

theorem runSource_error {fuel : Nat} {source : String} {input : I} {sink : O}
    {detail : Detail} {d : Diagnostic}
    (h : (runSource fuel source input sink detail).result = some (.error d)) :
    Program.load source = .error d ∨ ∃ p, Program.load source = .ok p ∧
      ((∃ m : Machine I O, m.Reachable p ∧ m.step.1 = .error d) ∨
        ∃ reason, d = ⟨.unwritable reason, .single 0, none⟩) := by
  unfold runSource prepare at h
  cases hp : Program.load source with
  | error d' =>
    rw [hp] at h
    cases h
    exact .inl rfl
  | ok p =>
    rw [hp] at h
    obtain ⟨m, hm, ⟨hd, -⟩ | ⟨reason, -, -, hd, -⟩⟩ := (Machine.Reachable.start input sink _).run_error h
    · exact .inr ⟨p, rfl, .inl ⟨m, hm, hd⟩⟩
    · exact .inr ⟨p, rfl, .inr ⟨reason, hd⟩⟩

end Primer
