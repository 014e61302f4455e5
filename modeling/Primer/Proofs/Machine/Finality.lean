import Primer.Proofs.Machine.Acceptance
import Primer.Proofs.Machine.Calls

/-!
# How sessions end

`end;` ends a session for good, and a run succeeds at `stop;` alone.

* `StatementKind.Allows kind flow`: what statements of a kind can ask for.
* `Machine.ExecutesEnd m`: the step from `m` executes `end;`.
* `Coherent.passed_end`: a session is terminated just if one of its steps has executed `end;`.
* `end_final_and_success_stop`: nothing happens behind `end;`, and what succeeds is at `stop;`.
-/

namespace Primer

variable {I O : Type}

/-! ### What statements ask for -/

/-- What statements of a kind do to the order of execution. -/
def StatementKind.Allows : StatementKind → Flow → Prop
  | .goto, flow => ∃ i, flow = .jump i
  | .if, flow => flow = .next ∨ ∃ i, flow = .jump i
  | .stop, flow => flow = .stop
  | .end, flow => flow = .terminate
  | _, flow => flow = .next

namespace StatementKind

theorem Allows.eq_end {kind : StatementKind} (h : kind.Allows .terminate) : kind = .end := by
  cases kind <;> simp [Allows] at h ⊢

theorem Allows.eq_stop {kind : StatementKind} (h : kind.Allows .stop) : kind = .stop := by
  cases kind <;> simp [Allows] at h ⊢

end StatementKind

namespace Action

variable {α β : Type} {P : β → Prop}

/-- The action returns what satisfies `P`. -/
def Returns (P : α → Prop) (a : Action I O α) : Prop :=
  ∀ w, Leads a w (fun x _ => P x) (fun _ _ => True)

theorem returns_pure {x : β} (h : P x) : Returns P (pure x : Action I O β) := fun _ => leads_pure.mpr h

/-- What is returned is settled at the end. -/
theorem returns_bind {a : Action I O α} {f : α → Action I O β} (h : ∀ x, Returns P (f x)) :
    Returns P (a >>= f) := by
  intro w
  have htrue : Leads a w (fun _ _ => True) (fun _ _ => True) := by
    unfold Leads
    split <;> trivial
  exact htrue.bind (fun x w' _ => h x w') fun _ _ _ => trivial

theorem returns_conditional : Returns (StatementKind.Allows .if) (conditional : Action I O Flow) := by
  refine returns_bind fun _ => returns_bind fun condition => returns_bind fun _ => ?_
  refine returns_bind fun label => returns_bind fun _ => ?_
  split
  · exact returns_bind fun i => returns_pure (.inr ⟨i, rfl⟩)
  · exact returns_pure (.inl rfl)

theorem returns_dim : Returns (StatementKind.Allows .dim) (dim : Action I O Flow) := by
  refine returns_bind fun _ => returns_bind fun _ => returns_bind fun _ => returns_bind fun _ => ?_
  refine returns_bind fun _ => returns_bind fun _ => returns_bind fun _ => returns_bind fun _ => ?_
  exact returns_pure rfl

theorem returns_assignment : Returns (StatementKind.Allows .assignment) (assignment : Action I O Flow) := by
  refine returns_bind fun _ => returns_bind fun _ => returns_bind fun _ => returns_bind fun _ => ?_
  exact returns_bind fun _ => returns_bind fun _ => returns_bind fun _ => returns_pure rfl

/-- Statements ask for what their kind allows. -/
theorem returns_statement [Reader I] [Writer O] (kind : StatementKind) :
    Returns kind.Allows (statement kind : Action I O Flow) := by
  cases kind with
  | assignment => exact returns_assignment
  | «if» => exact returns_bind fun _ => returns_conditional
  | goto =>
    refine returns_bind fun _ => returns_bind fun _ => returns_bind fun _ => ?_
    exact returns_bind fun i => returns_pure ⟨i, rfl⟩
  | dim => exact returns_bind fun _ => returns_dim
  | print =>
    refine returns_bind fun _ => returns_bind fun _ => returns_bind fun _ => ?_
    exact returns_bind fun _ => returns_bind fun _ => returns_pure rfl
  | read =>
    refine returns_bind fun _ => returns_bind fun _ => returns_bind fun _ => ?_
    exact returns_bind fun _ => returns_bind fun _ => returns_pure rfl
  | stop => exact returns_bind fun _ => returns_bind fun _ => returns_pure rfl
  | «end» => exact returns_bind fun _ => returns_bind fun _ => returns_pure rfl

end Action

namespace Machine

/-! ### The last step -/

/-- The machine is at `stop;`. -/
def AtStop (m : Machine I O) : Prop :=
  ∃ s tokens, m.program.statements[m.counter]? = some s ∧ tokenize s.text = .ok tokens ∧
    tokens.map Token.kind = [.keyword .stop, .punctuation .semicolon]

variable [Reader I] [Writer O]

/-- The step from here executes `end;`. -/
def ExecutesEnd (m : Machine I O) : Prop :=
  (∃ tokens, m.Executing .end tokens) ∧ ∃ step, m.step.1 = .ok step

/-- A step that succeeds: the statement has a kind and sentences of this kind, and it is followed as its kind
allows. -/
theorem Coherent.executed_of_step {m : Machine I O} (hm : m.Coherent) {step : Step}
    (hstep : m.step.1 = .ok step) :
    ∃ kind tokens flow, ∃ m' : Machine I O, m.Executing kind tokens ∧ tokens ∈ kind.form ∧
      kind.Allows flow ∧ m'.program = m.program ∧ m'.phase = m.phase ∧ m'.counter = m.counter ∧
      step = (m'.follow flow).1 ∧ m.step.2 = (m'.follow flow).2 := by
  have hsteps := hm.steps
  generalize m.step = r at hsteps hstep
  cases hsteps with
  | ranOff | afterEnd => cases hstep
  | @executes s r hs hp h =>
    cases h with
    | unclosed | unread | unknown | failed => cases hstep
    | @executed tokens kind flow m' w hclosed ht hsame _ hk hw =>
      cases hstep
      have halike := (statement_within frame_alike ht _ _ _).ok hw
      refine ⟨kind, tokens, flow, w.machine, ⟨hp, s, hs, hclosed, ht, hk⟩, ?_, ?_, ?_, ?_, ?_, rfl, rfl⟩
      · exact (Action.leads_statement (w := ⟨.ofTokens tokens _, m'⟩) hk).ok hw
      · exact (Action.returns_statement kind _).ok hw
      · exact halike.program.trans hsame.program
      · exact halike.phase.trans hsame.phase
      · exact halike.counter.trans hsame.counter

/-- A step terminates a running machine just if it executes `end;`, and a machine that is terminated stays
so. -/
theorem Coherent.terminated_step {m : Machine I O} (hm : m.Coherent) :
    m.step.2.phase = .terminated ↔ m.phase = .terminated ∨ m.ExecutesEnd := by
  cases hstep : m.step.1 with
  | error d =>
    have hphase := (hm.still_of_step hstep).2.1
    rw [hphase]
    refine ⟨.inl, fun h => h.resolve_right ?_⟩
    rintro ⟨-, step, hok⟩
    rw [hstep] at hok
    cases hok
  | ok step =>
    obtain ⟨kind, tokens, flow, m', hkind, -, hflow, -, hphase, -, -, hm'⟩ := hm.executed_of_step hstep
    have hrunning : m.phase = .running := hkind.1
    rw [hm']
    constructor
    · intro hterminated
      cases flow with
      | terminate =>
        obtain rfl := hflow.eq_end
        exact .inr ⟨⟨tokens, hkind⟩, step, hstep⟩
      | next | jump i | stop =>
        have hterminated : m'.phase = .terminated := hterminated
        rw [hphase] at hterminated
        exact .inl hterminated
    · rintro (hterminated | ⟨⟨tokens', hend⟩, -⟩)
      · rw [hrunning] at hterminated
        cases hterminated
      · obtain ⟨rfl, -⟩ := hkind.unique hend
        obtain rfl : flow = .terminate := hflow
        rfl

/-- A step that stops has found `stop;` and leaves the machine there. -/
theorem Coherent.stopped_step {m : Machine I O} (hm : m.Coherent) (hstep : m.step.1 = .ok .stopped) :
    m.step.2.phase = .running ∧ m.step.2.AtStop := by
  obtain ⟨kind, tokens, flow, m', hkind, hform, hflow, hprogram, hphase, hcounter, hstopped, hm'⟩ :=
    hm.executed_of_step hstep
  obtain ⟨hrunning, s, hs, -, ht, -⟩ := hkind
  cases flow with
  | next | jump i | terminate => cases hstopped
  | stop =>
    have hm' : m.step.2 = m' := hm'
    obtain rfl := hflow.eq_stop
    rw [hm', AtStop, hprogram, hphase, hcounter]
    obtain ⟨t, _, hstop, ⟨t', hsemicolon, rfl⟩, rfl⟩ := Form.mem_token_mul.mp hform
    exact ⟨hrunning, s, _, hs, ht, by simp [hstop, hsemicolon]⟩

/-! ### Runs and sessions -/

theorem Coherent.terminated_run {m : Machine I O} (hm : m.Coherent) (fuel : Nat) :
    (m.run fuel).2.phase = .terminated ↔
      m.phase = .terminated ∨ ∃ v ∈ m.passedBy fuel, v.ExecutesEnd := by
  induction fuel generalizing m with
  | zero => simp [Machine.run, passedBy]
  | succ fuel ih =>
    have hfirst := hm.terminated_step
    have hnext := hm.step.2
    rw [Machine.run, passedBy]
    generalize hr : m.step = r at hfirst hnext
    obtain ⟨result, m'⟩ := r
    cases result with
    | error d => simpa using hfirst
    | ok step =>
      cases step with
      | stopped => simpa [(conclude_alike m').phase] using hfirst
      | «continue» =>
        have hrest : (m'.run fuel).2.phase = .terminated ↔ _ := ih hnext
        simp only [hrest, List.exists_mem_cons_iff, ← or_assoc]
        exact or_congr_left hfirst

theorem Coherent.session {m : Machine I O} (hm : m.Coherent) (calls : List Call) :
    (Interpreter.standard.session m calls).2.Coherent :=
  session_preserves (fun _ h => h.step.2)
    (fun m h => h.of_eq (conclude_alike m).program (conclude_alike m).cache) calls hm

/-- A session that starts running is terminated just if one of its steps has executed `end;`. -/
theorem Coherent.passed_end {m : Machine I O} (hm : m.Coherent) (calls : List Call) :
    (Interpreter.standard.session m calls).2.phase = .terminated ↔
      m.phase = .terminated ∨ ∃ v ∈ m.passed calls, v.ExecutesEnd := by
  induction calls generalizing m with
  | nil => simp [Interpreter.session, passed]
  | cons c calls ih =>
    cases c with
    | step =>
      have hrest := ih hm.step.2
      have hfirst := hm.terminated_step
      simp only [passed, List.exists_mem_cons_iff, ← or_assoc]
      exact hrest.trans (or_congr_left hfirst)
    | run fuel =>
      have hrest := ih (hm.run (fuel + 1)).2
      have hfirst := hm.terminated_run (fuel + 1)
      simp only [passed, List.mem_append, or_and_right, exists_or, ← or_assoc]
      exact hrest.trans (or_congr_left hfirst)

/-- Nothing happens to a terminated machine. -/
theorem step_terminated {m : Machine I O} (hm : m.phase = .terminated) :
    (∃ d, m.step.1 = .error d) ∧ m.step.2 = m := by
  cases hs : m.program.statements[m.counter]? with
  | none =>
    rw [step_eq_of_none hs]
    exact ⟨⟨_, rfl⟩, rfl⟩
  | some s =>
    rw [step_eq_of_terminated hs hm]
    exact ⟨⟨_, rfl⟩, rfl⟩

theorem run_terminated {m : Machine I O} (hm : m.phase = .terminated) (fuel : Nat) :
    (∃ d, (m.run (fuel + 1)).1 = some (.error d)) ∧ (m.run (fuel + 1)).2 = m := by
  obtain ⟨⟨d, hd⟩, hsame⟩ := step_terminated hm
  rw [run_of_step_error hd]
  exact ⟨⟨d, rfl⟩, hsame⟩

theorem session_terminated {m : Machine I O} (hm : m.phase = .terminated) (calls : List Call) :
    (∀ a ∈ (Interpreter.standard.session m calls).1, a.Fails) ∧
      (Interpreter.standard.session m calls).2 = m := by
  induction calls with
  | nil => simp [Interpreter.session]
  | cons c calls ih =>
    have hcall : (Interpreter.standard.call m c).1.Fails ∧ (Interpreter.standard.call m c).2 = m := by
      cases c with
      | step => exact step_terminated hm
      | run fuel => exact run_terminated hm fuel
    simp only [Interpreter.session, hcall.2, List.forall_mem_cons]
    exact ⟨⟨hcall.1, ih.1⟩, ih.2⟩

/-- A run that succeeds has come to `stop;`. -/
theorem Coherent.stopped_run {m : Machine I O} (hm : m.Coherent) {fuel : Nat}
    (hrun : (m.run fuel).1 = some (.ok ())) : (m.run fuel).2.phase = .running ∧ (m.run fuel).2.AtStop := by
  induction fuel generalizing m with
  | zero => cases hrun
  | succ fuel ih =>
    have hnext := hm.step.2
    have hstopped := hm.stopped_step
    rw [Machine.run] at hrun ⊢
    generalize m.step = r at hnext hstopped hrun ⊢
    obtain ⟨result, m'⟩ := r
    cases result with
    | error d => cases hrun
    | ok step =>
      cases step with
      | «continue» => exact ih hnext hrun
      | stopped =>
        have hm' := hstopped rfl
        simp only at hrun ⊢
        rcases m'.conclude_cases with ⟨-, h⟩ | ⟨reason, -, h⟩
        · rw [h]
          exact hm'
        · rw [h] at hrun
          cases hrun

/-- **Termination is final, and success means `stop;`.**  Where a step of a session has executed `end;`, the
machine is terminated, and all later calls fail and change nothing about it.  Where a run succeeds, the machine
is running and at `stop;`, and no step of the session, those of the run included, has executed `end;`.  So it
is for a program from its source on. -/
theorem end_final_and_success_stop :
    (∀ (p : Program) (input : I) (sink : O) (log : Log) (calls : List Call),
      let m₀ := start p input sink log
      let m := (Interpreter.standard.session m₀ calls).2
      ((∃ v ∈ m₀.passed calls, v.ExecutesEnd) → m.phase = .terminated ∧ ∀ later,
        (∀ a ∈ (Interpreter.standard.session m later).1, a.Fails) ∧
          (Interpreter.standard.session m later).2 = m) ∧
      ∀ fuel, (m.run fuel).1 = some (.ok ()) → (m.run fuel).2.phase = .running ∧
        (∀ v ∈ m₀.passed calls ++ m.passedBy fuel, ¬v.ExecutesEnd) ∧ (m.run fuel).2.AtStop) ∧
    ∀ (fuel : Nat) (source : String) (input : I) (sink : O) (detail : Detail),
      (runSource fuel source input sink detail).result = some (.ok ()) →
      ∃ p log, prepare source detail = .ok (p, log) ∧
        let m₀ := start p input sink log
        (m₀.run fuel).2.phase = .running ∧ (∀ v ∈ m₀.passedBy fuel, ¬v.ExecutesEnd) ∧
          (m₀.run fuel).2.AtStop := by
  have hsuccess : ∀ {m : Machine I O}, m.Coherent → ∀ fuel, (m.run fuel).1 = some (.ok ()) →
      (m.run fuel).2.phase = .running ∧ m.phase = .running ∧ (∀ v ∈ m.passedBy fuel, ¬v.ExecutesEnd) ∧
        (m.run fuel).2.AtStop := by
    intro m hm fuel hrun
    obtain ⟨hrunning, hstop⟩ := hm.stopped_run hrun
    have hterminated := (hm.terminated_run fuel).not
    rw [hrunning] at hterminated
    obtain ⟨hphase, hpassed⟩ := not_or.mp (hterminated.mp (by simp))
    refine ⟨hrunning, ?_, fun v hv hend => hpassed ⟨v, hv, hend⟩, hstop⟩
    cases hp : m.phase with
    | running => rfl
    | terminated => exact absurd hp hphase
  refine ⟨fun p input sink log calls => ?_, fun fuel source input sink detail hresult => ?_⟩
  · intro m₀ m
    have hstart : m₀.Coherent := (Reachable.start input sink log).coherent.2
    have hpassed := hstart.passed_end calls
    refine ⟨fun hend => ?_, fun fuel hrun => ?_⟩
    · have hterminated : m.phase = .terminated := hpassed.mpr (.inr hend)
      exact ⟨hterminated, session_terminated hterminated⟩
    · obtain ⟨hrunning, hphase, hrest, hstop⟩ := hsuccess (hstart.session calls) fuel hrun
      refine ⟨hrunning, fun v hv hend => ?_, hstop⟩
      rcases List.mem_append.mp hv with hv | hv
      · rw [hpassed.mpr (.inr ⟨v, hv, hend⟩)] at hphase
        cases hphase
      · exact hrest v hv hend
  · unfold runSource at hresult
    split at hresult
    · cases hresult
    · rename_i p log hprepare
      obtain ⟨hrunning, -, hpassed, hstop⟩ :=
        hsuccess (Reachable.start input sink log).coherent.2 fuel hresult
      exact ⟨p, log, hprepare, hrunning, hpassed, hstop⟩

/-- Whatever follows `end;` fails, and a run that is at `stop;` succeeds there. -/
theorem end_final_and_success_stop_single :
    (∀ later, (∀ a ∈ (Interpreter.standard.session (atStatement "end;" []).step.2 later).1, a.Fails) ∧
      (Interpreter.standard.session (atStatement "end;" []).step.2 later).2 =
        (atStatement "end;" []).step.2) ∧
    ((atStatement "stop;" []).run 1).1 = some (.ok ()) ∧ ((atStatement "stop;" []).run 1).2.AtStop := by
  constructor
  · have ht : tokenize "end;" = .ok [⟨.keyword .end, "end", ⟨0, 3⟩⟩,
        ⟨.punctuation .semicolon, ";", ⟨3, 4⟩⟩] := by decide +kernel
    have hend : (atStatement "end;" []).Executing .end _ :=
      executing_atStatement (by decide +kernel) ht rfl []
    have hstep : (atStatement "end;" []).step.1 = .ok .continue := by decide +kernel
    have hall := (end_final_and_success_stop (I := List UInt8)).1 ⟨#[⟨"end;", 1, 0⟩], ∅⟩ []
      Sink.unlimited (.init .warn) [.step]
    exact (hall.1 ⟨_, List.mem_cons_self, ⟨_, hend⟩, _, hstep⟩).2
  · have hrun : ((atStatement "stop;" []).run 1).1 = some (.ok ()) := by decide +kernel
    have hall := (end_final_and_success_stop (I := List UInt8)).1 ⟨#[⟨"stop;", 1, 0⟩], ∅⟩ []
      Sink.unlimited (.init .warn) []
    exact ⟨hrun, (hall.2 1 hrun).2.2⟩

end Machine

end Primer
