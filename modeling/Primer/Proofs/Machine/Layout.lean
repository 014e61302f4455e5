import Primer.Proofs.Machine.Twins
import Primer.Proofs.Program.Layout

/-!
# Runs and the layout of a source

A statement sees the labels of the program and none of its statements, so that it does not matter where in the
source these stand.

* `Action.Blind a`: the action does not look at the statements of the program.
* `Machine.Like m m'`: the machines agree on all but the cache, the log and the places of the statements.
* `Like.step`, `Like.run`: such machines take the same steps and runs, up to the places in their faults.
* `layout_unseen`: neither loading nor running sees a change of the layout.
-/

namespace Primer

variable {I O : Type}

/-- The machine with other statements in its program. -/
def Machine.onto (statements : Array Statement) (m : Machine I O) : Machine I O :=
  { m with program := { m.program with statements } }

def Work.onto (statements : Array Statement) (w : Work I O) : Work I O :=
  { w with machine := w.machine.onto statements }

namespace Action

/-! ### Actions that do not look at the statements -/

/-- The outcome on a machine with other statements. -/
def onto {α : Type} (statements : Array Statement) :
    EStateM.Result Diagnostic (Work I O) α → EStateM.Result Diagnostic (Work I O) α
  | .ok x w => .ok x (w.onto statements)
  | .error d w => .error d (w.onto statements)

/-- The action does the same whatever statements the program has. -/
def Blind {α : Type} (a : Action I O α) : Prop :=
  ∀ statements w, a (w.onto statements) = onto statements (a w)

section Rules

variable {α β : Type} {a : Action I O α} {f : α → Action I O β}

theorem blind_pure (x : α) : Blind (pure x : Action I O α) := fun _ _ => rfl

theorem blind_fail (cause : Cause) (span : Span) : Blind (fail cause span : Action I O α) := fun _ _ => rfl

theorem Blind.bind (ha : Blind a) (hf : ∀ x, Blind (f x)) : Blind (a >>= f) := by
  intro statements w
  rw [bind_apply, bind_apply, ha statements w]
  cases a w with
  | ok x w' => exact hf x statements w'
  | error d w' => rfl

theorem blind_ite {p : Prop} [Decidable p] {a' : Action I O α} (ha : Blind a) (ha' : Blind a') :
    Blind (if p then a else a') := by
  split
  · exact ha
  · exact ha'

/-- A work can be looked at, if not at the statements. -/
theorem blind_get {f : Work I O → Action I O β} (h : ∀ statements w, f (w.onto statements) = f w)
    (hf : ∀ w, Blind (f w)) : Blind (get >>= f) := by
  intro statements w
  show f (w.onto statements) (w.onto statements) = onto statements (f w w)
  rw [h, hf]

theorem blind_here : Blind (here : Action I O Span) := fun _ _ => rfl

theorem blind_peek? : Blind (peek? : Action I O (Option Token)) := fun _ _ => rfl

theorem blind_parse (p : Parse α) : Blind (parse p : Action I O α) := by
  intro statements w
  have hsame : p (w.onto statements).cursor = p w.cursor := rfl
  unfold parse
  rw [hsame]
  cases p w.cursor <;> rfl

theorem blind_evaluating (evaluation : Store → Cursor → Expression.Evaluation) :
    Blind (evaluating evaluation : Action I O Float) := by
  intro statements w
  have hsame : evaluation (w.onto statements).machine.store (w.onto statements).cursor =
    evaluation w.machine.store w.cursor := rfl
  unfold evaluating
  rw [hsame]
  generalize evaluation w.machine.store w.cursor = e
  obtain ⟨value, rest, trace⟩ := e
  cases value <;> rfl

/-- Streams are none of the statements. -/
theorem blind_stream (e : Streams I O → Except Diagnostic α × Streams I O) : Blind (stream e) := by
  intro statements w
  have hstreams : (w.onto statements).machine.streams = w.machine.streams := rfl
  unfold stream
  rw [hstreams]
  obtain ⟨result, s⟩ := e w.machine.streams
  cases result <;> rfl

theorem blind_write [Writer O] (text : String) : Blind (write text : Action I O Unit) := by
  rw [write_eq]
  exact blind_stream _

theorem blind_note (r : Record) : Blind (note r : Action I O Unit) := fun _ _ => rfl

theorem blind_store (name : Token) (index : Option Float) (value : Float) (span : Span) :
    Blind (store name index value span : Action I O Unit) := by
  intro statements w
  cases index with
  | none => rfl
  | some index =>
    have hstore : (w.onto statements).machine.store = w.machine.store := rfl
    simp only [store, assign, hstore]
    cases w.machine.store.assign name.lexeme index value <;> rfl

theorem blind_declare (name : Token) (size : Float) (span : Span) :
    Blind (declare name size span : Action I O Nat) := by
  intro statements w
  have hstore : (w.onto statements).machine.store = w.machine.store := rfl
  simp only [declare, hstore]
  cases w.machine.store.declare name.lexeme size <;> rfl

/-- The labels alone are looked at. -/
theorem blind_target (label : Token) : Blind (target label : Action I O Nat) := by
  intro statements w
  cases h : w.machine.program.location? label.lexeme with
  | some i =>
    have h' : (w.onto statements).machine.program.location? label.lexeme = some i := h
    rw [target_of_some h, target_of_some h']
    rfl
  | none =>
    have h' : (w.onto statements).machine.program.location? label.lexeme = none := h
    rw [target_of_none h, target_of_none h']
    rfl

end Rules

theorem blind_expression : Blind (expression : Action I O Float) := blind_evaluating evaluate

theorem blind_index? : Blind (index? : Action I O (Option Float)) := by
  refine (blind_parse _).bind fun opened => blind_ite ?_ (blind_pure none)
  exact (blind_evaluating evaluateIndex).bind fun x => blind_pure (some x)

theorem blind_finish (kind : StatementKind) : Blind (finish kind : Action I O Unit) := blind_parse _

/-! ### Statements -/

theorem blind_assignment : Blind (assignment : Action I O Flow) := by
  refine (blind_parse _).bind fun name => blind_index?.bind fun index => ?_
  refine blind_here.bind fun here => (blind_parse _).bind fun _ => ?_
  refine blind_expression.bind fun value => (blind_finish _).bind fun _ => ?_
  exact (blind_store name index value _).bind fun _ => blind_pure _

theorem blind_checkCondition : Blind (checkCondition : Action I O Unit) := by
  refine blind_get (fun _ _ => rfl) fun w => ?_
  simp only
  split
  · exact blind_fail _ _
  · split
    · exact blind_ite (blind_fail _ _) (blind_pure ())
    · exact blind_pure ()

theorem blind_conditional : Blind (conditional : Action I O Flow) := by
  refine blind_checkCondition.bind fun _ => blind_expression.bind fun condition => ?_
  refine (blind_parse _).bind fun _ => (blind_parse _).bind fun label => ?_
  refine (blind_finish _).bind fun _ => blind_ite ?_ (blind_pure _)
  exact (blind_target label).bind fun _ => blind_pure _

theorem blind_goto : Blind (goto : Action I O Flow) := by
  refine (blind_parse _).bind fun label => (blind_finish _).bind fun _ => ?_
  exact (blind_target label).bind fun _ => blind_pure _

theorem blind_arrayName : Blind (arrayName : Action I O Token) := by
  refine blind_peek?.bind fun o => ?_
  split <;> exact blind_parse _

theorem blind_dim : Blind (dim : Action I O Flow) := by
  refine blind_arrayName.bind fun name => (blind_parse _).bind fun _ => ?_
  refine blind_expression.bind fun size => (blind_parse _).bind fun _ => ?_
  refine blind_here.bind fun here => (blind_finish _).bind fun _ => ?_
  exact (blind_declare name size _).bind fun n => (blind_note _).bind fun _ => blind_pure _

theorem blind_separated {item : Action I O Unit} (h : Blind item) (fuel : Nat) :
    Blind (separated item fuel : Action I O Unit) := by
  induction fuel with
  | zero => exact blind_pure ()
  | succ fuel ih => exact h.bind fun _ => (blind_parse _).bind fun more => blind_ite ih (blind_pure ())

theorem blind_printItem [Writer O] : Blind (printItem : Action I O Unit) := by
  have hinvalid : Blind (do fail .invalidPrint (← here) : Action I O Unit) :=
    blind_here.bind fun here => blind_fail _ here
  refine blind_peek?.bind fun o => ?_
  split
  · refine blind_ite ?_ (blind_ite ?_ hinvalid)
    · exact (blind_parse _).bind fun _ => blind_write _
    · exact blind_expression.bind fun value => blind_write _
  · exact hinvalid

theorem blind_print [Writer O] : Blind (print : Action I O Flow) := by
  refine blind_get (fun _ _ => rfl) fun w => ?_
  rw [printItems_eq]
  refine (blind_separated blind_printItem _).bind fun _ => ?_
  exact (blind_write _).bind fun _ => (blind_finish _).bind fun _ => blind_pure _

theorem blind_readNumber [Reader I] [Writer O] (name : Token) :
    Blind (readNumber name : Action I O Float) := by
  unfold readNumber
  rw [flush_eq, entry_eq]
  refine (blind_stream _).bind fun _ => (blind_stream _).bind fun entry => ?_
  split
  · exact blind_fail _ _
  · exact blind_fail _ _
  · split
    · exact blind_pure _
    · exact blind_fail _ _

theorem blind_readTarget [Reader I] [Writer O] : Blind (readTarget : Action I O Unit) := by
  refine (blind_parse _).bind fun name => (blind_readNumber name).bind fun value => ?_
  exact blind_index?.bind fun index => blind_here.bind fun here => blind_store name index value _

theorem blind_prompt [Writer O] : Blind (prompt : Action I O Unit) := by
  refine blind_peek?.bind fun o => ?_
  split
  · refine blind_ite ?_ (blind_pure ())
    exact (blind_parse _).bind fun _ => (blind_write _).bind fun _ => (blind_parse _).bind fun _ =>
      blind_pure ()
  · exact blind_pure ()

theorem blind_read [Reader I] [Writer O] : Blind (read : Action I O Flow) := by
  refine blind_prompt.bind fun _ => blind_get (fun _ _ => rfl) fun w => ?_
  rw [readTargets_eq]
  exact (blind_separated blind_readTarget _).bind fun _ => (blind_finish _).bind fun _ => blind_pure _

theorem blind_statement [Reader I] [Writer O] (kind : StatementKind) :
    Blind (statement kind : Action I O Flow) := by
  cases kind with
  | assignment => exact blind_assignment
  | «if» => exact (blind_parse _).bind fun _ => blind_conditional
  | goto => exact (blind_parse _).bind fun _ => blind_goto
  | dim => exact (blind_parse _).bind fun _ => blind_dim
  | print => exact (blind_parse _).bind fun _ => blind_print
  | read => exact (blind_parse _).bind fun _ => blind_read
  | stop => exact (blind_parse _).bind fun _ => (blind_finish _).bind fun _ => blind_pure _
  | «end» => exact (blind_parse _).bind fun _ => (blind_finish _).bind fun _ => blind_pure _

end Action

namespace Machine

/-! ### Steps -/

/-- The machines agree on all but the cache, the log and the places of the statements. -/
structure Like (m m' : Machine I O) : Prop where
  texts : m'.program.statements.map Statement.text = m.program.statements.map Statement.text
  same : m.Same (m'.onto m.program.statements)

variable {m m' n n' : Machine I O} {s s' : Statement}

theorem Like.note (h : m.Like m') (r r' : Record) : (m.note r).Like (m'.note r') :=
  ⟨h.texts, h.same.note r r'⟩

theorem Like.of_same (h : m.Like m') (hm : m.Same n) (hm' : m'.Same n') : n.Like n' := by
  refine ⟨by rw [hm'.program, hm.program, h.texts], ?_, ?_, ?_, ?_, ?_, ?_⟩
  · rw [onto, hm'.program, hm.program]
    exact h.same.program
  · rw [hm.store, ← h.same.store]
    exact hm'.store
  · rw [hm.phase, ← h.same.phase]
    exact hm'.phase
  · rw [hm.counter, ← h.same.counter]
    exact hm'.counter
  · rw [hm.input, ← h.same.input]
    exact hm'.input
  · rw [hm.sink, ← h.same.sink]
    exact hm'.sink

theorem Like.follow (h : m.Like m') (flow : Flow) :
    (m'.follow flow).1 = (m.follow flow).1 ∧ (m.follow flow).2.Like (m'.follow flow).2 := by
  obtain ⟨htexts, hprogram, hstore, hphase, hcounter, hinput, hsink⟩ := h
  have hnext : m'.counter + 1 = m.counter + 1 := congrArg (· + 1) hcounter
  cases flow with
  | next => exact ⟨rfl, htexts, hprogram, hstore, hphase, hnext, hinput, hsink⟩
  | jump target => exact ⟨rfl, htexts, hprogram, hstore, hphase, rfl, hinput, hsink⟩
  | terminate => exact ⟨rfl, htexts, hprogram, hstore, rfl, hnext, hinput, hsink⟩
  | stop => exact ⟨rfl, htexts, hprogram, hstore, hphase, hcounter, hinput, hsink⟩

/-- The statements under the counters have the same text. -/
theorem Like.statement (h : m.Like m') :
    m'.program.statements[m'.counter]?.map Statement.text =
      m.program.statements[m.counter]?.map Statement.text := by
  have hcounter : m'.counter = m.counter := h.same.counter
  rw [hcounter, ← Array.getElem?_map, ← Array.getElem?_map, h.texts]

theorem like_start {p p' : Program} (h : p'.unplaced = p.unplaced) (input : I) (sink : O)
    (log log' : Log) : (start p input sink log).Like (start p' input sink log') := by
  obtain ⟨htexts, hlabels⟩ := Program.unplaced_eq_iff.mp h
  refine ⟨htexts, ?_, rfl, rfl, rfl, rfl, rfl⟩
  show ({ p' with statements := p.statements } : Program) = p
  rw [hlabels]

theorem Like.conclude [Writer O] (h : m.Like m') :
    m'.conclude.1 = m.conclude.1 ∧ m.conclude.2.Like m'.conclude.2 :=
  conclude_both h.same.sink
    (fun _ => ⟨h.texts, h.same.program, h.same.store, h.same.phase, h.same.counter, h.same.input, rfl⟩)
    fun r r' hflushed => hflushed.note r r'

variable [Reader I] [Writer O]

/-- A statement does the same to both machines. -/
theorem Like.executeTokens (h : m.Like m') (htext : s'.text = s.text) {tokens : List Token}
    (hclosed : isClosed s.text = true) (ht : tokenize s.text = .ok tokens) :
    (m'.executeTokens s' tokens).1 = (m.executeTokens s tokens).1 ∧
      (m.executeTokens s tokens).2.Like (m'.executeTokens s' tokens).2 := by
  unfold Machine.executeTokens
  rw [htext]
  cases hk : classify s.text tokens with
  | error d => exact ⟨rfl, h⟩
  | ok kind =>
    simp only
    have hnoted := h.note (.executing (m.counter + 1) s.line kind s.text)
      (.executing (m'.counter + 1) s'.line kind s.text)
    generalize m.note _ = n at hnoted ⊢
    generalize m'.note _ = n' at hnoted ⊢
    have hagrees := statement_agrees hclosed ht kind hnoted.same s.text.utf8ByteSize s.text.utf8ByteSize
    have hblind := Action.blind_statement kind n.program.statements
      ⟨.ofTokens tokens s.text.utf8ByteSize, n'⟩
    have hkept := statement_within frame_alike ht kind s.text.utf8ByteSize n
    have hkept' := statement_within frame_alike ht kind s.text.utf8ByteSize n'
    -- the outcome on the statements of the first machine is that on its own statements
    rw [Work.onto] at hblind
    rw [hblind] at hagrees
    unfold Action.Leads at hkept hkept'
    generalize Action.statement kind ⟨.ofTokens tokens s.text.utf8ByteSize, n⟩ = r at hagrees hkept ⊢
    generalize Action.statement kind ⟨.ofTokens tokens s.text.utf8ByteSize, n'⟩ = r' at hagrees hkept' ⊢
    have hlike : ∀ w w' : Work I O, n.Alike w.machine → n'.Alike w'.machine →
        w.machine.Same (w'.machine.onto n.program.statements) → w.machine.Like w'.machine := by
      intro w w' hw hw' hsame
      refine ⟨by rw [hw'.program, hw.program, hnoted.texts], ?_⟩
      rw [hw.program]
      exact hsame
    cases r with
    | ok flow w =>
      cases r' with
      | ok flow' w' =>
        obtain ⟨rfl, hsame⟩ := hagrees
        obtain ⟨hstep, hafter⟩ := (hlike w w' hkept hkept' hsame).follow flow
        exact ⟨congrArg Except.ok hstep, hafter⟩
      | error d' w' => exact hagrees.elim
    | error d w =>
      cases r' with
      | ok flow' w' => exact hagrees.elim
      | error d' w' =>
        obtain ⟨rfl, hsame⟩ := hagrees
        exact ⟨rfl, hlike w w' hkept hkept' hsame⟩

theorem Like.execute (h : m.Like m') (hm : m.Coherent) (hm' : m'.Coherent)
    (hs : m.program.statements[m.counter]? = some s)
    (hs' : m'.program.statements[m'.counter]? = some s') (htext : s'.text = s.text) :
    (m'.execute s').1 = (m.execute s).1 ∧ (m.execute s).2.Like (m'.execute s').2 := by
  by_cases hclosed : isClosed s.text = true
  · obtain ⟨htokens, hsame, -⟩ := hm.tokensOf hs
    obtain ⟨htokens', hsame', -⟩ := hm'.tokensOf hs'
    have hlike := h.of_same hsame hsame'
    rw [execute_of_isClosed hclosed, execute_of_isClosed (htext ▸ hclosed), htokens, htokens', htext]
    rw [htext] at hlike
    cases ht : tokenize s.text with
    | error d => exact ⟨rfl, hlike⟩
    | ok tokens => exact hlike.executeTokens htext hclosed ht
  · have hclosed : isClosed s.text = false := by simpa using hclosed
    rw [execute_of_not_isClosed hclosed, execute_of_not_isClosed (htext ▸ hclosed), htext]
    exact ⟨rfl, h⟩

/-- Such machines take the same step, up to the place in its fault. -/
theorem Like.step (h : m.Like m') (hm : m.Coherent) (hm' : m'.Coherent) :
    m'.step.1.mapError Diagnostic.unplaced = m.step.1.mapError Diagnostic.unplaced ∧
      m.step.2.Like m'.step.2 := by
  have hcounter : m'.counter = m.counter := h.same.counter
  have hphase : m'.phase = m.phase := h.same.phase
  have hstatement := h.statement
  cases hs : m.program.statements[m.counter]? with
  | none =>
    have hs' : m'.program.statements[m'.counter]? = none := by simpa [hs] using hstatement
    rw [step_eq_of_none hs, step_eq_of_none hs']
    exact ⟨rfl, h⟩
  | some s =>
    obtain ⟨s', hs', htext⟩ : ∃ s', m'.program.statements[m'.counter]? = some s' ∧ s'.text = s.text := by
      simpa [hs] using hstatement
    cases hp : m.phase with
    | terminated =>
      rw [step_eq_of_terminated hs hp, step_eq_of_terminated hs' (hphase.trans hp), hcounter, htext]
      exact ⟨rfl, h⟩
    | running =>
      obtain ⟨hresult, hafter⟩ := h.execute hm hm' hs hs' htext
      rw [step_eq_execute hs hp, step_eq_execute hs' (hphase.trans hp), hcounter]
      refine ⟨?_, hafter⟩
      simp only [hresult]
      cases (m.execute s).1 with
      | ok step => rfl
      | error d => exact congrArg Except.error (Diagnostic.unplaced_within rfl rfl htext)

/-! ### Runs -/

/-- Such machines run in the same way, up to the place in the fault that ends the run. -/
theorem Like.run (h : m.Like m') (hm : m.Coherent) (hm' : m'.Coherent) (fuel : Nat) :
    (m'.run fuel).1.map (Except.mapError Diagnostic.unplaced) =
        (m.run fuel).1.map (Except.mapError Diagnostic.unplaced) ∧
      (m.run fuel).2.Like (m'.run fuel).2 := by
  induction fuel generalizing m m' with
  | zero => exact ⟨rfl, h⟩
  | succ fuel ih =>
    obtain ⟨hresult, hafter⟩ := h.step hm hm'
    have hnext := hm.step.2
    have hnext' := hm'.step.2
    rw [Machine.run, Machine.run]
    generalize m.step = r at hresult hafter hnext
    generalize m'.step = r' at hresult hafter hnext'
    obtain ⟨result, n⟩ := r
    obtain ⟨result', n'⟩ := r'
    replace hresult : result'.mapError Diagnostic.unplaced = result.mapError Diagnostic.unplaced := hresult
    cases result with
    | error d =>
      cases result' with
      | error d' =>
        have hd : d'.unplaced = d.unplaced := Except.error.inj hresult
        exact ⟨congrArg (fun d => some (Except.error d)) hd, hafter⟩
      | ok step' => cases hresult
    | ok step =>
      cases result' with
      | error d' => cases hresult
      | ok step' =>
        obtain rfl : step' = step := Except.ok.inj hresult
        cases step' with
        | «continue» => exact ih hafter hnext hnext'
        | stopped =>
          obtain ⟨hend, hbehind⟩ := Like.conclude hafter
          exact ⟨congrArg (fun r => some (Except.mapError Diagnostic.unplaced r)) hend, hbehind⟩

end Machine

open Source

/-- What a run leaves behind, for programs that are the same up to places. -/
theorem runSource_unplaced [Reader I] [Writer O] {source source' : String}
    (h : Program.unplacedResult (Program.load source') = Program.unplacedResult (Program.load source))
    (fuel : Nat) (input : I) (sink : O) (detail : Detail) :
    (runSource fuel source' input sink detail).result.map (Except.mapError Diagnostic.unplaced) =
        (runSource fuel source input sink detail).result.map (Except.mapError Diagnostic.unplaced) ∧
      (runSource fuel source' input sink detail).sink = (runSource fuel source input sink detail).sink := by
  unfold runSource prepare
  rcases Program.unplacedResult_eq_iff.mp h with
    ⟨p, p', hload, hload', hsame⟩ | ⟨d, d', hload, hload', hsame⟩
  · rw [hload, hload']
    obtain ⟨hresult, hlike⟩ := (Machine.like_start hsame input sink _ _).run
      (Machine.Reachable.start input sink _).coherent.2
      (Machine.Reachable.start input sink _).coherent.2 fuel
    exact ⟨hresult, hlike.same.sink⟩
  · rw [hload, hload']
    exact ⟨congrArg (fun d => some (Except.error d)) hsame, rfl⟩

/-- **The layout of a source is not seen.**  Lines without code, carriage returns before line feeds, blanks at
the ends of lines and comments behind them, in any number of changes: what is loaded is the same, or the same
fault, and so are the result and the output of every run, up to the places in the source. -/
theorem layout_unseen [Reader I] [Writer O] {source source' : String}
    (h : Relation.ReflTransGen Edit source.toList source'.toList) :
    Program.unplacedResult (Program.load source') = Program.unplacedResult (Program.load source) ∧
    ∀ (fuel : Nat) (input : I) (sink : O) (detail : Detail),
      (runSource fuel source' input sink detail).result.map (Except.mapError Diagnostic.unplaced) =
          (runSource fuel source input sink detail).result.map (Except.mapError Diagnostic.unplaced) ∧
        (runSource fuel source' input sink detail).sink =
          (runSource fuel source input sink detail).sink := by
  have hload := Program.load_unplaced (codes_eq_of_edits h)
  exact ⟨hload, fun fuel input sink detail => runSource_unplaced hload fuel input sink detail⟩

/-- A line with a comment and a comment behind a line that prints two slashes. -/
theorem layout_unseen_comments :
    Relation.ReflTransGen Edit "print \"//\";\nstop;".toList
      "\t// start\nprint \"//\"; // two slashes\nstop;".toList ∧
    ∀ (fuel : Nat) (input : List UInt8),
      (runSource fuel "\t// start\nprint \"//\"; // two slashes\nstop;" input Sink.unlimited .warn).sink =
        (runSource fuel "print \"//\";\nstop;" input Sink.unlimited .warn).sink := by
  have hinsert : Edit "print \"//\";\nstop;".toList "\t// start\nprint \"//\";\nstop;".toList := by
    simpa using @Edit.insert [] "print \"//\";\nstop;".toList ['\t'] "// start".toList (.inl rfl)
      (List.forall_mem_singleton.mpr rfl) (.inr ⟨" start".toList, by decide, rfl⟩)
  have hcomment : Edit "\t// start\nprint \"//\";\nstop;".toList
      "\t// start\nprint \"//\"; // two slashes\nstop;".toList := by
    simpa using @Edit.comment "\t// start\n".toList "print \"//\";".toList "\nstop;".toList
      " two slashes".toList (.inr ⟨"\t// start".toList, by decide⟩) (by decide)
      ⟨[], "\nstop;".toList, rfl, by simp, .inr ⟨"stop;".toList, rfl⟩⟩ (by decide) (by decide)
  have hedits := Relation.ReflTransGen.single hinsert |>.tail hcomment
  exact ⟨hedits, fun fuel input => ((layout_unseen hedits).2 fuel input Sink.unlimited .warn).2⟩

end Primer
