import Primer.Proofs.Machine.Intake

/-!
# Programs that only jump forward

Where no jump leads back, each step that goes on has come further, so a run ends behind the last statement at the
latest.

* `Command.label?`, `Program.Forward p`: the label of a jump, and that all jumps lead to later statements.
* `Program.jumpsForward p`: a test for such programs.
* `Reachable.counter_lt_of_continue`: a step that goes on leaves its statement behind.
* `Reachable.exists_result`, `Reachable.length_passedBy_le`: a run ends, and how many steps it takes.
* `Machine.run_of_result`: a run that has ended does nothing with more steps.
-/

namespace Primer

/-! ### Jumps -/

/-- The label of a jump. -/
def Command.label? : Command → Option String
  | .branch _ label | .goto label => some label
  | _ => none

namespace Program

/-- Each `goto` and each `if` whose label is there leads to a later statement. -/
def Forward (p : Program) : Prop :=
  ∀ (i : Nat) (s : Statement) (tokens : List Token) (c : Command) (label : String) (target : Nat),
    p.statements[i]? = some s → tokenize s.text = .ok tokens → c.SpelledBy tokens →
      c.label? = some label → p.location? label = some target → i < target

/-- Where the word in front of the last token of a statement leads, if it is a label. -/
def lastTarget? (p : Program) (s : Statement) : Option Nat :=
  match tokenize s.text with
  | .ok tokens => (tokens.dropLast.getLast?.map Token.lexeme).bind p.location?
  | .error _ => none

/-- A test for programs that only jump forward.  It takes every statement for a jump. -/
def jumpsForward (p : Program) : Bool :=
  p.statements.toList.zipIdx.all fun (s, i) => (p.lastTarget? s).all (i < ·)

end Program

/-- The label stands in front of the semicolon. -/
theorem Command.SpelledBy.lexeme_of_label? {c : Command} {tokens : List Token} (h : c.SpelledBy tokens)
    {label : String} (hlabel : c.label? = some label) :
    tokens.dropLast.getLast?.map Token.lexeme = some label := by
  cases h with
  | @branch _ read word opening closing goto name semicolon =>
    have hsplit : word :: opening :: (read ++ closing :: goto :: name :: [semicolon]) =
        ((word :: opening :: (read ++ [closing, goto])) ++ [name]) ++ [semicolon] := by simp
    rw [hsplit, List.dropLast_concat, List.getLast?_concat]
    exact hlabel
  | goto => exact hlabel
  | assign | dim | print | read | stop | «end» => cases hlabel

theorem Program.forward_of_jumpsForward {p : Program} (h : p.jumpsForward = true) : p.Forward := by
  intro i s tokens c label target hs ht hc hlabel htarget
  have hmem : (s, i) ∈ p.statements.toList.zipIdx := by
    rw [List.mem_zipIdx_iff_getElem?, Array.getElem?_toList]
    exact hs
  have hlast : p.lastTarget? s = some target := by
    rw [Program.lastTarget?, ht]
    simp only [hc.lexeme_of_label? hlabel]
    exact htarget
  have hall := List.all_eq_true.mp h _ hmem
  simpa [hlast] using hall

/-- A command goes on to the next statement or to one that its label marks. -/
theorem Command.Effect.counter {I O : Type} {cs : List (List Char)} {m m' : Machine I O} {c : Command}
    (h : c.Effect cs m .continue m') : m'.counter = m.counter + 1 ∨
      ∃ label, c.label? = some label ∧ Source.Carries cs m'.counter label.toList := by
  cases h with
  | assign _ _ _ hm' | dim _ _ _ hm' | untaken _ _ hm' | «end» hm' => exact .inl hm'.counter
  | goto hlabel hm' | taken _ _ hlabel hm' =>
    rw [hm'.counter]
    exact .inr ⟨_, rfl, hlabel⟩

namespace Machine

variable {I O : Type}

section Forward

variable [Reader I] [Writer O] {source : String} {p : Program} {m : Machine I O}

/-- A step that goes on has executed one of the statements, and it goes to the next one or to a label. -/
theorem Reachable.exists_of_continue (hp : Program.load source = .ok p) (hm : m.Reachable p)
    (hstep : m.step.1 = .ok .continue) : ∃ s tokens, ∃ c : Command, p.statements[m.counter]? = some s ∧
      tokenize s.text = .ok tokens ∧ c.SpelledBy tokens ∧ (m.step.2.counter = m.counter + 1 ∨
        ∃ label, c.label? = some label ∧ p.location? label = some m.step.2.counter) := by
  have hvalid := (hm.valid (Program.marked_of_load hp)).store
  obtain ⟨rfl, hcoherent⟩ := hm.coherent
  obtain ⟨kind, tokens, flow, m', hx, hform, hallows, -, -, hcounter, -, hm'⟩ :=
    hcoherent.executed_of_step hstep
  obtain ⟨c, rfl, hc⟩ := mem_form_iff.mp hform
  obtain ⟨-, s, hs, -, ht, -⟩ := id hx
  refine ⟨s, tokens, c, hs, ht, hc, ?_⟩
  by_cases hstreams : c.kind = .print ∨ c.kind = .read
  · -- neither of them jumps
    have hnext : flow = .next := by
      rcases hstreams with hkind | hkind
      · rwa [hkind] at hallows
      · rwa [hkind] at hallows
    rw [hm', hnext, ← hcounter]
    exact .inl rfl
  · obtain ⟨hprint, hread⟩ := not_or.mp hstreams
    have hlabels := (Program.holds_of_load hp).1.labels
    have heffect := hcoherent.effect_of_step hvalid (fun label i => (hlabels label i).mp) hx hc hprint hread
      hstep
    refine heffect.counter.imp_right ?_
    rintro ⟨label, hlabel, hcarries⟩
    exact ⟨label, hlabel, (hlabels label _).mpr hcarries⟩

/-- In a program that only jumps forward, a step that goes on leaves its statement behind. -/
theorem Reachable.counter_lt_of_continue (hp : Program.load source = .ok p) (hforward : p.Forward)
    (hm : m.Reachable p) (hstep : m.step.1 = .ok .continue) :
    m.counter < m.step.2.counter ∧ m.counter < p.statements.size := by
  obtain ⟨s, tokens, c, hs, ht, hc, hcounter⟩ := hm.exists_of_continue hp hstep
  obtain ⟨hlt, -⟩ := Array.getElem?_eq_some_iff.mp hs
  refine ⟨?_, hlt⟩
  rcases hcounter with hnext | ⟨label, hlabel, hlocation⟩
  · omega
  · exact hforward _ s tokens c label _ hs ht hc hlabel hlocation

/-! ### Runs -/

/-- A run ends when the statements do. -/
theorem Reachable.exists_result (hp : Program.load source = .ok p) (hforward : p.Forward)
    (hm : m.Reachable p) {fuel : Nat} (hfuel : p.statements.size - m.counter < fuel) :
    ∃ result m', m.run fuel = (some result, m') := by
  -- the statements at the counter and behind it are what is left to do
  induction fuel generalizing m with
  | zero => exact absurd hfuel (Nat.not_lt_zero _)
  | succ fuel ih =>
    have hcounter := hm.counter_lt_of_continue hp hforward
    have hnext := hm.step
    rw [Machine.run]
    generalize m.step = r at hcounter hnext
    obtain ⟨result, m'⟩ := r
    cases result with
    | error d => exact ⟨_, _, rfl⟩
    | ok step =>
      cases step with
      | stopped => exact ⟨_, _, rfl⟩
      | «continue» =>
        obtain ⟨hlt, hsize⟩ := hcounter rfl
        have hlt : m.counter < m'.counter := hlt
        exact ih hnext (by omega)

/-- It takes one step for each of them, and one more. -/
theorem Reachable.length_passedBy_le (hp : Program.load source = .ok p) (hforward : p.Forward)
    (hm : m.Reachable p) (fuel : Nat) : (m.passedBy fuel).length ≤ p.statements.size - m.counter + 1 := by
  induction fuel generalizing m with
  | zero => exact Nat.zero_le _
  | succ fuel ih =>
    have hcounter := hm.counter_lt_of_continue hp hforward
    have hnext := hm.step
    rw [passedBy, List.length_cons]
    generalize m.step = r at hcounter hnext
    obtain ⟨result, m'⟩ := r
    cases result with
    | error d => exact Nat.le_add_left 1 _
    | ok step =>
      cases step with
      | stopped => exact Nat.le_add_left 1 _
      | «continue» =>
        obtain ⟨hlt, hsize⟩ := hcounter rfl
        have hlt : m.counter < m'.counter := hlt
        have hrest : (m'.passedBy fuel).length ≤ p.statements.size - m'.counter + 1 := ih hnext
        show (m'.passedBy fuel).length + 1 ≤ p.statements.size - m.counter + 1
        omega

end Forward

/-- A run that has ended is the same with more steps. -/
theorem run_of_result [Reader I] [Writer O] {m m' : Machine I O} {result : Except Diagnostic Unit}
    {fuel fuel' : Nat}
    (h : m.run fuel = (some result, m')) (hle : fuel ≤ fuel') : m.run fuel' = (some result, m') := by
  induction fuel generalizing m fuel' with
  | zero => cases h
  | succ fuel ih =>
    obtain ⟨fuel', rfl⟩ := Nat.exists_eq_add_of_le' (Nat.le_trans (Nat.le_add_left 1 fuel) hle)
    rw [Machine.run] at h ⊢
    generalize m.step = r at h
    obtain ⟨next, m₁⟩ := r
    cases next with
    | error d => exact h
    | ok step =>
      cases step with
      | stopped => exact h
      | «continue» => exact ih h (Nat.le_of_succ_le_succ hle)

/-- **Programs that only jump forward end, and so does every `read`.**  Where each `goto` and each `if` whose label
is there leads to a later statement, a run from the start ends, for every input and every output, with a result or a
fault, and takes one step more than there are statements at most.  In every program the search for an entry ends
within one line more than there are, and it takes at least one byte for each line that it passes over; a `read`
has no more targets than tokens, and whatever becomes of it, it takes whole lines of at least one byte each. -/
theorem forward_run_and_read_end [Reader I] [Writer O] :
    (∀ (source : String) (p : Program), Program.load source = .ok p → p.Forward →
      ∀ (input : I) (sink : O) (log : Log),
        (∃ result m', ∀ fuel, p.statements.size + 1 ≤ fuel →
          (start p input sink log).run fuel = (some result, m')) ∧
        ∀ fuel, ((start p input sink log).passedBy fuel).length ≤ p.statements.size + 1) ∧
    (∀ input : List UInt8,
      (∀ fuel, (Input.lines input).length < fuel → Input.seek fuel input = some (Input.entry input)) ∧
      ∃ blank, (∀ l ∈ blank, Input.found? l = none ∧ l ≠ []) ∧
        blank.length + (Input.entry input).2.length ≤ input.length ∧
        (Input.entry input = (.ended, []) ∧ Input.lines input = blank ∨
          ∃ line, Input.found? line = some (Input.entry input).1 ∧
            Input.lines input = blank ++ line :: Input.lines (Input.entry input).2)) ∧
    (∀ (w : Work I O) (fuel : Nat), w.cursor.rest.length < fuel →
      Action.readTargets fuel w = Action.readTargets (w.cursor.rest.length + 1) w) ∧
    ∀ (p : Program) (m : Machine (List UInt8) O) (tokens : List Token),
      m.Reachable p → m.Executing .read tokens → ∃ front,
        Input.lines m.input = front ++ Input.lines m.step.2.input ∧
        m.input = front.flatten ++ m.step.2.input ∧ (∀ l ∈ front, l ≠ []) ∧
          front.length + m.step.2.input.length ≤ m.input.length := by
  refine ⟨fun source p hp hforward input sink log => ⟨?_, fun fuel => ?_⟩,
    fun input => ⟨fun fuel => Input.seek_eq, Input.exists_skipped_of_entry input⟩,
    fun w fuel hfuel => Action.readTargets_eq_of_lt hfuel (Nat.lt_succ_self _), fun p m tokens hm hx => ?_⟩
  · have hstart : (start p input sink log).Reachable p := .start input sink log
    have hfuel : p.statements.size - (start p input sink log).counter < p.statements.size + 1 :=
      Nat.lt_succ_of_le (Nat.sub_le _ _)
    obtain ⟨result, m', hrun⟩ := hstart.exists_result hp hforward hfuel
    exact ⟨result, m', fun fuel hle => run_of_result hrun hle⟩
  · exact (Reachable.start input sink log).length_passedBy_le hp hforward fuel
  · obtain ⟨front, hlines⟩ := hm.coherent.2.draws_of_read hx
    exact ⟨front, hlines, Input.bytes_of_lines hlines⟩

/-- A `read` that passes over two lines, and a jump over a statement to the last one. -/
theorem forward_run_and_read_end_jump :
    ∃ p, Program.load "read y;\nif (y) goto x;\nprint y;\nx: stop;" = .ok p ∧ p.Forward ∧
      (∃ result m', ∀ fuel, 5 ≤ fuel →
        (start p [10, 32, 10, 55, 10] .unlimited (.init .warn) : Machine).run fuel = (some result, m')) ∧
      ∃ front, Input.lines [10, 32, 10, 55, 10] =
          front ++ Input.lines (start p [10, 32, 10, 55, 10] .unlimited (.init .warn) : Machine).step.2.input ∧
        front.length +
          (start p [10, 32, 10, 55, 10] .unlimited (.init .warn) : Machine).step.2.input.length ≤ 5 := by
  have hload : (Program.load "read y;\nif (y) goto x;\nprint y;\nx: stop;").toOption.map (fun p =>
      (p.statements.size, p.statements[0]?, p.jumpsForward)) =
        some (4, some ⟨"read y;", 1, 0⟩, true) := by decide +kernel
  have ht : tokenize "read y;" = .ok [⟨.keyword .read, "read", ⟨0, 4⟩⟩, ⟨.identifier, "y", ⟨5, 6⟩⟩,
      ⟨.punctuation .semicolon, ";", ⟨6, 7⟩⟩] := by decide +kernel
  cases hp : Program.load "read y;\nif (y) goto x;\nprint y;\nx: stop;" with
  | error d =>
    rw [hp] at hload
    cases hload
  | ok p =>
    rw [hp] at hload
    simp only [Except.toOption, Option.map_some, Option.some.injEq, Prod.mk.injEq] at hload
    obtain ⟨hsize, hs, hjumps⟩ := hload
    have hforward := Program.forward_of_jumpsForward hjumps
    have hstart : (start p [10, 32, 10, 55, 10] .unlimited (.init .warn) : Machine).Reachable p :=
      .start _ _ _
    have hread : (start p [10, 32, 10, 55, 10] .unlimited (.init .warn) : Machine).Executing .read _ :=
      ⟨rfl, _, hs, by decide +kernel, ht, rfl⟩
    obtain ⟨hends, -, -, htakes⟩ := forward_run_and_read_end (I := List UInt8) (O := Sink)
    obtain ⟨⟨result, m', hrun⟩, -⟩ := hends _ p hp hforward [10, 32, 10, 55, 10] .unlimited (.init .warn)
    rw [hsize] at hrun
    obtain ⟨front, hlines, -, -, hlength⟩ := htakes p _ _ hstart hread
    exact ⟨p, rfl, hforward, ⟨result, m', hrun⟩, front, hlines, hlength⟩

end Machine

end Primer
