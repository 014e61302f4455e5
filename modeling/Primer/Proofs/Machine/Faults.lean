import Primer.Proofs.Machine.Twins
import Primer.Proofs.Program.Offsets

/-!
# Where faults are pinned

A fault of a session is pinned to the statement under the counter and lies inside its text; a fault of
loading is pinned to the first line of code that cannot be added, and lies inside its code.  The point
behind a text is never blamed: it would be where there is no token left to blame, and before the end of a
statement there is always its semicolon.

* `Machine.Pins m d`: the fault `d` is pinned as the counter of `m` says.
* `Program.Blames source d`: the fault `d` is pinned to a line of code of the source.
* `faults_pinned`: so it is for all faults.
-/

namespace Primer

variable {I O : Type}

open Text Source

namespace Machine

/-- The fault is pinned to the statement under the counter and lies inside its text; without such a
statement it says so. -/
def Pins (m : Machine I O) (d : Diagnostic) : Prop :=
  match m.program.statements[m.counter]? with
  | none => d = ⟨.ranOff, .single 0, none⟩
  | some s => d.context = some ⟨m.counter + 1, s.text, s.offset⟩ ∧ d.span.Inside s.text.utf8ByteSize

/-- A fault stays pinned where the counter stays. -/
theorem Pins.of_eq {m m' : Machine I O} {d : Diagnostic} (h : m.Pins d) (hprogram : m'.program = m.program)
    (hcounter : m'.counter = m.counter) : m'.Pins d := by
  unfold Pins at *
  rwa [hprogram, hcounter]

/-! ### Statements -/

variable [Reader I] [Writer O]

/-- A statement that fails while it is executed blames a place inside its text. -/
theorem inside_of_statement_error {text : String} {tokens : List Token} {kind : StatementKind}
    (hclosed : isClosed text = true) (ht : tokenize text = .ok tokens) (hne : text.toList ≠ [])
    {m : Machine I O} {length : Nat} {d : Diagnostic} {w : Work I O}
    (hw : Action.statement kind ⟨.ofTokens tokens length, m⟩ = .error d w) :
    d.Placed (Span.Inside text.utf8ByteSize) := by
  have hpos := byteLength_pos hne
  have hinside := (lexed_of_tokenize ht).inside
  rw [byteLength_toList] at hpos hinside
  have hfirst : (Span.single 0).Inside text.utf8ByteSize := inside_single hpos
  -- the point behind the text is no good place, so the statement is told another length
  have hplaced : Work.Placed (Span.Inside text.utf8ByteSize) ⟨.ofTokens tokens 0, m⟩ :=
    ⟨hinside, isIdentifier_of_tokenize ht, hfirst, hfirst, List.suffix_refl _⟩
  have hkeeps := Action.keeps_statement (joins_inside _) frame_alike kind _ hplaced
  have hagrees := statement_agrees hclosed ht kind (.refl m) length 0
  rw [hw] at hagrees
  cases hw₀ : Action.statement kind ⟨.ofTokens tokens 0, m⟩ with
  | ok flow w₀ =>
    rw [hw₀] at hagrees
    exact hagrees.elim
  | error d₀ w₀ =>
    rw [hw₀] at hagrees
    rw [hagrees.1]
    exact (hkeeps.error hw₀).2

theorem Executes.inside {m : Machine I O} {s : Statement} {r : Except Diagnostic Step × Machine I O}
    (h : m.Executes s r) (hne : s.text.toList ≠ []) {d : Diagnostic} (hd : r.1 = .error d) :
    d.Placed (Span.Inside s.text.utf8ByteSize) := by
  cases h with
  | unclosed =>
    cases hd
    have hpos := byteLength_pos hne
    rw [byteLength_toList] at hpos
    exact ⟨inside_single (by omega), rfl⟩
  | unread _ ht =>
    cases hd
    exact inside_of_tokenize_error ht
  | unknown _ ht _ _ hk =>
    cases hd
    exact inside_of_classify_error ht hne hk
  | failed hclosed ht _ _ _ hw =>
    cases hd
    exact inside_of_statement_error hclosed ht hne hw
  | executed => cases hd

/-- A statement that fails leaves the machine at its place. -/
theorem Executes.still {m : Machine I O} {s : Statement} {r : Except Diagnostic Step × Machine I O}
    (h : m.Executes s r) {d : Diagnostic} (hd : r.1 = .error d) :
    r.2.program = m.program ∧ r.2.phase = m.phase ∧ r.2.counter = m.counter := by
  cases h with
  | unclosed => exact ⟨rfl, rfl, rfl⟩
  | unread _ _ hsame => exact ⟨hsame.program, hsame.phase, hsame.counter⟩
  | unknown _ _ hsame => exact ⟨hsame.program, hsame.phase, hsame.counter⟩
  | failed _ ht hsame _ _ hw =>
    have halike := (statement_within frame_alike ht _ _ _).error hw
    exact ⟨halike.program.trans hsame.program, halike.phase.trans hsame.phase,
      halike.counter.trans hsame.counter⟩
  | executed => cases hd

/-! ### Steps -/

theorem eq_error_of_mapError {α : Type} {result : Except Diagnostic α} {f : Diagnostic → Diagnostic}
    {d : Diagnostic} (h : result.mapError f = .error d) : ∃ d', result = .error d' ∧ d = f d' := by
  cases result with
  | ok x => cases h
  | error d' =>
    cases h
    exact ⟨d', rfl, rfl⟩

/-- A failed step leaves the machine at its place. -/
theorem Coherent.still_of_step {m : Machine I O} (hm : m.Coherent) {d : Diagnostic}
    (hd : m.step.1 = .error d) :
    m.step.2.program = m.program ∧ m.step.2.phase = m.phase ∧ m.step.2.counter = m.counter := by
  have hsteps := hm.steps
  generalize m.step = r at hsteps hd
  cases hsteps with
  | ranOff => exact ⟨rfl, rfl, rfl⟩
  | afterEnd => exact ⟨rfl, rfl, rfl⟩
  | executes _ _ h =>
    obtain ⟨d', hd', -⟩ := eq_error_of_mapError hd
    exact h.still hd'

theorem Coherent.pins {m : Machine I O} (hm : m.Coherent)
    (hne : ∀ (i : Nat) (s : Statement), m.program.statements[i]? = some s → s.text.toList ≠ [])
    {d : Diagnostic} (hd : m.step.1 = .error d) : m.Pins d := by
  have hsteps := hm.steps
  unfold Pins
  generalize m.step = r at hsteps hd
  cases hsteps with
  | ranOff hs =>
    cases hd
    rw [hs]
  | afterEnd hs =>
    cases hd
    have hpos := byteLength_pos (hne _ _ hs)
    rw [byteLength_toList] at hpos
    rw [hs]
    exact ⟨rfl, inside_front hpos (Nat.le_refl _)⟩
  | executes hs _ h =>
    obtain ⟨d', hd', rfl⟩ := eq_error_of_mapError hd
    obtain ⟨hinside, hcontext⟩ := h.inside (hne _ _ hs) hd'
    rw [hs]
    refine ⟨?_, hinside⟩
    simp [Diagnostic.within, hcontext]

end Machine

/-! ### Loading -/

/-- The fault is found in the first line of code that cannot be added to what the lines before it make up,
pinned to the code of this line and inside of it. -/
def Program.Blames (source : String) (d : Diagnostic) : Prop :=
  ∃ before l after p d', codeLines source = before ++ l :: after ∧
    before.foldlM Program.addLine .empty = .ok p ∧ p.addCode l = .error d' ∧
    (∃ line, (lines source.toList)[l.number - 1]? = some line ∧ l.code = trimBlanks (content line)) ∧
    d = { d' with context := some ⟨before.length + 1, String.ofList l.code, l.offset⟩ } ∧
    d.span.Inside (String.ofList l.code).utf8ByteSize

theorem Program.blames_of_load {source : String} {d : Diagnostic} (h : load source = .error d) :
    d = ⟨.missingStop, .single 0, none⟩ ∨ Blames source d := by
  rcases load_eq_error h with hstop | ⟨before, l, after, p, d', hcodes, hbefore, hd', rfl⟩
  · exact .inl hstop
  · have hl : l ∈ codeLines source := by simp [hcodes]
    obtain ⟨front, line, behind, hlines, hof⟩ := exists_line_of_mem_codeLines hl
    have hlead : lead l.code = [] := by rw [hof.code]; exact lead_trimBlanks _
    obtain ⟨hcontext, -, hstart, hpos, hstop⟩ := span_of_addCode_error hof.nonempty hlead hd'
    have hle := hstop.le
    refine .inr ⟨before, l, after, p, d', hcodes, hbefore, hd', ⟨line, ?_, hof.code⟩, ?_, ?_⟩
    · rw [hof.number]
      exact getElem?_number hlines
    · simp [Diagnostic.within, hcontext]
    · rw [← byteLength_toList, String.toList_ofList]
      show d'.span.start < _ ∧ d'.span.start ≤ d'.span.stop ∧ d'.span.stop ≤ _
      omega

/-! ### Sessions -/

/-- **Faults are pinned to what they are about.**  Loading blames the first line of code that cannot be added,
or the want of a stop.  A step blames the statement under the counter, which stays where it is, and so does
a run, whose last step fails or reaches a stop behind which the output cannot be flushed.  All that is
blamed lies inside its text.  The length of the text, at which the point behind it would lie, is of no
consequence to a statement. -/
theorem faults_pinned [Reader I] [Writer O] (source : String) :
    (∀ d, Program.load source = .error d →
      d = ⟨.missingStop, .single 0, none⟩ ∨ Program.Blames source d) ∧
    ∀ p, Program.load source = .ok p → ∀ m : Machine I O, m.Reachable p →
      (∀ d, m.step.1 = .error d → m.step.2.counter = m.counter ∧ m.Pins d ∧
        ∀ s, p.statements[m.counter]? = some s → d.span ≠ .single s.text.utf8ByteSize) ∧
      (∀ fuel d, (m.run fuel).1 = some (.error d) → (m.run fuel).2.Pins d ∨
        ∃ (m' : Machine I O) (reason : String), m'.Reachable p ∧ m'.step.1 = .ok .stopped ∧
          (m.run fuel).2 = { m'.step.2 with sink := (Writer.flush m'.step.2.sink).2 } ∧
          (Writer.flush m'.step.2.sink).1 = .error reason ∧
          d = ⟨.unwritable reason, .single 0, none⟩) ∧
      ∀ s tokens kind, p.statements[m.counter]? = some s → Machine.isClosed s.text = true →
        tokenize s.text = .ok tokens → classify s.text tokens = .ok kind → ∀ length,
          Action.Agrees Work.Twins (Action.statement kind ⟨.ofTokens tokens length, m⟩)
            (Action.statement kind ⟨.ofTokens tokens s.text.utf8ByteSize, m⟩) := by
  refine ⟨fun d hd => Program.blames_of_load hd, fun p hp => ?_⟩
  have hpins : ∀ m : Machine I O, m.Reachable p → ∀ d, m.step.1 = .error d → m.Pins d := by
    intro m hm d hd
    obtain ⟨rfl, hcoherent⟩ := hm.coherent
    exact hcoherent.pins (fun i s hs => Program.text_ne_nil hp hs) hd
  intro m hm
  refine ⟨fun d hd => ?_, ?_, ?_⟩
  · have hpinned := hpins m hm d hd
    refine ⟨(hm.coherent.2.still_of_step hd).2.2, hpinned, fun s hs hspan => ?_⟩
    rw [Machine.Pins, hm.coherent.1, hs, hspan] at hpinned
    exact not_inside_behind _ hpinned.2
  · intro fuel d hd
    obtain ⟨m', hm', ⟨hfailed, hlast⟩ | ⟨reason, hstopped, hflush, hd, hlast⟩⟩ := hm.run_error hd
    · obtain ⟨hprogram, -, hcounter⟩ := hm'.coherent.2.still_of_step hfailed
      rw [hlast]
      exact .inl ((hpins m' hm' d hfailed).of_eq hprogram hcounter)
    · exact .inr ⟨m', reason, hm', hstopped, hlast, hflush, hd⟩
  · intro s tokens kind _ hclosed ht hk length
    exact Machine.statement_agrees hclosed ht kind (.refl m) length _

/-- A jump to a label that is not there, at the first statement. -/
theorem faults_pinned_goto : ∃ p d, Program.load "goto x;\nstop;" = .ok p ∧
    (.start p [] .unlimited (.init .warn) : Machine).step.1 = .error d ∧
    d.context = some ⟨1, "goto x;", 0⟩ ∧ d.span.Inside 7 := by
  have hload : (Program.load "goto x;\nstop;").toOption.map (fun p => (p.statements[0]?,
      (.start p [] .unlimited (.init .warn) : Machine).step.1.toOption)) =
        some (some ⟨"goto x;", 1, 0⟩, none) := by decide +kernel
  cases hp : Program.load "goto x;\nstop;" with
  | error d =>
    rw [hp] at hload
    cases hload
  | ok p =>
    rw [hp] at hload
    obtain ⟨hs, hstep⟩ := Prod.mk.inj (Option.some.inj hload)
    cases hd : (.start p [] .unlimited (.init .warn) : Machine).step.1 with
    | ok step =>
      rw [hd] at hstep
      cases hstep
    | error d =>
      have hpinned := (((faults_pinned "goto x;\nstop;").2 p hp _
        (.start [] Sink.unlimited (.init .warn))).1 d hd).2.1
      rw [Machine.Pins, Machine.start, hs] at hpinned
      exact ⟨p, d, rfl, hd, hpinned⟩

end Primer
