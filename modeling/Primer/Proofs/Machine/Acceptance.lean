import Primer.Proofs.Machine.Session
import Primer.Proofs.Statement.Recognition
import Primer.Proofs.Token.Lexing

/-!
# Steps accept the grammar of statements

The test for a semicolon, the lexer, the classification and the actions put together: a statement that
a step executes is a sentence, and a sentence fails for semantic reasons alone.
-/

namespace Primer

variable {I O : Type}

namespace Machine

theorem isClosed_of_last {text : String} (front : List Token) {t : Token}
    (ht : tokenize text = .ok (front ++ [t])) (hsemicolon : t.kind = .punctuation .semicolon) :
    isClosed text = true :=
  decide_eq_true ((lexed_of_tokenize ht).last_semicolon hsemicolon)

/-- A text that tokenizes to a sentence passes the test for its semicolon. -/
theorem isClosed_of_mem_form {text : String} {tokens : List Token} {kind : StatementKind}
    (ht : tokenize text = .ok tokens) (h : tokens ∈ kind.form) : isClosed text = true := by
  obtain ⟨front, t, hsemicolon, rfl⟩ := exists_semicolon_of_mem_form h
  exact isClosed_of_last front ht hsemicolon

variable [Reader I] [Writer O]

/-- What executes is a sentence. -/
theorem Executes.mem_form {m m' : Machine I O} {s : Statement} {step : Step}
    (h : m.Executes s (.ok step, m')) :
    ∃ tokens kind, tokenize s.text = .ok tokens ∧ tokens ∈ StatementKind.form kind := by
  generalize hr : (Except.ok step, m') = r at h
  cases h with
  | unclosed | unread | unknown | failed => cases hr
  | @executed tokens kind flow m₀ w hclosed ht hm hc hk hw =>
    refine ⟨tokens, kind, ht, ?_⟩
    exact (Action.leads_statement (w := ⟨.ofTokens tokens _, m₀⟩) hk).ok hw

/-- A sentence fails for semantic reasons alone. -/
theorem Executes.semantic {m m' : Machine I O} {s : Statement} {d : Diagnostic}
    (h : m.Executes s (.error d, m')) {tokens : List Token} {kind : StatementKind}
    (ht : tokenize s.text = .ok tokens) (hform : tokens ∈ kind.form) : d.cause.kind = .semantic := by
  have hk := classify_of_mem_form hform s.text
  generalize hr : (Except.error d, m') = r at h
  cases h with
  | unclosed hclosed =>
    rw [isClosed_of_mem_form ht hform] at hclosed
    cases hclosed
  | unread _ ht' =>
    rw [ht] at ht'
    cases ht'
  | unknown _ ht' _ _ hk' =>
    rw [ht] at ht'
    cases ht'
    rw [hk] at hk'
    cases hk'
  | @failed tokens' kind' d' m₀ w _ ht' _ _ hk' hw =>
    rw [ht] at ht'
    cases ht'
    rw [hk] at hk'
    cases hk'
    cases hr
    exact (Action.leads_statement (w := ⟨.ofTokens tokens _, m₀⟩) hk).error hw hform
  | executed => cases hr

/-- Steps of a running machine accept exactly the sentences: what a step executes is one, and the step
of a sentence can only fail for semantic reasons, whatever its input and its output answer. -/
theorem step_accepts_forms {p : Program} {m : Machine I O} (hm : m.Reachable p)
    (hrunning : m.phase = .running) :
    (∀ step, m.step.1 = .ok step → ∃ s tokens kind, p.statements[m.counter]? = some s ∧
      tokenize s.text = .ok tokens ∧ tokens ∈ StatementKind.form kind) ∧
    ∀ s tokens kind, p.statements[m.counter]? = some s → tokenize s.text = .ok tokens →
      tokens ∈ StatementKind.form kind → ∀ d, m.step.1 = .error d → d.cause.kind = .semantic := by
  obtain ⟨rfl, hcoherent⟩ := hm.coherent
  constructor
  · intro step hstep
    cases hs : m.program.statements[m.counter]? with
    | none =>
      rw [step_eq_of_none hs] at hstep
      cases hstep
    | some s =>
      have hexecutes := hcoherent.executes hs
      rw [step_eq_execute hs hrunning] at hstep
      generalize m.execute s = r at hexecutes hstep
      obtain ⟨result, m'⟩ := r
      cases result with
      | error d => cases hstep
      | ok step' =>
        obtain ⟨tokens, kind, ht, hform⟩ := hexecutes.mem_form
        exact ⟨s, tokens, kind, rfl, ht, hform⟩
  · intro s tokens kind hs ht hform d hd
    have hexecutes := hcoherent.executes hs
    rw [step_eq_execute hs hrunning] at hd
    generalize m.execute s = r at hexecutes hd
    obtain ⟨result, m'⟩ := r
    cases result with
    | ok step => cases hd
    | error d' =>
      have hsemantic := hexecutes.semantic ht hform
      cases hd
      exact hsemantic

/-- Both sides at the first statement of two programs: `stop;` is executed, and what is wrong with
`goto x;` is semantic. -/
theorem step_accepts_forms_start :
    (∃ s tokens kind, (#[⟨"stop;", 1, 0⟩] : Array Statement)[0]? = some s ∧
      tokenize s.text = .ok tokens ∧ tokens ∈ StatementKind.form kind) ∧
    ∀ d, (start ⟨#[⟨"goto x;", 1, 0⟩], ∅⟩ [] .unlimited (.init .warn) : Machine).step.1 = .error d →
      d.cause.kind = .semantic := by
  constructor
  · have hm : (start ⟨#[⟨"stop;", 1, 0⟩], ∅⟩ [] .unlimited (.init .warn) : Machine).Reachable
      ⟨#[⟨"stop;", 1, 0⟩], ∅⟩ := .start _ _ _
    exact (step_accepts_forms hm rfl).1 .stopped (by decide +kernel)
  · have hm : (start ⟨#[⟨"goto x;", 1, 0⟩], ∅⟩ [] .unlimited (.init .warn) : Machine).Reachable
      ⟨#[⟨"goto x;", 1, 0⟩], ∅⟩ := .start _ _ _
    have ht : tokenize "goto x;" = .ok [⟨.keyword .goto, "goto", ⟨0, 4⟩⟩,
      ⟨.identifier, "x", ⟨5, 6⟩⟩, ⟨.punctuation .semicolon, ";", ⟨6, 7⟩⟩] := by decide +kernel
    refine (step_accepts_forms hm rfl).2 _ _ .goto rfl ht ?_
    rw [StatementKind.form, mul_assoc]
    refine Form.mem_token_mul.mpr ⟨_, _, rfl, ?_, rfl⟩
    exact Form.mem_token_mul.mpr ⟨_, _, rfl, ⟨_, rfl, rfl⟩, rfl⟩

end Machine

end Primer
