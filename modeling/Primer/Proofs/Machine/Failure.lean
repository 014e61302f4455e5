import Primer.Proofs.Machine.Faults
import Primer.Proofs.Machine.Reading

/-!
# Failed steps

A step that fails leaves the machine as it was, up to what cannot be taken back: what a `print` or a prompt
has written, and what a `read` has taken from the input and stored.  All other statements do what they do at
their end, behind everything that can fail.

* `Recoils R a`: where the action `a` fails, it has stayed within the relation `R`.
* `Machine.Executing m kind tokens`: the machine is at a statement of that kind.
* `failed_step`: what a failed step leaves.
-/

namespace Primer

variable {I O : Type}

namespace Action

/-- Where the action fails, it leads to a machine in the relation `R`. -/
def Recoils {α : Type} (R : Machine I O → Machine I O → Prop) (a : Action I O α) : Prop :=
  ∀ w, w.Placed (fun _ => True) →
    Leads a w (fun _ _ => True) (fun _ w' => R w.machine w'.machine)

section Rules

variable {α β : Type} {R : Machine I O → Machine I O → Prop} {a : Action I O α}
  {f : α → Action I O β} {P : α → Prop}

theorem Keeps.recoils (ha : Keeps (fun _ => True) R a P) : Recoils R a :=
  fun w hw => (ha w hw).mono (fun _ _ _ => trivial) fun _ _ hd => hd.1

/-- What comes first has to keep to the relation also where it does not fail. -/
theorem Keeps.recoils_bind (hR : Machine.Frame R) (ha : Keeps (fun _ => True) R a P)
    (hf : ∀ x, P x → Recoils R (f x)) : Recoils R (a >>= f) := by
  intro w hw
  refine (ha w hw).bind (fun x w' ⟨hlater, hx⟩ => ?_) fun d w' hd => hd.1
  exact (hf x hx w' (hw.later hlater)).mono (fun _ _ _ => trivial)
    fun _ _ hw'' => hR.trans hlater.machine hw''

/-- What comes last is not bound to the relation if nothing behind it fails. -/
theorem Recoils.bind (ha : Recoils R a)
    (hf : ∀ x w, Leads (f x) w (fun _ _ => True) (fun _ _ => False)) : Recoils R (a >>= f) :=
  fun w hw => (ha w hw).bind (fun x w' _ => (hf x w').mono (fun _ _ _ => trivial) fun _ _ => False.elim)
    fun _ _ hw' => hw'

end Rules

section Statements

theorem recoils_store {R : Machine I O → Machine I O → Prop} (hR : Machine.Frame R) (name : Token)
    (index : Option Float) (value : Float) (span : Span) :
    Recoils R (store name index value span : Action I O Unit) := by
  intro w _
  cases index with
  | none => trivial
  | some index =>
    simp only [Leads, store, assign]
    cases w.machine.store.assign name.lexeme index value with
    | ok s => trivial
    | error e => exact hR.refl w.machine

theorem recoils_declare {R : Machine I O → Machine I O → Prop} (hR : Machine.Frame R) (name : Token)
    (size : Float) (span : Span) : Recoils R (declare name size span : Action I O Nat) := by
  intro w _
  unfold Leads declare
  cases w.machine.store.declare name.lexeme size with
  | ok r => trivial
  | error e => exact hR.refl w.machine

variable {R : Machine I O → Machine I O → Prop} (hR : Machine.Frame R)

include hR

theorem recoils_assignment : Recoils R (assignment : Action I O Flow) := by
  have hG : Span.Joins (fun _ => True) := fun _ _ _ _ => trivial
  refine (keeps_identifier hR _).recoils_bind hR fun name _ => ?_
  refine (keeps_index? hG hR).recoils_bind hR fun index _ => ?_
  refine (keeps_here hR).recoils_bind hR fun here _ => ?_
  refine (keeps_expect hR _ _).recoils_bind hR fun _ _ => ?_
  refine (keeps_expression hG hR).recoils_bind hR fun value _ => ?_
  refine (keeps_finish hR _).recoils_bind hR fun _ _ => ?_
  exact (recoils_store hR name index value _).bind fun _ _ => trivial

theorem recoils_dim : Recoils R (dim : Action I O Flow) := by
  have hG : Span.Joins (fun _ => True) := fun _ _ _ _ => trivial
  refine (keeps_arrayName hR).recoils_bind hR fun name _ => ?_
  refine (keeps_expect hR _ _).recoils_bind hR fun _ _ => ?_
  refine (keeps_expression hG hR).recoils_bind hR fun size _ => ?_
  refine (keeps_expect hR _ _).recoils_bind hR fun _ _ => ?_
  refine (keeps_here hR).recoils_bind hR fun here _ => ?_
  refine (keeps_finish hR _).recoils_bind hR fun _ _ => ?_
  exact (recoils_declare hR name size _).bind fun _ _ => trivial

/-- Statements without input and output do nothing before they fail. -/
theorem recoils_statement [Reader I] [Writer O] {kind : StatementKind} (hprint : kind ≠ .print)
    (hread : kind ≠ .read) : Recoils R (statement kind : Action I O Flow) := by
  have hG : Span.Joins (fun _ => True) := fun _ _ _ _ => trivial
  cases kind with
  | assignment => exact recoils_assignment hR
  | «if» => exact (keeps_expect hR _ _).recoils_bind hR fun _ _ => (keeps_conditional hG hR).recoils
  | goto => exact (keeps_expect hR _ _).recoils_bind hR fun _ _ => (keeps_goto hR).recoils
  | dim => exact (keeps_expect hR _ _).recoils_bind hR fun _ _ => recoils_dim hR
  | print => exact absurd rfl hprint
  | read => exact absurd rfl hread
  | stop =>
    exact (keeps_expect hR _ _).recoils_bind hR fun _ _ => (keeps_ending hR .stop .stop).recoils
  | «end» =>
    exact (keeps_expect hR _ _).recoils_bind hR fun _ _ => (keeps_ending hR .end .terminate).recoils

end Statements

end Action

namespace Machine

/-- The machines agree on all but the output and the log. -/
def Printed (m m' : Machine I O) : Prop := ∃ sink log, m' = { m with sink, log }

theorem frame_printed : Machine.Frame (I := I) (O := O) Printed where
  refl m := ⟨m.sink, m.log, rfl⟩
  trans := by
    rintro m _ _ ⟨sink, log, rfl⟩ ⟨sink', log', rfl⟩
    exact ⟨sink', log', rfl⟩
  note m r _ := ⟨m.sink, m.log.note r, rfl⟩

/-- Before a statement fails that is no `read`, it writes at most. -/
theorem recoils_printed [Reader I] [Writer O] {kind : StatementKind} (hread : kind ≠ .read) :
    Action.Recoils Printed (Action.statement kind : Action I O Flow) := by
  by_cases hprint : kind = .print
  · subst hprint
    have hG : Span.Joins (fun _ => True) := fun _ _ _ _ => trivial
    have hprints := Action.keeps_print hG frame_printed fun (m : Machine I O) sink => ⟨sink, m.log, rfl⟩
    exact (Action.keeps_expect frame_printed _ _).recoils_bind frame_printed fun _ _ => hprints.recoils
  · exact Action.recoils_statement frame_printed hprint hread

/-- The machine is at a statement of the given kind, which its tokens show. -/
def Executing (m : Machine I O) (kind : StatementKind) (tokens : List Token) : Prop :=
  m.phase = .running ∧ ∃ s, m.program.statements[m.counter]? = some s ∧ isClosed s.text = true ∧
    tokenize s.text = .ok tokens ∧ classify s.text tokens = .ok kind

theorem Executing.unique {m : Machine I O} {kind kind' : StatementKind} {tokens tokens' : List Token}
    (h : m.Executing kind tokens) (h' : m.Executing kind' tokens') : kind = kind' ∧ tokens = tokens' := by
  obtain ⟨-, s, hs, -, ht, hk⟩ := h
  obtain ⟨-, s', hs', -, ht', hk'⟩ := h'
  rw [hs] at hs'
  cases hs'
  rw [ht] at ht'
  cases ht'
  rw [hk] at hk'
  cases hk'
  exact ⟨rfl, rfl⟩

variable [Reader I] [Writer O]

/-- A step fails before the statement has a kind, and has done nothing, or while it is executed. -/
theorem Coherent.cases_of_step_error {m : Machine I O} (hm : m.Coherent) {d : Diagnostic}
    (hd : m.step.1 = .error d) :
    ((∀ kind tokens, ¬m.Executing kind tokens) ∧ m.Same m.step.2) ∨
      ∃ kind tokens text length m' d' w, m.Executing kind tokens ∧ tokenize text = .ok tokens ∧
        m.Same m' ∧ Action.statement kind ⟨.ofTokens tokens length, m'⟩ = .error d' w ∧
        m.step.2 = w.machine := by
  have hsteps := hm.steps
  generalize m.step = r at hsteps hd
  cases hsteps with
  | ranOff hs =>
    refine .inl ⟨fun kind tokens ⟨_, s, hs', _⟩ => ?_, .refl m⟩
    rw [hs] at hs'
    cases hs'
  | afterEnd _ hp =>
    refine .inl ⟨fun kind tokens ⟨hrunning, _⟩ => ?_, .refl m⟩
    rw [hp] at hrunning
    cases hrunning
  | @executes s _ hs hp h =>
    have hunknown : (∀ tokens kind, isClosed s.text = true → tokenize s.text = .ok tokens →
        classify s.text tokens ≠ .ok kind) → ∀ kind tokens, ¬m.Executing kind tokens := by
      rintro hnone kind tokens ⟨-, s', hs', hclosed, ht, hk⟩
      rw [hs] at hs'
      cases hs'
      exact hnone tokens kind hclosed ht hk
    cases h with
    | unclosed hclosed =>
      refine .inl ⟨hunknown fun tokens kind hclosed' => ?_, .refl m⟩
      rw [hclosed] at hclosed'
      cases hclosed'
    | unread _ ht hsame =>
      refine .inl ⟨hunknown fun tokens kind _ ht' => ?_, hsame⟩
      rw [ht] at ht'
      cases ht'
    | unknown _ ht hsame _ hk =>
      refine .inl ⟨hunknown fun tokens kind _ ht' hk' => ?_, hsame⟩
      rw [ht] at ht'
      cases ht'
      rw [hk] at hk'
      cases hk'
    | failed hclosed ht hsame _ hk hw =>
      exact .inr ⟨_, _, s.text, _, _, _, _, ⟨hp, s, hs, hclosed, ht, hk⟩, ht, hsame, hw, rfl⟩
    | executed => cases hd

/-- A step that fails and changes nothing fails again, for as long as it is repeated. -/
theorem Same.repeats {m : Machine I O} (h : m.Same m.step.2) (hm : m.Coherent) {d : Diagnostic}
    (hd : m.step.1 = .error d) (n : Nat) : ((fun m : Machine I O => m.step.2)^[n] m).step.1 = .error d := by
  have hall : ∀ n, m.Same ((fun m : Machine I O => m.step.2)^[n] m) ∧
      ((fun m : Machine I O => m.step.2)^[n] m).Coherent := by
    intro n
    induction n with
    | zero => exact ⟨.refl m, hm⟩
    | succ n ih =>
      rw [Function.iterate_succ_apply']
      exact ⟨h.trans (ih.1.step hm ih.2).2, ih.2.step.2⟩
  rw [((hall n).1.step hm (hall n).2).1, hd]

/-- Without input and output nothing but the cache and the log is changed. -/
theorem Coherent.same_of_step_error {m : Machine I O} (hm : m.Coherent) {d : Diagnostic}
    (hd : m.step.1 = .error d) (hprint : ∀ tokens, ¬m.Executing .print tokens)
    (hread : ∀ tokens, ¬m.Executing .read tokens) : m.Same m.step.2 := by
  rcases hm.cases_of_step_error hd with
    ⟨-, hsame⟩ | ⟨kind, tokens, text, length, m', d', w, hkind, ht, hsame, hw, hstep⟩
  · exact hsame
  · have hprint : kind ≠ .print := by
      rintro rfl
      exact hprint tokens hkind
    have hread : kind ≠ .read := by
      rintro rfl
      exact hread tokens hkind
    have hrecoils := Action.recoils_statement frame_logged hprint hread _ (placed_true ht length m')
    obtain ⟨log, hlog⟩ := hrecoils.error hw
    rw [hstep, hlog]
    exact ⟨hsame.program, hsame.store, hsame.phase, hsame.counter, hsame.input, hsame.sink⟩

/-- Without a `read` the store and the input stay. -/
theorem Coherent.store_of_step_error {m : Machine I O} (hm : m.Coherent) {d : Diagnostic}
    (hd : m.step.1 = .error d) (hread : ∀ tokens, ¬m.Executing .read tokens) :
    m.step.2.store = m.store ∧ m.step.2.input = m.input := by
  rcases hm.cases_of_step_error hd with
    ⟨-, hsame⟩ | ⟨kind, tokens, text, length, m', d', w, hkind, ht, hsame, hw, hstep⟩
  · exact ⟨hsame.store, hsame.input⟩
  · have hread : kind ≠ .read := by
      rintro rfl
      exact hread tokens hkind
    obtain ⟨sink, log, hprinted⟩ := (recoils_printed hread _ (placed_true ht length m')).error hw
    rw [hstep, hprinted]
    exact ⟨hsame.store, hsame.input⟩

/-- The store behind a `read` has the longest list of deposits that its targets take. -/
theorem Coherent.leaves_of_step_error {m : Machine I O} (hm : m.Coherent) {d : Diagnostic}
    (hd : m.step.1 = .error d) {tokens : List Token} (hread : m.Executing .read tokens) :
    Reading.Leaves ⟨m.store, m.input, m.sink, tokens.tail⟩
      (Reading.Completed ⟨m.store, m.input, m.sink, tokens.tail⟩) m.step.2.store := by
  rcases hm.cases_of_step_error hd with
    ⟨hnone, -⟩ | ⟨kind, tokens', text, length, m', d', w, hkind, ht, hsame, hw, hstep⟩
  · exact absurd hread (hnone _ tokens)
  · obtain ⟨rfl, rfl⟩ := hkind.unique hread
    have hleads : Action.Leads (Action.statement .read) ⟨.ofTokens tokens' length, m'⟩
        (fun _ _ => True) (fun _ w => Reading.Leaves ⟨m'.store, m'.input, m'.sink, tokens'.tail⟩
          (Reading.Completed ⟨m'.store, m'.input, m'.sink, tokens'.tail⟩) w.machine.store) := by
      obtain ⟨-, s, -, -, -, hk⟩ := hkind
      refine Action.leads_bind.mpr (Action.leads_heading_of_classify hk fun _ => ?_)
      exact Action.leads_read.mono (fun _ _ _ => trivial) fun _ _ hleaves => hleaves
    have hleaves := hleads.error hw
    rwa [hsame.store, hsame.input, hsame.sink, ← hstep] at hleaves

/-- **A failed step leaves the machine as it was.**  The counter, the phase and the sizes of arrays stay in
every case.  Only a `read` changes the store and takes input, and only `print` and `read` write; where
neither is executed the same fault comes again and again.  The store behind a `read` is the old one with the
longest list of deposits that its targets take, in this order. -/
theorem failed_step {p : Program} {m : Machine I O} (hm : m.Reachable p) {d : Diagnostic}
    (hd : m.step.1 = .error d) :
    (m.step.2.counter = m.counter ∧ m.step.2.phase = m.phase ∧
      ∀ name, m.step.2.store.size? name = m.store.size? name) ∧
    ((∀ tokens, ¬m.Executing .read tokens) →
      m.step.2.store = m.store ∧ m.step.2.input = m.input) ∧
    ((∀ tokens, ¬m.Executing .print tokens) → (∀ tokens, ¬m.Executing .read tokens) →
      m.step.2.sink = m.sink ∧
        ∀ n, ((fun m : Machine I O => m.step.2)^[n] m).step.1 = .error d) ∧
    ∀ tokens, m.Executing .read tokens → ∃ ds : List Deposit,
      (∀ ds', Reading.Completed ⟨m.store, m.input, m.sink, tokens.tail⟩ ds' ↔ ds' <+: ds) ∧
      ds.foldlM Store.deposit m.store = .ok m.step.2.store := by
  obtain ⟨-, hcoherent⟩ := hm.coherent
  obtain ⟨-, hphase, hcounter⟩ := hcoherent.still_of_step hd
  refine ⟨⟨hcounter, hphase, fun name => ?_⟩, hcoherent.store_of_step_error hd, ?_, ?_⟩
  · by_cases hread : ∃ tokens, m.Executing .read tokens
    · obtain ⟨tokens, hread⟩ := hread
      obtain ⟨ds, -, hstore⟩ := hcoherent.leaves_of_step_error hd hread
      exact Store.size?_foldlM hstore name
    · have hstore := (hcoherent.store_of_step_error hd (not_exists.mp hread)).1
      rw [hstore]
  · intro hprint hread
    have hsame := hcoherent.same_of_step_error hd hprint hread
    exact ⟨hsame.sink, hsame.repeats hcoherent hd⟩
  · intro tokens hread
    exact hcoherent.leaves_of_step_error hd hread

/-- The machine at the start of a program with one statement. -/
def atStatement (text : String) (input : List UInt8) : Machine :=
  start ⟨#[⟨text, 1, 0⟩], ∅⟩ input .unlimited (.init .warn)

theorem executing_atStatement {text : String} {tokens : List Token} {kind : StatementKind}
    (hclosed : isClosed text = true) (ht : tokenize text = .ok tokens)
    (hk : classify text tokens = .ok kind) (input : List UInt8) :
    (atStatement text input).Executing kind tokens :=
  ⟨rfl, ⟨text, 1, 0⟩, rfl, hclosed, ht, hk⟩

/-- A jump to a label that is not there fails for ever, and a `read` into two variables that finds one
number has stored this number in the first. -/
theorem failed_step_goto_read :
    (∃ d, ∀ n, ((fun m : Machine => m.step.2)^[n] (atStatement "goto x;" [])).step.1 = .error d) ∧
    ∃ value ds, Number.read? ['1'] = some value ∧ [⟨"x", none, value⟩] <+: ds ∧
      ds.foldlM Store.deposit .empty = .ok (atStatement "read x, y;" [49, 10]).step.2.store := by
  constructor
  · have hresult : (atStatement "goto x;" []).step.1 =
        .error ⟨.undefinedLabel "x", ⟨5, 6⟩, some ⟨1, "goto x;", 0⟩⟩ := by decide +kernel
    have ht : tokenize "goto x;" = .ok [⟨.keyword .goto, "goto", ⟨0, 4⟩⟩,
      ⟨.identifier, "x", ⟨5, 6⟩⟩, ⟨.punctuation .semicolon, ";", ⟨6, 7⟩⟩] := by decide +kernel
    have hgoto : (atStatement "goto x;" []).Executing .goto _ :=
      executing_atStatement (by decide +kernel) ht rfl []
    -- the statement is a jump, so it is nothing else
    have hother : ∀ kind, kind ≠ .goto → ∀ tokens, ¬(atStatement "goto x;" []).Executing kind tokens :=
      fun kind hkind tokens hexecuting => hkind (hexecuting.unique hgoto).1
    have hfailed := failed_step (.start [] Sink.unlimited (.init .warn)) hresult
    exact ⟨_, (hfailed.2.2.1 (hother .print (by decide)) (hother .read (by decide))).2⟩
  · have hresult : (atStatement "read x, y;" [49, 10]).step.1 =
        .error ⟨.endOfInput "y", ⟨8, 9⟩, some ⟨1, "read x, y;", 0⟩⟩ := by decide +kernel
    have ht : tokenize "read x, y;" = .ok [⟨.keyword .read, "read", ⟨0, 4⟩⟩,
      ⟨.identifier, "x", ⟨5, 6⟩⟩, ⟨.punctuation .comma, ",", ⟨6, 7⟩⟩, ⟨.identifier, "y", ⟨8, 9⟩⟩,
      ⟨.punctuation .semicolon, ";", ⟨9, 10⟩⟩] := by decide +kernel
    have hread : (atStatement "read x, y;" [49, 10]).Executing .read _ :=
      executing_atStatement (by decide +kernel) ht rfl [49, 10]
    have hfailed := failed_step (.start [49, 10] Sink.unlimited (.init .warn)) hresult
    obtain ⟨ds, hds, hstore⟩ := hfailed.2.2.2 _ hread
    have hentry : Input.entry ([49, 10] : List UInt8) = (.text ['1'], []) := by
      rw [Input.entry]
      rfl
    have hsome : (Number.read? ['1']).isSome = true := by decide +kernel
    obtain ⟨value, hvalue⟩ := Option.isSome_iff_exists.mp hsome
    have hnumeral : Numeral ([49, 10] : List UInt8) value [] := ⟨['1'], hentry, by decide, hvalue⟩
    have hindex : Indexed .empty [⟨.punctuation .comma, ",", ⟨6, 7⟩⟩, ⟨.identifier, "y", ⟨8, 9⟩⟩,
        ⟨.punctuation .semicolon, ";", ⟨9, 10⟩⟩] none _ := .absent (by simp)
    have hfirst := Reading.Filled.one (r := ⟨.empty, [49, 10], Sink.unlimited, ⟨.identifier, "x", ⟨5, 6⟩⟩ :: _⟩)
      (.mk rfl rfl rfl hnumeral hindex rfl)
    refine ⟨value, ds, hvalue, (hds _).mp (.inr ⟨_, .bare ?_, hfirst⟩), hstore⟩
    simp

end Machine

end Primer
