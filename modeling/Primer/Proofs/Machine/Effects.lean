import Primer.Proofs.Machine.Embedding
import Primer.Proofs.Machine.Finality
import Primer.Proofs.Machine.Invariant
import Primer.Proofs.Program.Contents
import Primer.Proofs.Statement.Syntax
import Primer.Proofs.Store.Places

/-!
# What commands do

The effect of a command that neither prints nor reads, said once for each of them, and the steps, which have
these effects and no others.

* `Target.place? s t`: the place that a target stands for.
* `Command.Effect cs m c r m'`: what a command makes of a machine, where the lines `cs` carry the labels.
* `leads_assign_of`, `leads_dim_of`, `leads_goto_of`: the actions, on tokens that spell a command.
* `Coherent.ok_of_step`: what a step leads to if it succeeds.
* `step_effect`: a step that succeeds has the effect of the command that its tokens spell.
-/

namespace Primer

open Expression

variable {I O : Type}

/-! ### Places and effects -/

namespace Target

/-- The index of a target, if it has one; its value is taken from the store. -/
def subscript? (s : Store) (t : Target) : Option (Option Float) :=
  match t.index with
  | none => some none
  | some index => (index.value? s).map some

/-- The place that a target stands for. -/
def place? (s : Store) (t : Target) : Option Place := (t.subscript? s).bind (s.place? t.name)

theorem SpelledBy.exists_cons {t : Target} {read : List Token} (h : t.SpelledBy read) :
    ∃ name index, read = name :: index ∧ name.kind = .identifier ∧ name.lexeme = t.name := by
  cases h with
  | scalar hname => exact ⟨_, _, rfl, hname, rfl⟩
  | element hname => exact ⟨_, _, rfl, hname, rfl⟩

end Target

/-- What a command makes of a machine, up to its cache and log.  All values are those of the store before. -/
inductive Command.Effect (cs : List (List Char)) (m : Machine I O) :
    Command → Step → Machine I O → Prop
  | assign {target : Target} {value : Tree} {p : Place} {x : Float} {s : Store} {m' : Machine I O}
    (hplace : target.place? m.store = some p) (hvalue : value.value? m.store = some x)
    (hsets : m.store.Sets p x s) (hm' : { m with store := s, counter := m.counter + 1 }.Same m') :
    Effect cs m (.assign target value) .continue m'
  | dim {name : String} {size : Tree} {x : Float} {n : Nat} {s : Store} {m' : Machine I O}
    (hsize : size.value? m.store = some x) (hn : Store.sizeOf x = .ok n) (hadds : m.store.Adds name n s)
    (hm' : { m with store := s, counter := m.counter + 1 }.Same m') :
    Effect cs m (.dim name size) .continue m'
  | goto {label : String} {i : Nat} {m' : Machine I O} (hlabel : Source.Carries cs i label.toList)
    (hm' : { m with counter := i }.Same m') : Effect cs m (.goto label) .continue m'
  | taken {condition : Tree} {label : String} {x : Float} {i : Nat} {m' : Machine I O}
    (hvalue : condition.value? m.store = some x) (hx : (x != 0) = true)
    (hlabel : Source.Carries cs i label.toList) (hm' : { m with counter := i }.Same m') :
    Effect cs m (.branch condition label) .continue m'
  | untaken {condition : Tree} {label : String} {x : Float} {m' : Machine I O}
    (hvalue : condition.value? m.store = some x) (hx : (x != 0) = false)
    (hm' : { m with counter := m.counter + 1 }.Same m') :
    Effect cs m (.branch condition label) .continue m'
  | stop {m' : Machine I O} (hm' : m.Same m') : Effect cs m .stop .stopped m'
  | end {m' : Machine I O} (hm' : { m with phase := .terminated, counter := m.counter + 1 }.Same m') :
    Effect cs m .end .continue m'

/-- The streams are left alone. -/
theorem Command.Effect.streams {cs : List (List Char)} {m m' : Machine I O} {c : Command} {r : Step}
    (h : c.Effect cs m r m') : m'.sink = m.sink ∧ m'.input = m.input := by
  cases h with
  | assign _ _ _ hm' | dim _ _ _ hm' | goto _ hm' | taken _ _ _ hm' | untaken _ _ hm' | stop hm' | «end» hm' =>
    exact ⟨hm'.sink, hm'.input⟩

/-! ### The actions -/

namespace Action

variable {w : Work I O}

/-- A value is stored at the place that a name and an index stand for, if they stand for one. -/
theorem leads_store_sets {name : Token} {index : Option Float} {x : Float} {span : Span} :
    Leads (store name index x span) w
      (fun _ w' => ∃ p s, w.machine.store.place? name.lexeme index = some p ∧ w.machine.store.Sets p x s ∧
        w' = { w with machine := { w.machine with store := s } })
      (fun _ _ => w.machine.store.place? name.lexeme index = none) := by
  cases index with
  | none => exact ⟨_, _, rfl, Store.sets_record x, rfl⟩
  | some index =>
    simp only [Leads, store, assign]
    cases hs : w.machine.store.assign name.lexeme index x with
    | ok s =>
      obtain ⟨p, hp, hsets⟩ := Store.sets_assign hs
      exact ⟨p, s, hp, hsets, rfl⟩
    | error e => exact Store.place?_eq_none_of_assign hs

/-- An array of the size that a number asks for is added. -/
theorem leads_declare {name : Token} {size : Float} {span : Span} (hs : w.machine.store.Valid) :
    Leads (declare name size span) w
      (fun n w' => ∃ s, Store.sizeOf size = .ok n ∧ w.machine.store.Adds name.lexeme n s ∧
        w'.machine = { w.machine with store := s })
      (fun _ _ => True) := by
  unfold Leads declare
  cases hdeclare : w.machine.store.declare name.lexeme size with
  | ok r =>
    obtain ⟨hn, hadds⟩ := Store.adds_declare hs hdeclare
    exact ⟨r.2, hn, hadds, rfl⟩
  | error e => trivial

/-- The index behind the name of a target, if it has a value. -/
theorem leads_index?_of {t : Target} {name : Token} {index rest : List Token}
    (h : t.SpelledBy (name :: index)) (hr : w.cursor.rest = index ++ rest)
    (hnext : ∀ b ∈ rest.head?, b.kind ≠ .punctuation .leftBracket) :
    Leads index? w
      (fun i w' => t.subscript? w.machine.store = some i ∧ w'.cursor.rest = rest ∧
        ∃ log, w'.machine = { w.machine with log })
      (fun _ _ => t.subscript? w.machine.store = none) := by
  generalize htokens : name :: index = tokens at h
  cases h with
  | scalar =>
    cases htokens
    refine leads_bind.mpr (leads_skip (fun b rest' hr' hb => ?_) fun _ => ?_)
    · rw [hr] at hr'
      exact absurd hb (hnext b (by simp [show rest = b :: rest' from hr']))
    · exact leads_pure.mpr ⟨rfl, hr, _, rfl⟩
  | @element _ opening closing read e _ hopening hindex hclosing =>
    cases htokens
    refine leads_bind.mpr (leads_skip (fun b rest' hr' hb => ?_) fun hnone => ?_)
    · have hrest : rest' = read ++ closing :: rest := by
        rw [hr] at hr'
        simpa using (List.cons.inj hr').2.symm
      rw [if_pos rfl, subscript_eq]
      refine leads_bind.mpr (leads_bind.mpr ?_)
      refine leads_expression_of hrest hindex (by simp [Ends, hclosing]) (fun x log hx => ?_)
        fun _ _ hnone => ?_
      · refine leads_bind.mpr (leads_expect_of rfl (by simp [Token.isPunctuation, hclosing]) ?_)
        refine leads_pure.mpr (leads_pure.mpr ⟨?_, rfl, log, rfl⟩)
        have hx : e.value? w.machine.store = some x := hx
        simp [Target.subscript?, hx]
      · have hnone : e.value? w.machine.store = none := hnone
        simp [Target.subscript?, hnone]
    · exact absurd hopening (hnone opening (by simp [hr]))

section Statements

variable {read : List Token} {semicolon : Token} (hsemicolon : semicolon.kind = .punctuation .semicolon)

include hsemicolon

theorem leads_assign_of {target : Target} {value : Tree} {place : List Token} {equal : Token}
    (htarget : target.SpelledBy place) (hequal : equal.kind = .punctuation .equal)
    (hvalue : Derives .comparison read value)
    (hw : w.cursor.rest = place ++ equal :: (read ++ [semicolon])) :
    Leads assignment w
      (fun flow w' => flow = .next ∧ ∃ p x s log, target.place? w.machine.store = some p ∧
        value.value? w.machine.store = some x ∧ w.machine.store.Sets p x s ∧
        w'.machine = { w.machine with store := s, log })
      (fun _ _ => True) := by
  obtain ⟨name, index, rfl, hname, hlexeme⟩ := htarget.exists_cons
  refine leads_bind.mpr (leads_expect_of hw (by simp [Token.isIdentifier, hname]) ?_)
  refine (leads_index?_of htarget rfl (by simp [hequal])).bind ?_ fun _ _ _ => trivial
  rintro i w₁ ⟨hi, hrest, log, hw₁⟩
  refine leads_bind.mpr (leads_here.mpr ?_)
  refine leads_bind.mpr (leads_expect_of hrest (by simp [Token.isPunctuation, hequal]) ?_)
  refine leads_bind.mpr (leads_expression_of rfl hvalue (by simp [Ends, hsemicolon]) (fun x log' hx => ?_)
    fun _ _ _ => trivial)
  refine leads_bind.mpr (leads_finish_of rfl hsemicolon ?_)
  refine leads_store_sets.bind ?_ fun _ _ _ => trivial
  rintro _ w₂ ⟨p, s, hp, hsets, hw₂⟩
  have hstore : w₁.machine.store = w.machine.store := by
    rw [hw₁]
    rfl
  have hi : target.subscript? w.machine.store = some i := hi
  refine leads_pure.mpr ⟨rfl, p, x, s, log', ?_, ?_, ?_, ?_⟩
  · rw [Target.place?, hi, ← hlexeme, ← hstore]
    exact hp
  · rw [← hstore]
    exact hx
  · rw [← hstore]
    exact hsets
  · rw [hw₂]
    show { w₁.machine with store := s, log := log' } = _
    rw [hw₁]
    rfl

theorem leads_goto_of {label : Token} (hlabel : label.kind = .identifier)
    (hw : w.cursor.rest = [label, semicolon]) :
    Leads goto w
      (fun flow w' => w'.machine = w.machine ∧
        ∃ i, w.machine.program.location? label.lexeme = some i ∧ flow = .jump i)
      (fun _ _ => True) := by
  refine leads_bind.mpr (leads_expect_of hw (by simp [Token.isIdentifier, hlabel]) ?_)
  refine leads_bind.mpr (leads_finish_of rfl hsemicolon ?_)
  exact leads_bind.mpr (leads_target (fun i hi => ⟨rfl, i, hi, rfl⟩) fun _ => trivial)

theorem leads_dim_of {size : Tree} {name opening closing : Token} (hname : name.kind = .identifier)
    (hopening : opening.kind = .punctuation .leftBracket) (hsize : Derives .comparison read size)
    (hclosing : closing.kind = .punctuation .rightBracket)
    (hw : w.cursor.rest = name :: opening :: (read ++ closing :: [semicolon]))
    (hs : w.machine.store.Valid) : Leads dim w
      (fun flow w' => flow = .next ∧ ∃ x n s log, size.value? w.machine.store = some x ∧
        Store.sizeOf x = .ok n ∧ w.machine.store.Adds name.lexeme n s ∧
        w'.machine = { w.machine with store := s, log })
      (fun _ _ => True) := by
  have hpeek : w.cursor.peek? = some name := by simp [Cursor.peek?, hw]
  refine leads_bind.mpr (leads_bind.mpr (leads_peek?.mpr ?_))
  rw [hpeek]
  refine leads_expect_of hw (by simp [Token.isIdentifier, hname]) ?_
  refine leads_bind.mpr (leads_expect_of rfl (by simp [Token.isPunctuation, hopening]) ?_)
  refine leads_bind.mpr (leads_expression_of rfl hsize (by simp [Ends, hclosing]) (fun x log hx => ?_)
    fun _ _ _ => trivial)
  refine leads_bind.mpr (leads_expect_of rfl (by simp [Token.isPunctuation, hclosing]) ?_)
  refine leads_bind.mpr (leads_here.mpr ?_)
  refine leads_bind.mpr (leads_finish_of rfl hsemicolon ?_)
  refine (leads_declare ?_).bind ?_ fun _ _ h => h
  · exact hs
  · rintro n w' ⟨s, hn, hadds, hw'⟩
    let log' := w'.machine.log.note (.declared name.lexeme n)
    refine leads_bind.mpr ⟨rfl, x, n, s, log', hx, hn, hadds, ?_⟩
    show { w'.machine with log := log' } = _
    rw [hw']
    rfl

end Statements

end Action

/-! ### Steps -/

namespace Machine

/-- Machines that agree on all but the cache and the log differ in them alone. -/
theorem Same.exists_eq {m m' : Machine I O} (h : m.Same m') : ∃ cache log, m' = { m with cache, log } := by
  obtain ⟨program, store, phase, counter, input, sink, cache, log⟩ := m'
  obtain ⟨rfl, rfl, rfl, rfl, rfl, rfl⟩ := h
  exact ⟨cache, log, rfl⟩

/-- A statement that spells a command is executed as such, if the machine is running. -/
theorem executing_of_spelledBy {m : Machine I O} (hrunning : m.phase = .running) {s : Statement}
    (hs : m.program.statements[m.counter]? = some s) {tokens : List Token}
    (ht : tokenize s.text = .ok tokens) {c : Command} (hc : c.SpelledBy tokens) :
    m.Executing c.kind tokens :=
  ⟨hrunning, s, hs, isClosed_of_mem_form ht hc.mem_form, ht, classify_of_mem_form hc.mem_form s.text⟩

variable [Reader I] [Writer O]

/-- A step that succeeds leads where its statement does. -/
theorem Coherent.ok_of_step {m : Machine I O} (hm : m.Coherent) {kind : StatementKind} {tokens : List Token}
    (hx : m.Executing kind tokens) {R : Step → Machine I O → Prop}
    (h : ∀ length cache log, Action.Leads (Action.statement kind)
      ⟨.ofTokens tokens length, { m with cache, log }⟩
      (fun flow w => R (w.machine.follow flow).1 (w.machine.follow flow).2) (fun _ _ => True))
    {r : Step} (hstep : m.step.1 = .ok r) : R r m.step.2 := by
  obtain ⟨hrunning, s, hs, hclosed, ht, hk⟩ := hx
  have hleads := hm.step_leads hrunning hs ht hclosed hk fun m' hsame => by
    obtain ⟨cache, log, rfl⟩ := hsame.exists_eq
    exact h s.text.utf8ByteSize cache log
  obtain ⟨flow, w, hR, hw⟩ | ⟨d, w, -, hw⟩ := hleads
  · rw [hw] at hstep ⊢
    cases hstep
    exact hR
  · rw [hw] at hstep
    cases hstep

/-- A step that succeeds has the effect of the command that it executes. -/
theorem Coherent.effect_of_step {m : Machine I O} (hm : m.Coherent) (hs : m.store.Valid)
    {cs : List (List Char)}
    (hlabels : ∀ label i, m.program.location? label = some i → Source.Carries cs i label.toList)
    {c : Command} {tokens : List Token} (hx : m.Executing c.kind tokens) (hc : c.SpelledBy tokens)
    (hprint : c.kind ≠ .print) (hread : c.kind ≠ .read) {r : Step} (hstep : m.step.1 = .ok r) :
    c.Effect cs m r m.step.2 := by
  refine hm.ok_of_step hx (fun length cache log => ?_) hstep
  cases hc with
  | assign htarget hequal hvalue hsemicolon =>
    refine (Action.leads_assign_of hsemicolon htarget hequal hvalue rfl).mono ?_ fun _ _ h => h
    rintro _ w ⟨rfl, p, x, s, log', hp, hx, hsets, hw⟩
    rw [hw]
    exact .assign hp hx hsets ⟨rfl, rfl, rfl, rfl, rfl, rfl⟩
  | branch hword hopening hcondition hclosing hgoto hlabel hsemicolon =>
    refine Action.leads_bind.mpr ((Action.leads_heading rfl hword).mpr ?_)
    refine (Action.leads_branch_of hsemicolon hopening hclosing hgoto hlabel rfl hcondition).mono ?_
      fun _ _ _ => trivial
    rintro flow w ⟨x, log', hx, hw, hflow⟩
    rw [hw]
    split at hflow
    · rename_i htaken
      obtain ⟨i, hi, rfl⟩ := hflow
      exact .taken hx htaken (hlabels _ i hi) ⟨rfl, rfl, rfl, rfl, rfl, rfl⟩
    · rename_i huntaken
      rw [hflow]
      exact .untaken hx (eq_false_of_ne_true huntaken) ⟨rfl, rfl, rfl, rfl, rfl, rfl⟩
  | goto hword hlabel hsemicolon =>
    refine Action.leads_bind.mpr ((Action.leads_heading rfl hword).mpr ?_)
    refine (Action.leads_goto_of hsemicolon hlabel rfl).mono ?_ fun _ _ h => h
    rintro _ w ⟨hw, i, hi, rfl⟩
    rw [hw]
    exact .goto (hlabels _ i hi) ⟨rfl, rfl, rfl, rfl, rfl, rfl⟩
  | dim hword hname hopening hsize hclosing hsemicolon =>
    refine Action.leads_bind.mpr ((Action.leads_heading rfl hword).mpr ?_)
    refine (Action.leads_dim_of hsemicolon hname hopening hsize hclosing rfl hs).mono ?_ fun _ _ h => h
    rintro _ w ⟨rfl, x, n, s, log', hx, hn, hadds, hw⟩
    rw [hw]
    exact .dim hx hn hadds ⟨rfl, rfl, rfl, rfl, rfl, rfl⟩
  | print => exact absurd rfl hprint
  | read => exact absurd rfl hread
  | stop hword hsemicolon =>
    refine Action.leads_bind.mpr ((Action.leads_heading rfl hword).mpr ?_)
    refine Action.leads_bind.mpr (Action.leads_finish_of rfl hsemicolon ?_)
    exact .stop ⟨rfl, rfl, rfl, rfl, rfl, rfl⟩
  | «end» hword hsemicolon =>
    refine Action.leads_bind.mpr ((Action.leads_heading rfl hword).mpr ?_)
    refine Action.leads_bind.mpr (Action.leads_finish_of rfl hsemicolon ?_)
    exact .end ⟨rfl, rfl, rfl, rfl, rfl, rfl⟩

/-- A condition that does not hold lets the step succeed, whether there is such a label or not. -/
theorem Coherent.step_untaken {m : Machine I O} (hm : m.Coherent) {condition : Tree} {label : String}
    {tokens : List Token} (hx : m.Executing .if tokens)
    (hc : (Command.branch condition label).SpelledBy tokens) {x : Float}
    (hvalue : condition.value? m.store = some x) (hzero : (x != 0) = false) :
    m.step.1 = .ok .continue := by
  obtain ⟨hrunning, s, hs, hclosed, ht, hk⟩ := hx
  obtain _ | @⟨_, _, word, opening, closing, goto, label, semicolon, hword, hopening, hcondition, hclosing,
    hgoto, hlabel, hsemicolon⟩ := hc
  have hleads := hm.step_leads hrunning hs ht hclosed hk (Q := fun flow _ => flow = .next)
    (E := fun _ _ => False) fun m' hsame => by
      obtain ⟨cache, log, rfl⟩ := hsame.exists_eq
      refine Action.leads_bind.mpr ((Action.leads_heading rfl hword).mpr ?_)
      refine (Action.leads_branch_of hsemicolon hopening hclosing hgoto hlabel rfl hcondition).mono ?_ ?_
      · rintro flow w ⟨y, log', hy, -, hflow⟩
        obtain rfl : x = y := Option.some.inj (hvalue.symm.trans hy)
        rwa [if_neg (by simp [hzero])] at hflow
      · intro d w hfailed
        have htaken := (hfailed x hvalue).1
        rw [hzero] at htaken
        cases htaken
  obtain ⟨flow, w, rfl, hw⟩ | ⟨d, w, hfalse, -⟩ := hleads
  · rw [hw]
    rfl
  · exact hfalse.elim

/-- **Steps have the effects of their commands.**  In every state of a session a step that succeeds executes
tokens that spell a command, and if the command neither prints nor reads, the step has its effect and leaves
both streams alone.  A condition that does not hold goes on to the next statement even where the label is not
there. -/
theorem step_effect {source : String} {p : Program} (hp : Program.load source = .ok p) {m : Machine I O}
    (hm : m.Reachable p) :
    (∀ r, m.step.1 = .ok r → ∃ (c : Command) (tokens : List Token), c.SpelledBy tokens ∧
      m.Executing c.kind tokens) ∧
    ∀ (c : Command) (tokens : List Token), c.SpelledBy tokens → m.Executing c.kind tokens →
      (∀ r, m.step.1 = .ok r → c.kind ≠ .print → c.kind ≠ .read →
        m.step.2.sink = m.sink ∧ m.step.2.input = m.input ∧
          c.Effect (Source.codes source.toList) m r m.step.2) ∧
      ∀ condition label x, c = .branch condition label → condition.value? m.store = some x →
        (x != 0) = false → m.step.1 = .ok .continue ∧
          { m with counter := m.counter + 1 }.Same m.step.2 := by
  obtain ⟨rfl, hcoherent⟩ := hm.coherent
  have hs : m.store.Valid := (hm.valid (Program.marked_of_load hp)).store
  have hlabels : ∀ label i, m.program.location? label = some i →
      Source.Carries (Source.codes source.toList) i label.toList :=
    fun label i => ((Program.holds_of_load hp).1.labels label i).mp
  refine ⟨fun r hstep => ?_, fun c tokens hc hx => ⟨fun r hstep hprint hread => ?_, ?_⟩⟩
  · obtain ⟨kind, tokens, -, -, hx, hform, -⟩ := hcoherent.executed_of_step hstep
    obtain ⟨c, rfl, hc⟩ := mem_form_iff.mp hform
    exact ⟨c, tokens, hc, hx⟩
  · have heffect := hcoherent.effect_of_step hs hlabels hx hc hprint hread hstep
    exact ⟨heffect.streams.1, heffect.streams.2, heffect⟩
  · rintro condition label x rfl hvalue hzero
    have hstep := hcoherent.step_untaken hx hc hvalue hzero
    refine ⟨hstep, ?_⟩
    cases hcoherent.effect_of_step hs hlabels hx hc (by simp [Command.kind]) (by simp [Command.kind]) hstep with
    | untaken _ _ hm' => exact hm'
    | taken hvalue' htaken =>
      rw [hvalue] at hvalue'
      cases hvalue'
      rw [hzero] at htaken
      cases htaken

/-- A condition that does not hold, with a label that is not there, and an assignment behind it. -/
theorem step_effect_untaken_assign :
    ∃ p, Program.load "if (0) goto x;\ny = 1;\nstop;" = .ok p ∧
      (start p [] .unlimited (.init .warn) : Machine).step.1 = .ok .continue ∧
      (start p [] .unlimited (.init .warn) : Machine).step.2.counter = 1 ∧
      (start p [] .unlimited (.init .warn) : Machine).step.2.step.2.store.get? "y" = some 1 := by
  obtain ⟨tokens₀, hif, label, hbranch⟩ : ∃ tokens, tokenize "if (0) goto x;" = .ok tokens ∧
      ∃ label, (Command.branch (.number 0) label).SpelledBy tokens := by
    refine ⟨⟨.keyword .if, "if", ⟨0, 2⟩⟩ :: ⟨.punctuation .leftParen, "(", ⟨3, 4⟩⟩ ::
      ([⟨.number 0, "0", ⟨4, 5⟩⟩] ++ [⟨.punctuation .rightParen, ")", ⟨5, 6⟩⟩,
      ⟨.keyword .goto, "goto", ⟨7, 11⟩⟩, ⟨.identifier, "x", ⟨12, 13⟩⟩,
      ⟨.punctuation .semicolon, ";", ⟨13, 14⟩⟩]), by decide +kernel, _,
      .branch rfl rfl ((Derives.number rfl).mono (by decide)) rfl rfl rfl rfl⟩
  obtain ⟨tokens₁, hassign, name, hname, hequal⟩ : ∃ tokens, tokenize "y = 1;" = .ok tokens ∧
      ∃ name, name = "y" ∧ (Command.assign ⟨name, none⟩ (.number 1)).SpelledBy tokens := by
    refine ⟨[⟨.identifier, "y", ⟨0, 1⟩⟩] ++ ⟨.punctuation .equal, "=", ⟨2, 3⟩⟩ ::
      ([⟨.number 1, "1", ⟨4, 5⟩⟩] ++ [⟨.punctuation .semicolon, ";", ⟨5, 6⟩⟩]), by decide +kernel, _, ?_,
      .assign (.scalar rfl) rfl ((Derives.number rfl).mono (by decide)) rfl⟩
    rfl
  have hload : (Program.load "if (0) goto x;\ny = 1;\nstop;").toOption.map (fun p =>
      (p.statements[0]?, p.statements[1]?,
        (start p [] .unlimited (.init .warn) : Machine).step.2.step.1.toOption)) =
        some (some ⟨"if (0) goto x;", 1, 0⟩, some ⟨"y = 1;", 2, 15⟩, some .continue) := by decide +kernel
  cases hp : Program.load "if (0) goto x;\ny = 1;\nstop;" with
  | error d =>
    rw [hp] at hload
    cases hload
  | ok p =>
    rw [hp] at hload
    simp only [Except.toOption, Option.map_some, Option.some.injEq, Prod.mk.injEq] at hload
    obtain ⟨hs₀, hs₁, hstep⟩ := hload
    have hstart : (start p [] .unlimited (.init .warn) : Machine).Reachable p := .start _ _ _
    obtain ⟨hok, hsame⟩ := ((step_effect hp hstart).2 _ _ hbranch
      (executing_of_spelledBy rfl hs₀ hif hbranch)).2 _ _ 0 rfl rfl (by decide)
    have hx := executing_of_spelledBy hsame.phase (by rw [hsame.program, hsame.counter]; exact hs₁) hassign
      hequal
    split at hstep
    · rename_i r hr
      cases hstep
      obtain ⟨-, -, heffect⟩ := ((step_effect hp hstart.step).2 _ _ hequal hx).1 _ hr nofun nofun
      refine ⟨p, rfl, hok, hsame.counter, ?_⟩
      generalize (start p [] .unlimited (.init .warn) : Machine).step.2.step.2 = m' at heffect
      obtain ⟨⟨⟩, ⟨⟩, hsets, hm'⟩ := heffect
      rw [hm'.store]
      rw [hname] at hsets
      exact hsets.values (.scalar "y")
    · cases hstep

end Machine

end Primer
