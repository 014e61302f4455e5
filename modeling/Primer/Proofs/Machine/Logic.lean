import Primer.Machine.Execute
import Primer.Proofs.Statement.Grammar
import Primer.Proofs.Store.Changes

/-!
# A logic of actions

`Leads a w Q E` says where the action `a` leads from the work `w`: to a result and a work as `Q` says,
or to a fault as `E` says.  There is one rule for every way to build an action; what holds of the
statements is put together from them and never from the definitions of the monad.
-/

namespace Primer

variable {I O : Type}

/-- The work with only `rest` still to be read. -/
def Work.ahead (w : Work I O) (rest : List Token) : Work I O := { w with cursor := { w.cursor with rest } }

@[simp] theorem Work.ahead_rest (w : Work I O) (rest : List Token) : (w.ahead rest).cursor.rest = rest :=
  rfl

/-- The work behind an evaluation. -/
def Work.evaluated (w : Work I O) (e : Expression.Evaluation) : Work I O :=
  ⟨{ w.cursor with rest := e.rest }, { w.machine with log := w.machine.log.noteAll e.trace }⟩

@[simp] theorem Work.evaluated_rest (w : Work I O) (e : Expression.Evaluation) :
    (w.evaluated e).cursor.rest = e.rest := rfl

namespace Action

variable {α β : Type} {a : Action I O α} {f : α → Action I O β} {w : Work I O}
  {Q : α → Work I O → Prop} {R : β → Work I O → Prop} {E : Diagnostic → Work I O → Prop}

/-- Where an action leads. -/
def Leads (a : Action I O α) (w : Work I O) (Q : α → Work I O → Prop)
    (E : Diagnostic → Work I O → Prop) : Prop :=
  match a w with
  | .ok x w' => Q x w'
  | .error d w' => E d w'

theorem Leads.mono {Q' : α → Work I O → Prop} {E' : Diagnostic → Work I O → Prop} (h : Leads a w Q E)
    (hQ : ∀ x w', Q x w' → Q' x w') (hE : ∀ d w', E d w' → E' d w') : Leads a w Q' E' := by
  unfold Leads at *
  split at h
  · exact hQ _ _ h
  · exact hE _ _ h

theorem Leads.and {Q' : α → Work I O → Prop} {E' : Diagnostic → Work I O → Prop} (h : Leads a w Q E)
    (h' : Leads a w Q' E') :
    Leads a w (fun x w' => Q x w' ∧ Q' x w') (fun d w' => E d w' ∧ E' d w') := by
  unfold Leads at *
  cases hw : a w with
  | ok x w' =>
    rw [hw] at h h'
    exact ⟨h, h'⟩
  | error d w' =>
    rw [hw] at h h'
    exact ⟨h, h'⟩

/-- An action leads where its outcome says. -/
theorem Leads.ok {x : α} {w' : Work I O} (h : Leads a w Q E) (ha : a w = .ok x w') : Q x w' := by
  rw [Leads, ha] at h
  exact h

theorem Leads.error {d : Diagnostic} {w' : Work I O} (h : Leads a w Q E) (ha : a w = .error d w') :
    E d w' := by
  rw [Leads, ha] at h
  exact h

/-! ### Sequences -/

theorem leads_pure {x : α} : Leads (pure x : Action I O α) w Q E ↔ Q x w := Iff.rfl

theorem bind_apply (a : Action I O α) (f : α → Action I O β) (w : Work I O) :
    (a >>= f) w = match a w with
      | .ok x w' => f x w'
      | .error d w' => .error d w' := by
  cases h : a w <;> simp [bind, EStateM.bind, h]

theorem leads_bind : Leads (a >>= f) w R E ↔ Leads a w (fun x w' => Leads (f x) w' R E) E := by
  unfold Leads
  rw [bind_apply]
  cases a w <;> rfl

theorem Leads.bind {E' : Diagnostic → Work I O → Prop} (ha : Leads a w Q E')
    (hf : ∀ x w', Q x w' → Leads (f x) w' R E) (hE : ∀ d w', E' d w' → E d w') :
    Leads (a >>= f) w R E :=
  leads_bind.mpr (ha.mono hf hE)

theorem leads_get {Q : Work I O → Work I O → Prop} : Leads (get : Action I O (Work I O)) w Q E ↔ Q w w :=
  Iff.rfl

theorem leads_fail {cause : Cause} {span : Span} :
    Leads (fail cause span : Action I O α) w Q E ↔ E ⟨cause, span, none⟩ w := Iff.rfl

theorem leads_here {Q : Span → Work I O → Prop} : Leads here w Q E ↔ Q w.cursor.here w := Iff.rfl

theorem leads_peek? {Q : Option Token → Work I O → Prop} :
    Leads peek? w Q E ↔ Q w.cursor.peek? w := Iff.rfl

/-! ### Reading tokens -/

theorem leads_advance {Q : Option Token → Work I O → Prop} :
    Leads (parse Parse.advance) w Q E ↔ Q w.cursor.peek? (w.ahead w.cursor.rest.tail) := Iff.rfl

theorem leads_skip {mark : Punctuation} {Q : Bool → Work I O → Prop}
    (htrue : ∀ t rest, w.cursor.rest = t :: rest → t.kind = .punctuation mark →
      Q true (w.ahead rest))
    (hfalse : (∀ t ∈ w.cursor.rest.head?, t.kind ≠ .punctuation mark) → Q false w) :
    Leads (parse (Parse.skip mark)) w Q E := by
  unfold Leads parse Parse.skip
  cases hr : w.cursor.rest with
  | nil =>
    have hat : w.cursor.isAt mark = false := by simp [Cursor.isAt, Cursor.peek?, hr]
    rw [if_neg (by simp [hat])]
    exact hfalse (by simp [hr])
  | cons t rest =>
    have hat : w.cursor.isAt mark = t.isPunctuation mark := by simp [Cursor.isAt, Cursor.peek?, hr]
    rw [hat]
    by_cases ht : t.kind = .punctuation mark
    · rw [if_pos (by simp [Token.isPunctuation, ht])]
      exact htrue t rest hr ht
    · rw [if_neg (by simp [Token.isPunctuation, ht])]
      exact hfalse (by simpa [hr] using ht)

theorem leads_expect {p : Token → Bool} {cause : Cause} {Q : Token → Work I O → Prop}
    (hok : ∀ t rest, w.cursor.rest = t :: rest → p t = true → Q t (w.ahead rest))
    (herror : (∀ t ∈ w.cursor.rest.head?, p t = false) → E ⟨cause, w.cursor.here, none⟩ w) :
    Leads (parse (Parse.expect p cause)) w Q E := by
  unfold Leads parse Parse.expect
  cases hr : w.cursor.rest with
  | nil => exact herror (by simp [hr])
  | cons t rest =>
    by_cases ht : p t = true
    · simp only [ht, if_true]
      exact hok t rest hr ht
    · have hhere : w.cursor.here = t.span := by simp [Cursor.here, Cursor.spanAt, hr]
      have h := herror (by simpa [hr] using ht)
      rw [hhere] at h
      simp only [ht]
      exact h

/-- A keyword that is there is taken. -/
theorem leads_heading {word : Keyword} {t : Token} {rest : List Token} {Q : Token → Work I O → Prop}
    (hrest : w.cursor.rest = t :: rest) (ht : t.kind = .keyword word) :
    Leads (heading word) w Q E ↔ Q t (w.ahead rest) := by
  unfold Leads heading parse Parse.keyword Parse.expect
  simp only [hrest, Token.isKeyword, ht, decide_true, if_true, Work.ahead]

/-- The keyword that a statement is known by is there, so it is taken whatever is wrong behind it. -/
theorem leads_heading_of_classify {text : String} {word : Keyword}
    (hk : classify text w.cursor.rest = .ok (.ofKeyword word)) {Q : Token → Work I O → Prop}
    (h : ∀ t, Q t (w.ahead w.cursor.rest.tail)) : Leads (heading word) w Q E := by
  rcases classify_eq_ok hk with ⟨t, word', rest, hw, ht, hword⟩ | hword
  · have hkind : t.kind = .keyword word := by cases word <;> cases word' <;> cases hword <;> exact ht
    refine (leads_heading hw hkind).mpr ?_
    have hahead := h t
    rwa [hw] at hahead
  · cases word <;> cases hword

/-- Reading tokens leaves the machine alone. -/
theorem leads_parse (p : Parse α) : Leads (parse p) w (fun _ w' => w'.machine = w.machine)
    (fun _ w' => w'.machine = w.machine) := by
  unfold Leads parse
  cases p w.cursor <;> rfl

theorem parse_bind {α β : Type} (p : Parse α) (f : α → Parse β) :
    (parse (p >>= f) : Action I O β) = parse p >>= fun x => parse (f x) := by
  funext w
  unfold parse
  simp only [bind, EStateM.bind]
  cases p w.cursor <;> rfl

/-- The end of a statement.  A semicolon is read also where something follows it. -/
theorem finish_apply (kind : StatementKind) (w : Work I O) : finish kind w =
    if w.cursor.isAt .semicolon then
      if w.cursor.rest.tail.isEmpty then .ok () (w.ahead w.cursor.rest.tail)
      else .error ⟨.trailing kind, (w.ahead w.cursor.rest.tail).cursor.ending, none⟩
        (w.ahead w.cursor.rest.tail)
    else .error ⟨.trailing kind, w.cursor.ending, none⟩ w := by
  unfold finish Parse.finish
  rw [parse_bind, bind_apply]
  unfold parse Parse.skip
  by_cases h : w.cursor.isAt .semicolon = true
  · simp only [h, if_true]
    cases w.cursor.rest.tail <;> rfl
  · simp only [h]
    rfl

theorem leads_finish {kind : StatementKind} {Q : Unit → Work I O → Prop}
    (hok : ∀ t, w.cursor.rest = [t] → t.kind = .punctuation .semicolon → Q () (w.ahead []))
    (hmore : ∀ t t' rest, w.cursor.rest = t :: t' :: rest → t.kind = .punctuation .semicolon →
      E ⟨.trailing kind, t'.span, none⟩ (w.ahead (t' :: rest)))
    (hother : (∀ t ∈ w.cursor.rest.head?, t.kind ≠ .punctuation .semicolon) →
      E ⟨.trailing kind, w.cursor.ending, none⟩ w) :
    Leads (finish kind) w Q E := by
  unfold finish Parse.finish
  rw [parse_bind, leads_bind]
  refine leads_skip ?_ (fun h => hother h)
  intro t rest hr ht
  cases rest with
  | nil => exact hok t hr ht
  | cons t' rest => exact hmore t t' rest hr ht

/-- The look-ahead of `if` takes nothing. -/
theorem leads_checkCondition {Q : Unit → Work I O → Prop}
    (hok : w.cursor.isAt .leftParen = true →
      (∀ t rest, afterClosing? .leftParen .rightParen 0 w.cursor.rest = some (t :: rest) →
        t.kind = .keyword .goto) → Q () w)
    (hparen : w.cursor.isAt .leftParen = false → E ⟨.missingParentheses, w.cursor.here, none⟩ w)
    (hgoto : ∀ t rest, w.cursor.isAt .leftParen = true →
      afterClosing? .leftParen .rightParen 0 w.cursor.rest = some (t :: rest) →
      t.kind ≠ .keyword .goto → E ⟨.missingGoto, t.span, none⟩ w) :
    Leads checkCondition w Q E := by
  unfold checkCondition
  refine leads_bind.mpr (leads_get.mpr ?_)
  simp only
  cases hat : w.cursor.isAt .leftParen with
  | false => exact hparen hat
  | true =>
    simp only [Bool.not_true, Bool.false_eq_true, if_false]
    split
    · rename_i t rest hscan
      by_cases ht : t.kind = .keyword .goto
      · simp only [Token.isKeyword, ht, decide_true, Bool.not_true, Bool.false_eq_true, if_false]
        refine hok hat fun t' rest' hscan' => ?_
        rw [hscan] at hscan'
        cases hscan'
        exact ht
      · simp only [Token.isKeyword, ht, decide_false, Bool.not_false, if_true]
        exact hgoto t rest hat hscan ht
    · rename_i hscan
      exact hok hat fun t rest hscan' => absurd hscan' (hscan t rest)

/-! ### Values -/

theorem leads_expression {Q : Float → Work I O → Prop}
    (hok : ∀ x, (evaluate w.machine.store w.cursor).value = .ok x →
      Q x (w.evaluated (evaluate w.machine.store w.cursor)))
    (herror : ∀ d, (evaluate w.machine.store w.cursor).value = .error d →
      E d (w.evaluated (evaluate w.machine.store w.cursor))) :
    Leads expression w Q E := by
  unfold Leads expression evaluating
  generalize evaluate w.machine.store w.cursor = e at *
  obtain ⟨value, rest, trace⟩ := e
  cases value with
  | ok x => exact hok x rfl
  | error d => exact herror d rfl

/-- An index is an expression with the bracket that closes it. -/
theorem subscript_eq : (subscript : Action I O Float) = (do
    let x ← expression
    let _ ← parse (Parse.punctuation .rightBracket .unclosedIndex)
    return x) := by
  funext w
  rw [bind_apply]
  unfold subscript expression evaluating evaluateIndex
  generalize evaluate w.machine.store w.cursor = e
  obtain ⟨value, rest, trace⟩ := e
  cases value with
  | error d => rfl
  | ok x =>
    simp only [bind_apply, parse, Parse.punctuation, Parse.expect]
    cases rest with
    | nil => rfl
    | cons t rest => by_cases ht : t.isPunctuation .rightBracket = true <;> simp only [ht] <;> rfl

theorem leads_subscript {Q : Float → Work I O → Prop}
    (hok : ∀ x close rest, (evaluate w.machine.store w.cursor).value = .ok x →
      (evaluate w.machine.store w.cursor).rest = close :: rest →
      close.kind = .punctuation .rightBracket →
      Q x ((w.evaluated (evaluate w.machine.store w.cursor)).ahead rest))
    (hopen : ∀ x, (evaluate w.machine.store w.cursor).value = .ok x →
      (∀ t ∈ (evaluate w.machine.store w.cursor).rest.head?, t.kind ≠ .punctuation .rightBracket) →
      E ⟨.unclosedIndex, (w.evaluated (evaluate w.machine.store w.cursor)).cursor.here, none⟩
        (w.evaluated (evaluate w.machine.store w.cursor)))
    (herror : ∀ d, (evaluate w.machine.store w.cursor).value = .error d →
      E d (w.evaluated (evaluate w.machine.store w.cursor))) :
    Leads subscript w Q E := by
  rw [subscript_eq]
  refine leads_bind.mpr (leads_expression (fun x hx => ?_) herror)
  refine leads_bind.mpr (leads_expect (fun t rest hr ht => ?_) fun hnone => ?_)
  · exact leads_pure.mpr (hok x t rest hx hr (by simpa [Token.isPunctuation] using ht))
  · exact hopen x hx fun t ht => by simpa [Token.isPunctuation] using hnone t ht

end Action

/-! ### Lists -/

namespace Action

/-- Items as long as commas follow. -/
def separated (item : Action I O Unit) : Nat → Action I O Unit
  | 0 => return
  | fuel + 1 => do
    item
    if ← parse (Parse.skip .comma) then separated item fuel

theorem printItems_eq [Writer O] (fuel : Nat) :
    (printItems fuel : Action I O Unit) = separated printItem fuel := by
  induction fuel with
  | zero => rfl
  | succ fuel ih => rw [printItems, separated, ih]

theorem readTargets_eq [Reader I] [Writer O] (fuel : Nat) :
    (readTargets fuel : Action I O Unit) = separated readTarget fuel := by
  induction fuel with
  | zero => rfl
  | succ fuel ih => rw [readTargets, separated, ih]

end Action

/-! ### Effects -/

namespace Action

section Streams

variable {w : Work I O} {E : Diagnostic → Work I O → Prop}

theorem leads_write [Writer O] {text : String} {Q : Unit → Work I O → Prop}
    (hok : (Writer.write w.machine.sink text.toUTF8).1 = .ok () →
      Q () { w with machine := { w.machine with sink := (Writer.write w.machine.sink text.toUTF8).2 } })
    (herror : ∀ reason, (Writer.write w.machine.sink text.toUTF8).1 = .error reason →
      E ⟨.unwritable reason, .single 0, none⟩
        { w with machine := { w.machine with sink := (Writer.write w.machine.sink text.toUTF8).2 } }) :
    Leads (write text) w Q E := by
  unfold Leads write
  cases hwrite : Writer.write w.machine.sink text.toUTF8 with
  | mk result sink =>
    rw [hwrite] at hok herror
    cases result with
    | ok u => exact hok rfl
    | error reason => exact herror reason rfl

theorem leads_flush [Writer O] {Q : Unit → Work I O → Prop}
    (hok : (Writer.flush w.machine.sink).1 = .ok () →
      Q () { w with machine := { w.machine with sink := (Writer.flush w.machine.sink).2 } })
    (herror : ∀ reason, (Writer.flush w.machine.sink).1 = .error reason →
      E ⟨.unwritable reason, .single 0, none⟩
        { w with machine := { w.machine with sink := (Writer.flush w.machine.sink).2 } }) :
    Leads flush w Q E := by
  unfold Leads flush
  cases hflush : Writer.flush w.machine.sink with
  | mk result sink =>
    rw [hflush] at hok herror
    cases result with
    | ok u => exact hok rfl
    | error reason => exact herror reason rfl

theorem leads_entry [Reader I] {Q : Input.Entry → Work I O → Prop} :
    Leads entry w Q E ↔ Q (Input.entry w.machine.input).1
      { w with machine := { w.machine with input := (Input.entry w.machine.input).2 } } := Iff.rfl

end Streams

/-- The action reads no tokens and has only semantic faults, which lie at `span` or at the first point of
the text. -/
def Silent {α : Type} (span : Span) (a : Action I O α) : Prop :=
  ∀ w, Leads a w (fun _ w' => w'.cursor = w.cursor)
    (fun d _ => (d.span = .single 0 ∨ d.span = span) ∧ d.context = none ∧ d.cause.kind = .semantic)

section Silent

variable {α β : Type} {span : Span} {a : Action I O α} {f : α → Action I O β}

theorem silent_pure (x : α) : Silent span (pure x : Action I O α) := fun _ => leads_pure.mpr rfl

theorem Silent.bind (ha : Silent span a) (hf : ∀ x, Silent span (f x)) : Silent span (a >>= f) := by
  intro w
  refine (ha w).bind (fun x w' hc => ?_) fun d w' hd => hd
  exact (hf x w').mono (fun y w'' hc' => hc'.trans hc) fun d w'' hd => hd

theorem silent_fail {cause : Cause} (h : cause.kind = .semantic) :
    Silent span (fail cause span : Action I O α) :=
  fun _ => leads_fail.mpr ⟨.inr rfl, rfl, h⟩

theorem silent_write [Writer O] (text : String) : Silent span (write text : Action I O Unit) :=
  fun _ => leads_write (fun _ => rfl) fun _ _ => ⟨.inl rfl, rfl, rfl⟩

theorem silent_flush [Writer O] : Silent span (flush : Action I O Unit) :=
  fun _ => leads_flush (fun _ => rfl) fun _ _ => ⟨.inl rfl, rfl, rfl⟩

theorem silent_entry [Reader I] : Silent span (entry : Action I O Input.Entry) := fun _ => rfl

theorem silent_note (r : Record) : Silent span (note r : Action I O Unit) := fun _ => rfl

theorem silent_store (name : Token) (index : Option Float) (value : Float) :
    Silent span (store name index value span : Action I O Unit) := by
  intro w
  cases index with
  | none => rfl
  | some index =>
    simp only [Leads, store, assign]
    cases w.machine.store.assign name.lexeme index value with
    | ok s => rfl
    | error e => exact ⟨.inr rfl, rfl, rfl⟩

theorem silent_declare (name : Token) (size : Float) :
    Silent span (declare name size span : Action I O Nat) := by
  intro w
  unfold Leads declare
  cases w.machine.store.declare name.lexeme size with
  | ok r => rfl
  | error e => exact ⟨.inr rfl, rfl, rfl⟩

theorem get_apply (w : Work I O) : (get : Action I O (Work I O)) w = .ok w w := rfl

theorem target_of_some {w : Work I O} {label : Token} {i : Nat}
    (h : w.machine.program.location? label.lexeme = some i) : target label w = .ok i w := by
  simp only [target, bind_apply, get_apply, h]
  rfl

theorem target_of_none {w : Work I O} {label : Token}
    (h : w.machine.program.location? label.lexeme = none) :
    target label w = fail (.undefinedLabel label.lexeme) label.span w := by
  simp only [target, bind_apply, get_apply, h]

theorem silent_target (label : Token) : Silent label.span (target label : Action I O Nat) := by
  intro w
  unfold target
  refine leads_bind.mpr (leads_get.mpr ?_)
  split
  · exact silent_pure _ w
  · exact silent_fail rfl w

theorem silent_readNumber [Reader I] [Writer O] (name : Token) :
    Silent name.span (readNumber name : Action I O Float) := by
  refine silent_flush.bind fun _ => silent_entry.bind fun entry => ?_
  split
  · exact silent_fail rfl
  · exact silent_fail rfl
  · split
    · exact silent_pure _
    · exact silent_fail rfl

end Silent

end Action

/-- A relation between a machine and what becomes of it, where one thing follows the other and records
are taken all the time, those of the tokens apart: they are taken before a statement begins. -/
structure Machine.Frame (R : Machine I O → Machine I O → Prop) : Prop where
  refl (m : Machine I O) : R m m
  trans {m m' m'' : Machine I O} : R m m' → R m' m'' → R m m''
  note (m : Machine I O) (r : Record) : (∀ k tokens, r ≠ .tokenized k tokens) → R m (m.note r)

/-- The records of an evaluation. -/
theorem Machine.Frame.noteAll {R : Machine I O → Machine I O → Prop} (hR : Machine.Frame R) (m : Machine I O)
    (trace : List Expression.Reduction) : R m { m with log := m.log.noteAll trace } := by
  induction trace with
  | nil => exact hR.refl m
  | cons r trace ih => exact hR.trans ih (hR.note _ (.reduced r) (by simp))

/-- All that statements do is in the relation. -/
structure Machine.Frame.Whole (R : Machine I O → Machine I O → Prop) : Prop extends Machine.Frame R where
  sink (m : Machine I O) (sink : O) : R m { m with sink }
  input (m : Machine I O) (input : I) : R m { m with input }
  store (m : Machine I O) (s : Store) : m.store.Change s → R m { m with store := s }

namespace Action

/-- The action leads to machines in the relation `R`, whether it fails or not. -/
def Within {α : Type} (R : Machine I O → Machine I O → Prop) (a : Action I O α) : Prop :=
  ∀ w, Leads a w (fun _ w' => R w.machine w'.machine) (fun _ w' => R w.machine w'.machine)

section Within

variable {α β : Type} {R : Machine I O → Machine I O → Prop} {a : Action I O α} {f : α → Action I O β}

theorem within_pure (hR : Machine.Frame R) (x : α) : Within R (pure x : Action I O α) :=
  fun w => leads_pure.mpr (hR.refl w.machine)

theorem Within.bind (hR : Machine.Frame R) (ha : Within R a) (hf : ∀ x, Within R (f x)) :
    Within R (a >>= f) := by
  intro w
  refine (ha w).bind (fun x w' hw => ?_) fun d w' hw => hw
  exact (hf x w').mono (fun y w'' hw' => hR.trans hw hw') fun d w'' hw' => hR.trans hw hw'

theorem within_fail (hR : Machine.Frame R) (cause : Cause) (span : Span) :
    Within R (fail cause span : Action I O α) :=
  fun w => leads_fail.mpr (hR.refl w.machine)

theorem within_note (hR : Machine.Frame R) {r : Record} (hr : ∀ k tokens, r ≠ .tokenized k tokens) :
    Within R (note r) :=
  fun w => hR.note w.machine r hr

theorem within_write [Writer O] (hsink : ∀ m sink, R m { m with sink }) (text : String) :
    Within R (write text) :=
  fun w => leads_write (fun _ => hsink w.machine _) fun _ _ => hsink w.machine _

theorem within_flush [Writer O] (hsink : ∀ m sink, R m { m with sink }) : Within R flush :=
  fun w => leads_flush (fun _ => hsink w.machine _) fun _ _ => hsink w.machine _

theorem within_entry [Reader I] (hentry : ∀ m, R m { m with input := (Input.entry m.input).2 }) :
    Within R entry :=
  fun w => hentry w.machine

theorem within_store (hR : Machine.Frame R)
    (hstore : ∀ m s, m.store.Change s → R m { m with store := s }) {name : Token}
    (hname : Word.isIdentifier name.lexeme.toList = true) (index : Option Float) (value : Float)
    (span : Span) : Within R (store name index value span) := by
  intro w
  cases index with
  | none => exact hstore w.machine _ (.record hname value)
  | some index =>
    simp only [Leads, store, assign]
    cases hs : w.machine.store.assign name.lexeme index value with
    | ok s => exact hstore w.machine s (.assign hname hs)
    | error e => exact hR.refl w.machine

theorem within_declare (hR : Machine.Frame R)
    (hstore : ∀ m s, m.store.Change s → R m { m with store := s }) {name : Token}
    (hname : Word.isIdentifier name.lexeme.toList = true) (size : Float) (span : Span) :
    Within R (declare name size span) := by
  intro w
  unfold Leads declare
  cases hs : w.machine.store.declare name.lexeme size with
  | ok r => exact hstore w.machine r.2 (.declare hname hs)
  | error e => exact hR.refl w.machine

theorem within_target (hR : Machine.Frame R) (label : Token) : Within R (target label) := by
  intro w
  unfold target
  refine leads_bind.mpr (leads_get.mpr ?_)
  split
  · exact within_pure hR _ w
  · exact within_fail hR _ _ w

theorem within_readNumber [Reader I] [Writer O] (hR : Machine.Frame R) (hsink : ∀ m sink, R m { m with sink })
    (hentry : ∀ m, R m { m with input := (Input.entry m.input).2 }) (name : Token) :
    Within R (readNumber name) := by
  refine (within_flush hsink).bind hR fun _ => (within_entry hentry).bind hR fun entry => ?_
  split
  · exact within_fail hR _ _
  · exact within_fail hR _ _
  · split
    · exact within_pure hR _
    · exact within_fail hR _ _

end Within

end Action

/-- The machines agree on all but the log. -/
def Machine.Logged (m m' : Machine I O) : Prop := ∃ log, m' = { m with log }

theorem Machine.frame_logged : Machine.Frame (I := I) (O := O) Machine.Logged where
  refl m := ⟨m.log, rfl⟩
  trans := by
    rintro m _ _ ⟨log, rfl⟩ ⟨log', rfl⟩
    exact ⟨log', rfl⟩
  note m r _ := ⟨m.log.note r, rfl⟩

/-- The machines agree on all but the store, the streams and the log. -/
structure Machine.Alike (m m' : Machine I O) : Prop where
  program : m'.program = m.program
  phase : m'.phase = m.phase
  counter : m'.counter = m.counter
  cache : m'.cache = m.cache

theorem Machine.frame_alike : Machine.Frame.Whole (I := I) (O := O) Machine.Alike where
  refl _ := ⟨rfl, rfl, rfl, rfl⟩
  trans h h' := ⟨h'.program.trans h.program, h'.phase.trans h.phase, h'.counter.trans h.counter,
    h'.cache.trans h.cache⟩
  note _ _ _ := ⟨rfl, rfl, rfl, rfl⟩
  sink _ _ := ⟨rfl, rfl, rfl, rfl⟩
  input _ _ := ⟨rfl, rfl, rfl, rfl⟩
  store _ _ _ := ⟨rfl, rfl, rfl, rfl⟩

end Primer
