import Primer.Proofs.Expression.Completeness
import Primer.Proofs.Machine.Logic
import Primer.Proofs.Statement.Grammar

/-!
# Statements read their sentences

The actions of the statements against the languages of their forms.

* `Reads a L F`: what the action `a` reads is of the language `L`, and in front of tokens that satisfy
  `F` it reads every sentence of `L`, unless a semantic fault stops it.
* `Completes a L`: the same for an action that reads a statement to its end.
* `leads_statement`: a statement that is executed is a sentence of its kind, and a sentence has none
  but semantic faults.
-/

namespace Primer

variable {I O : Type}

open Expression
open scoped Computability

namespace Action

/-- The action reads sentences of `L`, and each of them in front of what satisfies `F`. -/
structure Reads {α : Type} (a : Action I O α) (L : Language Token) (F : List Token → Prop) :
    Prop where
  sound : ∀ w, Leads a w (fun _ w' => ∃ read ∈ L, w.cursor.rest = read ++ w'.cursor.rest)
    (fun _ _ => True)
  complete : ∀ w read rest, read ∈ L → F rest → w.cursor.rest = read ++ rest →
    Leads a w (fun _ w' => w'.cursor.rest = rest) (fun d _ => d.cause.kind = .semantic)

/-- The action reads to the end of a statement, and what it reads are the sentences of `L`. -/
structure Completes {α : Type} (a : Action I O α) (L : Language Token) : Prop where
  sound : ∀ w, Leads a w (fun _ _ => w.cursor.rest ∈ L) (fun _ _ => True)
  complete : ∀ w, w.cursor.rest ∈ L →
    Leads a w (fun _ _ => True) (fun d _ => d.cause.kind = .semantic)

/-- The action reads nothing and has none but semantic faults. -/
def Quiet {α : Type} (a : Action I O α) : Prop :=
  ∀ w, Leads a w (fun _ w' => w'.cursor = w.cursor) (fun d _ => d.cause.kind = .semantic)

/-- Anything may follow. -/
def Anything (_ : List Token) : Prop := True

/-- No token of that kind follows. -/
def NoneOf (kind : Token.Kind) (rest : List Token) : Prop := ∀ t ∈ rest.head?, t.kind ≠ kind

section Rules

variable {α β : Type} {a : Action I O α} {f : α → Action I O β} {L L' : Language Token}
  {F F' : List Token → Prop}

theorem Reads.bind (ha : Reads a L F) (hf : ∀ x, Reads (f x) L' F')
    (hF : ∀ read ∈ L', ∀ rest, F' rest → F (read ++ rest)) : Reads (a >>= f) (L * L') F' where
  sound w := by
    refine (ha.sound w).bind (fun x w' ⟨read, hread, hw⟩ => ?_) fun _ _ h => h
    refine ((hf x).sound w').mono (fun y w'' ⟨read', hread', hw'⟩ => ?_) fun _ _ h => h
    exact ⟨read ++ read', Language.mem_mul.mpr ⟨read, hread, read', hread', rfl⟩,
      by rw [hw, hw', List.append_assoc]⟩
  complete w all rest hall hrest hw := by
    obtain ⟨read, hread, read', hread', rfl⟩ := Language.mem_mul.mp hall
    rw [List.append_assoc] at hw
    refine (ha.complete w read _ hread (hF read' hread' rest hrest) hw).bind ?_ fun _ _ h => h
    exact fun x w' hw' => (hf x).complete w' read' rest hread' hrest hw'

theorem Reads.andThen (ha : Reads a L F) (hf : ∀ x, Completes (f x) L') (hF : ∀ rest ∈ L', F rest) :
    Completes (a >>= f) (L * L') where
  sound w := by
    refine (ha.sound w).bind (fun x w' ⟨read, hread, hw⟩ => ?_) fun _ _ h => h
    refine ((hf x).sound w').mono (fun y w'' hw' => ?_) fun _ _ h => h
    exact Language.mem_mul.mpr ⟨read, hread, _, hw', hw.symm⟩
  complete w hall := by
    obtain ⟨read, hread, rest, hrest, hw⟩ := Language.mem_mul.mp hall
    refine (ha.complete w read rest hread (hF rest hrest) hw.symm).bind ?_ fun _ _ h => h
    exact fun x w' hw' => (hf x).complete w' (hw' ▸ hrest)

theorem Silent.quiet {span : Span} (ha : Silent span a) : Quiet a :=
  fun w => (ha w).mono (fun _ _ h => h) fun _ _ hd => hd.2.2

theorem Quiet.bind (ha : Quiet a) (hf : ∀ x, Quiet (f x)) : Quiet (a >>= f) := by
  intro w
  refine (ha w).bind (fun x w' hw => ?_) fun _ _ hd => hd
  exact (hf x w').mono (fun _ _ hw' => hw'.trans hw) fun _ _ hd => hd

theorem quiet_pure (x : α) : Quiet (pure x : Action I O α) := fun _ => leads_pure.mpr rfl

theorem quiet_here : Quiet (here : Action I O Span) := fun _ => leads_here.mpr rfl

theorem quiet_write [Writer O] (text : String) : Quiet (write text : Action I O Unit) :=
  have h : Silent (I := I) (O := O) (.single 0) (write text) := silent_write text
  h.quiet

theorem quiet_note (r : Record) : Quiet (note r : Action I O Unit) :=
  have h : Silent (I := I) (O := O) (.single 0) (note r) := silent_note r
  h.quiet

theorem quiet_peek? : Quiet (peek? : Action I O (Option Token)) := fun _ => leads_peek?.mpr rfl

/-- What takes effect before anything else is read. -/
theorem Quiet.bindReads (ha : Quiet a) (hf : ∀ x, Reads (f x) L F) : Reads (a >>= f) L F where
  sound w := by
    refine (ha w).bind (fun x w' hw => ?_) fun _ _ _ => trivial
    exact hw ▸ (hf x).sound w'
  complete w read rest hread hrest hw := by
    refine (ha w).bind (fun x w' hw' => ?_) fun _ _ hd => hd
    exact (hf x).complete w' read rest hread hrest (hw' ▸ hw)

theorem Quiet.andThen (ha : Quiet a) (hf : ∀ x, Completes (f x) L) : Completes (a >>= f) L where
  sound w := by
    refine (ha w).bind (fun x w' hw => ?_) fun _ _ _ => trivial
    exact hw ▸ (hf x).sound w'
  complete w hall := by
    refine (ha w).bind (fun x w' hw => ?_) fun _ _ hd => hd
    exact (hf x).complete w' (hw ▸ hall)

/-- What takes effect when all has been read. -/
theorem Reads.thenQuiet (ha : Reads a L F) (hf : ∀ x, Quiet (f x)) : Reads (a >>= f) L F where
  sound w := by
    refine (ha.sound w).bind (fun x w' ⟨read, hread, hw⟩ => ?_) fun _ _ h => h
    refine (hf x w').mono (fun y w'' hw' => ?_) fun _ _ _ => trivial
    exact ⟨read, hread, hw' ▸ hw⟩
  complete w read rest hread hrest hw := by
    refine (ha.complete w read rest hread hrest hw).bind (fun x w' hw' => ?_) fun _ _ h => h
    exact (hf x w').mono (fun y w'' hw'' => hw'' ▸ hw') fun _ _ hd => hd

theorem Completes.thenQuiet (ha : Completes a L) (hf : ∀ x, Quiet (f x)) :
    Completes (a >>= f) L where
  sound w := by
    refine (ha.sound w).bind (fun x w' hw => ?_) fun _ _ h => h
    exact (hf x w').mono (fun _ _ _ => hw) fun _ _ _ => trivial
  complete w hall := by
    refine (ha.complete w hall).bind (fun x w' _ => ?_) fun _ _ h => h
    exact (hf x w').mono (fun _ _ _ => trivial) fun _ _ hd => hd

end Rules

/-! ### Tokens -/

theorem reads_expect {p : Token → Bool} {kind : Token.Kind} (hp : ∀ t, p t = true ↔ t.kind = kind)
    (cause : Cause) :
    Reads (parse (Parse.expect p cause) : Action I O Token) (Form.token kind) Anything where
  sound w := by
    refine leads_expect (fun t rest hr ht => ?_) fun _ => trivial
    exact ⟨[t], ⟨t, (hp t).mp ht, rfl⟩, hr⟩
  complete w read rest hread _ hw := by
    obtain ⟨t, ht, rfl⟩ := hread
    refine leads_expect (fun t' rest' hr _ => ?_) fun h => ?_
    · rw [hw] at hr
      cases hr
      rfl
    · have hfalse := h t (by simp [hw])
      rw [(hp t).mpr ht] at hfalse
      cases hfalse

theorem reads_punctuation (m : Punctuation) (cause : Cause) :
    Reads (parse (Parse.punctuation m cause) : Action I O Token) (Form.mark m) Anything :=
  reads_expect (by simp [Token.isPunctuation]) cause

theorem reads_keyword (word : Keyword) (cause : Cause) :
    Reads (parse (Parse.keyword word cause) : Action I O Token) (Form.keyword word) Anything :=
  reads_expect (by simp [Token.isKeyword]) cause

theorem reads_identifier (cause : Cause) :
    Reads (parse (Parse.identifier cause) : Action I O Token) Form.identifier Anything :=
  reads_expect (by simp [Token.isIdentifier]) cause

theorem completes_finish (kind : StatementKind) :
    Completes (finish kind : Action I O Unit) (Form.mark .semicolon) where
  sound w := by
    refine leads_finish (fun t hr ht => ?_) (fun _ _ _ _ _ => trivial) fun _ => trivial
    exact ⟨t, ht, hr⟩
  complete w hw := by
    obtain ⟨t, ht, hr⟩ := hw
    refine leads_finish (fun _ _ _ => trivial) (fun _ _ _ hr' _ => ?_) fun h => ?_
    · rw [hr] at hr'
      cases hr'
    · exact absurd ht (h t (by simp [hr]))

/-! ### Expressions and indices -/

/-- In front of a terminator an expression is read to its end, or has a semantic fault. -/
theorem evaluate_of_mem_expression {s : Store} {c : Cursor} {read rest : List Token}
    (hread : read ∈ Form.expression) (hrest : Ends rest) (hc : c.rest = read ++ rest) :
    (∀ x, (evaluate s c).value = .ok x → (evaluate s c).rest = rest) ∧
      ∀ d, (evaluate s c).value = .error d → d.cause.kind = .semantic := by
  obtain ⟨e, he⟩ := hread
  have h := evaluate_of_derives (s := s) hc he hrest
  cases hv : e.value? s with
  | some y =>
    rw [hv] at h
    obtain ⟨hy, hr⟩ := h
    rw [hy]
    exact ⟨fun _ _ => hr, fun d hd => nomatch hd⟩
  | none =>
    rw [hv] at h
    obtain ⟨d, hd, hk⟩ := h
    rw [hd]
    refine ⟨fun x hx => (nomatch hx), fun d' hd' => ?_⟩
    cases hd'
    exact hk

theorem reads_expression : Reads (expression : Action I O Float) Form.expression Ends where
  sound w := by
    refine leads_expression (fun x hx => ?_) fun _ _ => trivial
    obtain ⟨read, e, hread, he, -⟩ := exists_derives_of_evaluate hx
    exact ⟨read, ⟨e, he⟩, hread⟩
  complete w read rest hread hrest hw := by
    obtain ⟨hok, herror⟩ := evaluate_of_mem_expression (s := w.machine.store) hread hrest hw
    exact leads_expression hok herror

theorem reads_subscript : Reads (subscript : Action I O Float)
    (Form.expression * Form.mark .rightBracket) Anything where
  sound w := by
    refine leads_subscript ?_ (fun _ _ _ => trivial) fun _ _ => trivial
    intro x close rest hx hr hclose
    obtain ⟨read, e, hread, he, -⟩ := exists_derives_of_evaluate hx
    refine ⟨read ++ [close], Language.mem_mul.mpr ⟨read, ⟨e, he⟩, _, ⟨close, hclose, rfl⟩, rfl⟩, ?_⟩
    rw [hread, hr]
    simp
  complete w all rest hall _ hw := by
    obtain ⟨read, hread, _, ⟨close, hclose, rfl⟩, rfl⟩ := Language.mem_mul.mp hall
    have hw : w.cursor.rest = read ++ close :: rest := by simpa using hw
    have hends : Ends (close :: rest) := by simp [Ends, hclose]
    obtain ⟨hok, herror⟩ := evaluate_of_mem_expression (s := w.machine.store) hread hends hw
    refine leads_subscript (fun x close' rest' hx hr _ => ?_) (fun x hx hopen => ?_) herror
    · rw [hok x hx] at hr
      cases hr
      rfl
    · rw [hok x hx] at hopen
      exact absurd hclose (hopen close rfl)

theorem reads_index? : Reads (index? : Action I O (Option Float)) (1 + Form.index)
    (NoneOf (.punctuation .leftBracket)) where
  sound w := by
    refine leads_bind.mpr (leads_skip ?_ fun _ => ⟨[], .inl rfl, rfl⟩)
    intro bracket rest hr hbracket
    refine leads_bind.mpr ((reads_subscript.sound (w.ahead rest)).mono ?_ fun _ _ h => h)
    intro x w' ⟨read, hread, hw'⟩
    refine ⟨bracket :: read, .inr ?_, by rw [hr, ← Work.ahead_rest w rest, hw']; rfl⟩
    rw [Form.index, mul_assoc]
    exact Form.mem_token_mul.mpr ⟨bracket, read, hbracket, hread, rfl⟩
  complete w all rest hall hrest hw := by
    rcases hall with hnil | hindex
    · obtain rfl := (Language.mem_one _).mp hnil
      refine leads_bind.mpr (leads_skip (fun t rest' hr ht => ?_) fun _ => hw)
      have hhead : t ∈ rest.head? := by
        rw [List.nil_append, hr] at hw
        simp [← hw]
      exact absurd ht (hrest t hhead)
    · rw [Form.index, mul_assoc] at hindex
      obtain ⟨bracket, read, hbracket, hread, rfl⟩ := Form.mem_token_mul.mp hindex
      refine leads_bind.mpr (leads_skip (fun t rest' hr _ => ?_) fun h => ?_)
      · rw [hw] at hr
        cases hr
        refine leads_bind.mpr ?_
        exact reads_subscript.complete (w.ahead (read ++ rest)) read rest hread trivial rfl
      · exact absurd hbracket (h bracket (by simp [hw]))

/-! ### Lists -/

section Lists

variable {item : Action I O Unit} {L : Language Token} {F : List Token → Prop}

/-- What the loop over a list reads.  Every item takes a token, so the fuel is not spent. -/
theorem sound_separated (hitem : Reads item L F) (hL : ∀ read ∈ L, read ≠ []) (fuel : Nat) :
    ∀ w : Work I O, w.cursor.rest.length < fuel → Leads (separated item fuel) w
      (fun _ w' => ∃ read ∈ Form.list L, w.cursor.rest = read ++ w'.cursor.rest)
      (fun _ _ => True) := by
  induction fuel with
  | zero => exact fun w hw => absurd hw (Nat.not_lt_zero _)
  | succ fuel ih =>
    intro w hfuel
    refine (hitem.sound w).bind (fun _ w' ⟨read, hread, hw⟩ => ?_) fun _ _ h => h
    have hlen : w'.cursor.rest.length < fuel := by
      have hpos := List.length_pos_of_ne_nil (hL read hread)
      rw [hw, List.length_append] at hfuel
      omega
    refine leads_bind.mpr (leads_skip (fun t rest hr ht => ?_) fun _ => ?_)
    · have hrest : rest.length < fuel := by
        rw [hr, List.length_cons] at hlen
        omega
      refine (ih (w'.ahead rest) hrest).mono (fun _ w'' ⟨read', hread', hw''⟩ => ?_) fun _ _ h => h
      refine ⟨read ++ t :: read', ?_, by rw [hw, hr, ← Work.ahead_rest w' rest, hw'']; simp⟩
      rw [Form.list_eq]
      refine Language.mem_mul.mpr ⟨read, hread, _, .inr ?_, rfl⟩
      exact Form.mem_token_mul.mpr ⟨t, read', ht, hread', rfl⟩
    · refine ⟨read, ?_, hw⟩
      rw [Form.list_eq]
      exact Language.mem_mul.mpr ⟨read, hread, [], .inl rfl, List.append_nil _⟩

/-- Which lists the loop reads. -/
theorem complete_separated (hitem : Reads item L F) (hL : ∀ read ∈ L, read ≠ [])
    (hF : ∀ t rest, t.kind = .punctuation .comma → F (t :: rest)) {rest : List Token} (hrest : F rest)
    (hnext : NoneOf (.punctuation .comma) rest) (fuel : Nat) :
    ∀ (w : Work I O) (all : List Token), w.cursor.rest.length < fuel → all ∈ Form.list L →
      w.cursor.rest = all ++ rest → Leads (separated item fuel) w
        (fun _ w' => w'.cursor.rest = rest) (fun d _ => d.cause.kind = .semantic) := by
  induction fuel with
  | zero => exact fun w _ hw => absurd hw (Nat.not_lt_zero _)
  | succ fuel ih =>
    intro w all hfuel hall hw
    rw [Form.list_eq] at hall
    obtain ⟨read, hread, tail, htail, rfl⟩ := Language.mem_mul.mp hall
    have hw : w.cursor.rest = read ++ (tail ++ rest) := by simpa using hw
    have hlen : (tail ++ rest).length < fuel := by
      have hpos := List.length_pos_of_ne_nil (hL read hread)
      rw [hw, List.length_append] at hfuel
      omega
    rcases htail with hnil | hmore
    · -- the last item
      obtain rfl := (Language.mem_one _).mp hnil
      refine (hitem.complete w read rest hread hrest hw).bind (fun _ w' hw' => ?_) fun _ _ h => h
      refine leads_bind.mpr (leads_skip (fun t rest' hr ht => ?_) fun _ => hw')
      rw [hw'] at hr
      exact absurd ht (hnext t (by simp [hr]))
    · obtain ⟨t, more, ht, hlist, rfl⟩ := Form.mem_token_mul.mp hmore
      refine (hitem.complete w read _ hread (hF t (more ++ rest) ht) hw).bind ?_ fun _ _ h => h
      intro _ w' hw'
      refine leads_bind.mpr (leads_skip (fun t' rest' hr _ => ?_) fun h => ?_)
      · rw [hw'] at hr
        cases hr
        rw [List.cons_append, List.length_cons] at hlen
        exact ih (w'.ahead (more ++ rest)) more (by rw [Work.ahead_rest]; omega) hlist rfl
      · exact absurd ht (h t (by simp [hw']))

theorem reads_list (hitem : Reads item L F) (hL : ∀ read ∈ L, read ≠ [])
    (hF : ∀ t rest, t.kind = .punctuation .comma → F (t :: rest)) :
    Reads (do separated item ((← get).cursor.rest.length + 1)) (Form.list L)
      (fun rest => F rest ∧ NoneOf (.punctuation .comma) rest) where
  sound w := leads_bind.mpr (leads_get.mpr (sound_separated hitem hL _ w (Nat.lt_succ_self _)))
  complete w all rest hall hrest hw := by
    refine leads_bind.mpr (leads_get.mpr ?_)
    exact complete_separated hitem hL hF hrest.1 hrest.2 _ w all (Nat.lt_succ_self _) hall hw

end Lists

/-! ### Statements -/

theorem completes_assignment : Completes (assignment : Action I O Flow) StatementKind.assignment.form := by
  simp only [StatementKind.form, Form.target, mul_assoc]
  refine (reads_identifier _).andThen (fun name => ?_) fun _ _ => trivial
  refine reads_index?.andThen (fun index => ?_) fun rest hrest t ht => ?_
  · refine quiet_here.andThen fun here => ?_
    refine (reads_punctuation .equal _).andThen (fun _ => ?_) fun _ _ => trivial
    refine reads_expression.andThen (fun value => ?_) fun rest hrest t ht => ?_
    · refine (completes_finish _).thenQuiet fun _ => ?_
      exact (silent_store name index value).quiet.bind fun _ => quiet_pure _
    · simp [Form.kind_of_mem_token hrest ht]
  · simp [Form.kind_of_mem_token_mul hrest ht]

theorem completes_goto : Completes (goto : Action I O Flow) (Form.identifier * Form.mark .semicolon) := by
  refine (reads_identifier _).andThen (fun label => ?_) fun _ _ => trivial
  refine (completes_finish _).thenQuiet fun _ => ?_
  exact (silent_target label).quiet.bind fun _ => quiet_pure _

theorem reads_arrayName : Reads (arrayName : Action I O Token) Form.identifier Anything := by
  refine quiet_peek?.bindReads fun next => ?_
  split <;> exact reads_identifier _

theorem completes_dim :
    Completes (dim : Action I O Flow) (Form.identifier * (Form.index * Form.mark .semicolon)) := by
  simp only [Form.index, mul_assoc]
  refine reads_arrayName.andThen (fun name => ?_) fun _ _ => trivial
  refine (reads_punctuation .leftBracket _).andThen (fun _ => ?_) fun _ _ => trivial
  refine reads_expression.andThen (fun size => ?_) fun rest hrest t ht => ?_
  · refine (reads_punctuation .rightBracket _).andThen (fun _ => ?_) fun _ _ => trivial
    refine quiet_here.andThen fun here => ?_
    refine (completes_finish _).thenQuiet fun _ => ?_
    refine (silent_declare name size).quiet.bind fun n => ?_
    exact (quiet_note _).bind fun _ => quiet_pure _
  · simp [Form.kind_of_mem_token_mul hrest ht]

/-- The parts of a condition behind its look-ahead. -/
theorem completes_branch : Completes
    (do
      let condition ← expression
      let _ ← parse (Parse.keyword .goto .missingGoto)
      let label ← parse (Parse.identifier .missingLabel)
      finish .if
      if condition != 0 then return .jump (← target label) else return .next : Action I O Flow)
    (Form.expression * (Form.keyword .goto * (Form.identifier * Form.mark .semicolon))) := by
  refine reads_expression.andThen (fun condition => ?_) fun rest hrest t ht => ?_
  · refine (reads_keyword .goto _).andThen (fun _ => ?_) fun _ _ => trivial
    refine (reads_identifier _).andThen (fun label => ?_) fun _ _ => trivial
    refine (completes_finish _).thenQuiet fun _ => ?_
    split
    · exact (silent_target label).quiet.bind fun _ => quiet_pure _
    · exact quiet_pure _
  · simp [Form.kind_of_mem_token_mul hrest ht]

/-- An expression in parentheses in front of `goto` passes the look-ahead. -/
theorem leads_checkCondition_of {w : Work I O} {Q : Unit → Work I O → Prop}
    {E : Diagnostic → Work I O → Prop} {b close goto : Token} {is rest : List Token} {i : Tree}
    (hb : b.kind = .punctuation .leftParen)
    (hi : Derives .comparison is i) (hclose : close.kind = .punctuation .rightParen)
    (hgoto : goto.kind = .keyword .goto) (hw : w.cursor.rest = b :: (is ++ close :: goto :: rest))
    (hQ : Q () w) : Leads checkCondition w Q E := by
  have hp : Paired .leftParen .rightParen := .inl ⟨rfl, rfl⟩
  have hafter : afterClosing? .leftParen .rightParen 0 w.cursor.rest = some (goto :: rest) := by
    rw [hw, afterClosing?_open hb, hi.afterClosing?_append hp, afterClosing?_last hp hclose]
  have hat : w.cursor.isAt .leftParen = true := by
    simp [Cursor.isAt, Cursor.peek?, hw, Token.isPunctuation, hb]
  refine leads_checkCondition (fun _ _ => hQ) (fun h => ?_) fun t rest' _ h ht => ?_
  · rw [hat] at h
    cases h
  · rw [hafter] at h
    cases h
    exact absurd hgoto ht

/-- The look-ahead of a condition leaves just those that stand in a pair of parentheses. -/
theorem completes_conditional : Completes (conditional : Action I O Flow)
    (Form.mark .leftParen * (Form.expression * (Form.mark .rightParen *
      (Form.keyword .goto * (Form.identifier * Form.mark .semicolon))))) where
  sound w := by
    refine leads_bind.mpr (leads_checkCondition ?_ (fun _ => trivial) fun _ _ _ _ _ => trivial)
    intro hat hscan
    refine (completes_branch.sound w).mono (fun _ _ hw => ?_) fun _ _ _ => trivial
    obtain ⟨read, ⟨e, he⟩, tail, htail, hw⟩ := Language.mem_mul.mp hw
    rw [← hw] at hscan ⊢
    obtain ⟨b, ts, rfl⟩ := List.exists_cons_of_ne_nil he.ne_nil
    have hb : b.kind = .punctuation .leftParen := by
      simpa [Cursor.isAt, Cursor.peek?, ← hw, Token.isPunctuation] using hat
    obtain ⟨is, close, more, hread, his, hclose, hafter⟩ := he.exists_closing rfl hb
    -- what the scan finds behind the pair is `goto`, which no expression contains
    have hmore : more = [] := by
      cases more with
      | nil => rfl
      | cons t more =>
        have hgoto := hscan t (more ++ tail) (hafter tail)
        have helement := he.isElement t (by rw [hread]; simp)
        rw [hgoto] at helement
        cases helement
    rw [hread, hmore]
    refine Form.mem_token_mul.mpr ⟨b, is ++ close :: tail, hb, ?_, by simp⟩
    exact Language.mem_mul.mpr ⟨is, his, close :: tail,
      Form.mem_token_mul.mpr ⟨close, tail, hclose, htail, rfl⟩, rfl⟩
  complete w hw := by
    obtain ⟨b, _, hb, hrest, hw⟩ := Form.mem_token_mul.mp hw
    obtain ⟨is, ⟨i, hi⟩, _, hclosing, rfl⟩ := Language.mem_mul.mp hrest
    obtain ⟨close, tail, hclose, htail, rfl⟩ := Form.mem_token_mul.mp hclosing
    obtain ⟨goto, rest, hgoto, -, rfl⟩ := Form.mem_token_mul.mp htail
    refine leads_bind.mpr (leads_checkCondition_of hb hi hclose hgoto hw ?_)
    refine completes_branch.complete w (Language.mem_mul.mpr ⟨b :: (is ++ [close]), ?_, _, htail, ?_⟩)
    · exact ⟨i, (Derives.paren hb hi hclose).mono (by decide)⟩
    · simp [hw]

/-- Every expression starts with something that `print` takes for the start of one. -/
theorem startsExpression_of_derives {k : Stratum} {read : List Token} {e : Tree}
    (h : Derives k read e) : ∀ t ∈ read.head?, startsExpression t = true ∧ t.isString = false := by
  induction h with
  | number ht | scalar ht | element ht | paren ht | sign ht =>
    simp [startsExpression, Token.isString, ht]
  | binary hl ht hop hr ihl ihr =>
    intro t hmem
    obtain ⟨t', ls, rfl⟩ := List.exists_cons_of_ne_nil hl.ne_nil
    exact ihl t hmem
  | lift _ ih => exact ih

theorem reads_printItem [Writer O] : Reads (printItem : Action I O Unit) Form.item Ends where
  sound w := by
    refine leads_bind.mpr (leads_peek?.mpr ?_)
    split
    · rename_i t ht
      split
      · rename_i hstring
        refine leads_bind.mpr (leads_advance.mpr ?_)
        refine (quiet_write t.lexeme _).mono (fun _ w' hw' => ?_) fun _ _ _ => trivial
        refine ⟨[t], .inl ⟨t, by simpa [Token.isString] using hstring, rfl⟩, ?_⟩
        rw [hw', Work.ahead_rest]
        exact (List.cons_head?_tail ht).symm
      · split
        · refine leads_bind.mpr ((reads_expression.sound w).mono ?_ fun _ _ h => h)
          rintro x w' ⟨read, hread, hw⟩
          refine (quiet_write _ w').mono (fun _ w'' hw' => ?_) fun _ _ _ => trivial
          exact ⟨read, .inr hread, hw' ▸ hw⟩
        · exact trivial
    · exact trivial
  complete w read rest hread hrest hw := by
    refine leads_bind.mpr (leads_peek?.mpr ?_)
    rcases hread with ⟨t, ht, rfl⟩ | hread
    · have hpeek : w.cursor.peek? = some t := by simp [Cursor.peek?, hw]
      have hstring : t.isString = true := by simp [Token.isString, ht]
      simp only [hpeek, hstring, if_true]
      refine leads_bind.mpr (leads_advance.mpr ?_)
      refine (quiet_write t.lexeme _).mono (fun _ w' hw' => ?_) fun _ _ h => h
      rw [hw', Work.ahead_rest, hw]
      rfl
    · obtain ⟨e, he⟩ := hread
      obtain ⟨t, ts, rfl⟩ := List.exists_cons_of_ne_nil he.ne_nil
      have hpeek : w.cursor.peek? = some t := by simp [Cursor.peek?, hw]
      obtain ⟨hstarts, hstring⟩ := startsExpression_of_derives he t rfl
      simp only [hpeek, hstring, hstarts, Bool.false_eq_true, if_false, if_true]
      refine leads_bind.mpr ?_
      refine (reads_expression.complete w _ rest ⟨e, he⟩ hrest hw).mono (fun x w' hw' => ?_) ?_
      · exact (quiet_write _ w').mono (fun _ w'' hw'' => hw'' ▸ hw') fun _ _ h => h
      · exact fun _ _ h => h

theorem item_ne_nil : ∀ read ∈ Form.item, read ≠ [] := by
  rintro read (⟨t, -, rfl⟩ | ⟨e, he⟩)
  · simp
  · exact he.ne_nil

theorem target_ne_nil : ∀ read ∈ Form.target, read ≠ [] := by
  intro read hread
  obtain ⟨t, rest, -, -, rfl⟩ := Form.mem_token_mul.mp hread
  simp

theorem completes_print [Writer O] :
    Completes (print : Action I O Flow) (Form.list Form.item * Form.mark .semicolon) := by
  have hitems : Reads (do printItems ((← get).cursor.rest.length + 1) : Action I O Unit)
      (Form.list Form.item)
      (fun rest => Ends rest ∧ NoneOf (.punctuation .comma) rest) := by
    simp only [printItems_eq]
    exact reads_list reads_printItem item_ne_nil fun t rest ht => by simp [Ends, ht]
  have h : Completes ((do printItems ((← get).cursor.rest.length + 1)) >>= fun _ => do
      write "\n"; finish .print; return .next : Action I O Flow)
      (Form.list Form.item * Form.mark .semicolon) := by
    refine hitems.andThen (fun _ => ?_) fun rest hrest => ⟨fun t ht => ?_, fun t ht => ?_⟩
    · refine (quiet_write _).andThen fun _ => ?_
      exact (completes_finish _).thenQuiet fun _ => quiet_pure _
    · simp [Form.kind_of_mem_token hrest ht]
    · simp [Form.kind_of_mem_token hrest ht]
  simpa only [print, bind_assoc] using h

theorem reads_readTarget [Reader I] [Writer O] :
    Reads (readTarget : Action I O Unit) Form.target (NoneOf (.punctuation .leftBracket)) := by
  refine (reads_identifier _).bind (fun name => ?_) fun _ _ _ _ => trivial
  refine (silent_readNumber name).quiet.bindReads fun value => ?_
  refine reads_index?.thenQuiet fun index => ?_
  exact quiet_here.bind fun here => (silent_store name index value).quiet

theorem reads_prompt [Writer O] :
    Reads (prompt : Action I O Unit) (1 + Form.string * Form.mark .comma) (NoneOf .string) where
  sound w := by
    refine leads_bind.mpr (leads_peek?.mpr ?_)
    split
    · rename_i t ht
      split
      · rename_i hstring
        have hrest : w.cursor.rest = t :: w.cursor.rest.tail := (List.cons_head?_tail ht).symm
        refine leads_bind.mpr (leads_advance.mpr ?_)
        refine leads_bind.mpr ((quiet_write t.lexeme _).mono ?_ fun _ _ _ => trivial)
        intro _ w' hw'
        refine leads_bind.mpr (((reads_punctuation .comma _).sound w').mono ?_ fun _ _ h => h)
        intro comma w'' ⟨read, hread, hw''⟩
        refine ⟨t :: read, .inr ?_, ?_⟩
        · exact Form.mem_token_mul.mpr
            ⟨t, read, by simpa [Token.isString] using hstring, hread, rfl⟩
        · rw [hw', Work.ahead_rest] at hw''
          rw [hrest, hw'']
          rfl
      · exact ⟨[], .inl rfl, rfl⟩
    · exact ⟨[], .inl rfl, rfl⟩
  complete w read rest hread hrest hw := by
    refine leads_bind.mpr (leads_peek?.mpr ?_)
    rcases hread with hnil | hread
    · obtain rfl := (Language.mem_one _).mp hnil
      split
      · rename_i t ht
        have hstring : t.isString = false := by
          have hne := hrest t (by rwa [Cursor.peek?, hw] at ht)
          simpa [Token.isString] using hne
        rw [hstring]
        exact hw
      · exact hw
    · obtain ⟨t, _, ht, ⟨comma, hcomma, rfl⟩, rfl⟩ := Form.mem_token_mul.mp hread
      have hpeek : w.cursor.peek? = some t := by simp [Cursor.peek?, hw]
      have hstring : t.isString = true := by simp [Token.isString, ht]
      simp only [hpeek, hstring, if_true]
      refine leads_bind.mpr (leads_advance.mpr ?_)
      refine leads_bind.mpr ((quiet_write t.lexeme _).mono (fun _ w' hw' => ?_) fun _ _ h => h)
      have hnext : w'.cursor.rest = [comma] ++ rest := by rw [hw', Work.ahead_rest, hw]; rfl
      refine leads_bind.mpr ?_
      exact (reads_punctuation .comma _).complete w' _ rest ⟨comma, hcomma, rfl⟩ trivial hnext

theorem completes_read [Reader I] [Writer O] : Completes (read : Action I O Flow)
    ((1 + Form.string * Form.mark .comma) * (Form.list Form.target * Form.mark .semicolon)) := by
  have htargets : Reads (do readTargets ((← get).cursor.rest.length + 1) : Action I O Unit)
      (Form.list Form.target)
      (fun rest => NoneOf (.punctuation .leftBracket) rest ∧ NoneOf (.punctuation .comma) rest) := by
    simp only [readTargets_eq]
    exact reads_list reads_readTarget target_ne_nil fun t rest ht => by simp [NoneOf, ht]
  have h : Completes (prompt >>= fun _ => (do readTargets ((← get).cursor.rest.length + 1)) >>=
      fun _ => do finish .read; return .next : Action I O Flow)
      ((1 + Form.string * Form.mark .comma) * (Form.list Form.target * Form.mark .semicolon)) := by
    refine reads_prompt.andThen (fun _ => ?_) fun rest hrest t ht => ?_
    · refine htargets.andThen (fun _ => ?_) fun rest hrest => ⟨fun t ht => ?_, fun t ht => ?_⟩
      · exact (completes_finish _).thenQuiet fun _ => quiet_pure _
      · simp [Form.kind_of_mem_token hrest ht]
      · simp [Form.kind_of_mem_token hrest ht]
    · simp only [Form.list, Form.target, mul_assoc] at hrest
      simp [Form.kind_of_mem_token_mul hrest ht]
  simpa only [read, bind_assoc] using h

/-! ### Whole statements -/

theorem Completes.leads {a : Action I O Flow} {L : Language Token} (h : Completes a L) (w : Work I O) :
    Leads a w (fun _ _ => w.cursor.rest ∈ L)
      (fun d _ => w.cursor.rest ∈ L → d.cause.kind = .semantic) := by
  have hsound := h.sound w
  have hcomplete := h.complete w
  unfold Leads at *
  split
  · rename_i heq
    rwa [heq] at hsound
  · rename_i heq
    rwa [heq] at hcomplete

/-- The first word of a statement is taken, and the form of what follows decides. -/
theorem Completes.behind {a : Action I O Flow} {L : Language Token} (h : Completes a L)
    {word : Keyword} {t : Token} {rest : List Token} (ht : t.kind = .keyword word) {w : Work I O}
    (hw : w.cursor.rest = t :: rest) :
    Leads (heading word >>= fun _ => a) w
      (fun _ _ => w.cursor.rest ∈ Form.keyword word * L)
      (fun d _ => w.cursor.rest ∈ Form.keyword word * L → d.cause.kind = .semantic) := by
  have hmem : w.cursor.rest ∈ Form.keyword word * L ↔ rest ∈ L := by
    rw [hw, Form.keyword, Form.mem_token_mul]
    constructor
    · rintro ⟨t', rest', -, hrest', heq⟩
      cases heq
      exact hrest'
    · exact fun h => ⟨t, rest, ht, h, rfl⟩
  rw [hmem]
  exact leads_bind.mpr ((leads_heading hw ht).mpr (h.leads (w.ahead rest)))

theorem completes_stop (kind : StatementKind) (flow : Flow) :
    Completes (do finish kind; return flow : Action I O Flow) (Form.mark .semicolon) :=
  (completes_finish kind).thenQuiet fun _ => quiet_pure _

/-- A statement that is executed is a sentence of its kind, and a sentence has none but semantic
faults. -/
theorem leads_statement [Reader I] [Writer O] {text : String} {w : Work I O} {kind : StatementKind}
    (hk : classify text w.cursor.rest = .ok kind) :
    Leads (statement kind) w (fun _ _ => w.cursor.rest ∈ kind.form)
      (fun d _ => w.cursor.rest ∈ kind.form → d.cause.kind = .semantic) := by
  rcases classify_eq_ok hk with ⟨t, word, rest, hw, ht, rfl⟩ | rfl
  · cases word <;> simp only [StatementKind.ofKeyword, StatementKind.form, mul_assoc]
    case dim => exact completes_dim.behind ht hw
    case read => exact completes_read.behind ht hw
    case goto => exact completes_goto.behind ht hw
    case «if» => exact completes_conditional.behind ht hw
    case print => exact completes_print.behind ht hw
    case stop => exact (completes_stop .stop .stop).behind ht hw
    case «end» => exact (completes_stop .end .terminate).behind ht hw
  · exact completes_assignment.leads w

end Action

end Primer
