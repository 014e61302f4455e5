import Primer.Proofs.Expression.Places
import Primer.Proofs.Machine.Logic

/-!
# What statements leave alone

A statement under execution changes the machine step by step and moves on among its tokens.  Which changes
count is left open: `R` is any relation between machines that the single changes are in, one after the
other.  A fault lies where the tokens lie, for every property `G` of spans that unions keep.

* `Keeps G R a P`: the action `a` stays within the relation, its faults have the property, and its result
  satisfies `P`.
* `keeps_statement`: so it is for the statements of every kind.
-/

namespace Primer

variable {I O : Type}

/-- The same statement on a machine in the relation `R`, perhaps with more of it read. -/
structure Work.Later (R : Machine I O → Machine I O → Prop) (w w' : Work I O) : Prop where
  machine : R w.machine w'.machine
  tokens : w'.cursor.tokens = w.cursor.tokens
  length : w'.cursor.length = w.cursor.length
  rest : w'.cursor.rest <:+ w.cursor.rest

section Later

variable {R : Machine I O → Machine I O → Prop} {w w' w'' : Work I O}

theorem Work.Later.trans (hR : Machine.Frame R) (h : w.Later R w') (h' : w'.Later R w'') :
    w.Later R w'' :=
  ⟨hR.trans h.machine h'.machine, h'.tokens.trans h.tokens, h'.length.trans h.length,
    h'.rest.trans h.rest⟩

theorem Work.later_of_cursor (hm : R w.machine w'.machine) (hc : w'.cursor = w.cursor) :
    w.Later R w' := by
  obtain ⟨cursor, m⟩ := w'
  cases hc
  exact ⟨hm, rfl, rfl, List.suffix_refl _⟩

theorem Work.Later.refl (hR : Machine.Frame R) (w : Work I O) : w.Later R w :=
  later_of_cursor (hR.refl _) rfl

theorem Work.later_ahead (hR : Machine.Frame R) {rest : List Token} (h : rest <:+ w.cursor.rest) :
    w.Later R (w.ahead rest) := ⟨hR.refl _, rfl, rfl, h⟩

end Later

/-- The tokens of the statement lie at places with the property `G`, and so do its text's first and
last points.  Names are identifiers. -/
structure Work.Placed (G : Span → Prop) (w : Work I O) : Prop where
  tokens : ∀ t ∈ w.cursor.tokens, G t.span
  names : ∀ t ∈ w.cursor.tokens, t.kind = .identifier → Word.isIdentifier t.lexeme.toList = true
  first : G (.single 0)
  last : G (.single w.cursor.length)
  rest : w.cursor.rest <:+ w.cursor.tokens

namespace Work.Placed

variable {G : Span → Prop} {R : Machine I O → Machine I O → Prop} {w w' : Work I O}

theorem later (h : w.Placed G) (hw : w.Later R w') : w'.Placed G :=
  ⟨hw.tokens ▸ h.tokens, hw.tokens ▸ h.names, h.first, hw.length ▸ h.last,
    hw.tokens ▸ hw.rest.trans h.rest⟩

theorem mem_rest (h : w.Placed G) : ∀ t ∈ w.cursor.rest, G t.span :=
  fun t ht => h.tokens t (h.rest.subset ht)

theorem cursor (h : w.Placed G) : w.cursor.Placed G := ⟨h.mem_rest, h.last⟩

theorem here (h : w.Placed G) : G w.cursor.here := Cursor.spanAt_placed h.mem_rest h.last

theorem ending (h : w.Placed G) : G w.cursor.ending := by
  unfold Cursor.ending
  split
  · rename_i t ht
    exact h.mem_rest t (List.mem_of_head? ht)
  · split
    · rename_i t ht
      exact h.tokens t (List.mem_of_getLast? ht)
    · exact h.last

end Work.Placed

theorem suffix_of_afterClosing? {opening closing : Punctuation} {depth : Nat}
    {tokens rest : List Token} (h : afterClosing? opening closing depth tokens = some rest) :
    rest <:+ tokens := by
  induction tokens generalizing depth with
  | nil => cases h
  | cons t tokens ih =>
    have hcons : tokens <:+ t :: tokens := List.suffix_cons t tokens
    rw [afterClosing?] at h
    split at h
    · exact (ih h).trans hcons
    · split at h
      · split at h
        · cases h
          exact hcons
        · exact (ih h).trans hcons
      · exact (ih h).trans hcons

/-- The work behind an evaluation with a value. -/
theorem Work.later_evaluated {R : Machine I O → Machine I O → Prop} (hR : Machine.Frame R) {w : Work I O}
    {x : Float}
    (h : (evaluate w.machine.store w.cursor).value = .ok x) :
    w.Later R (w.evaluated (evaluate w.machine.store w.cursor)) := by
  obtain ⟨read, e, hread, -⟩ := exists_derives_of_evaluate h
  exact ⟨hR.noteAll _ _, rfl, rfl, ⟨read, hread.symm⟩⟩

namespace Action

/-- The action stays within the relation `R`, its result satisfies `P`, and its faults lie at places with
the property `G`. -/
def Keeps {α : Type} (G : Span → Prop) (R : Machine I O → Machine I O → Prop) (a : Action I O α)
    (P : α → Prop) : Prop :=
  ∀ w, w.Placed G → Leads a w (fun x w' => w.Later R w' ∧ P x)
    (fun d w' => R w.machine w'.machine ∧ d.Placed G)

section Rules

variable {α β : Type} {G : Span → Prop} {R : Machine I O → Machine I O → Prop} {a : Action I O α}
  {f : α → Action I O β} {P : α → Prop} {Q : β → Prop}

theorem keeps_pure (hR : Machine.Frame R) {x : α} (hx : P x) : Keeps G R (pure x) P :=
  fun w _ => leads_pure.mpr ⟨.refl hR w, hx⟩

theorem Keeps.bind (hR : Machine.Frame R) (ha : Keeps G R a P) (hf : ∀ x, P x → Keeps G R (f x) Q) :
    Keeps G R (a >>= f) Q := by
  intro w hw
  refine (ha w hw).bind (fun x w' ⟨hlater, hx⟩ => ?_) fun d w' hd => hd
  refine (hf x hx w' (hw.later hlater)).mono (fun y w'' ⟨hlater', hy⟩ => ?_) fun d w'' hd => ?_
  · exact ⟨hlater.trans hR hlater', hy⟩
  · exact ⟨hR.trans hlater.machine hd.1, hd.2⟩

theorem keeps_fail (hR : Machine.Frame R) {cause : Cause} {span : Span} (hs : G span) :
    Keeps G R (fail cause span : Action I O α) P :=
  fun _ _ => leads_fail.mpr ⟨hR.refl _, hs, rfl⟩

theorem keeps_ite {c : Prop} [Decidable c] {a' : Action I O α} (ha : c → Keeps G R a P)
    (ha' : ¬c → Keeps G R a' P) : Keeps G R (if c then a else a') P := by
  split
  · exact ha ‹_›
  · exact ha' ‹_›

/-- An effect within the relation that blames `span` at most. -/
theorem Silent.keeps {span : Span} (h : Silent span a) (hin : Within R a) (hs : G span) :
    Keeps G R a (fun _ => True) := by
  intro w hw
  have hboth := (h w).and (hin w)
  refine hboth.mono (fun x w' ⟨hc, hm⟩ => ⟨Work.later_of_cursor hm hc, trivial⟩) ?_
  rintro d w' ⟨⟨hspan | hspan, hd, -⟩, hm⟩
  · exact ⟨hm, hspan ▸ hw.first, hd⟩
  · exact ⟨hm, hspan ▸ hs, hd⟩

end Rules

section Tokens

variable {G : Span → Prop} {R : Machine I O → Machine I O → Prop}

theorem keeps_here (hR : Machine.Frame R) : Keeps G R here G :=
  fun w hw => leads_here.mpr ⟨.refl hR w, hw.here⟩

theorem keeps_peek? (hR : Machine.Frame R) : Keeps G R peek? (fun o => ∀ t ∈ o, G t.span) := by
  intro w hw
  exact leads_peek?.mpr ⟨.refl hR w, fun t ht => hw.mem_rest t (List.mem_of_head? ht)⟩

theorem keeps_advance (hR : Machine.Frame R) : Keeps G R (parse Parse.advance) (fun _ => True) :=
  fun _ _ => leads_advance.mpr ⟨Work.later_ahead hR (List.tail_suffix _), trivial⟩

theorem keeps_skip (hR : Machine.Frame R) (mark : Punctuation) :
    Keeps G R (parse (Parse.skip mark)) (fun _ => True) := by
  intro w hw
  refine leads_skip ?_ fun _ => ⟨.refl hR w, trivial⟩
  intro t rest hr _
  exact ⟨Work.later_ahead hR (hr ▸ List.suffix_cons t rest), trivial⟩

theorem keeps_expect (hR : Machine.Frame R) (p : Token → Bool) (cause : Cause) :
    Keeps G R (parse (Parse.expect p cause)) (fun t => G t.span) := by
  intro w hw
  refine leads_expect ?_ fun _ => ⟨hR.refl _, hw.here, rfl⟩
  intro t rest hr _
  exact ⟨Work.later_ahead hR (hr ▸ List.suffix_cons t rest),
    hw.mem_rest t (hr ▸ List.mem_cons_self)⟩

theorem keeps_identifier (hR : Machine.Frame R) (cause : Cause) :
    Keeps G R (parse (Parse.identifier cause))
      (fun t => G t.span ∧ Word.isIdentifier t.lexeme.toList = true) := by
  intro w hw
  refine leads_expect ?_ fun _ => ⟨hR.refl _, hw.here, rfl⟩
  intro t rest hr hp
  have hmem : t ∈ w.cursor.rest := hr ▸ List.mem_cons_self
  have hkind : t.kind = .identifier := by simpa [Token.isIdentifier] using hp
  exact ⟨Work.later_ahead hR (hr ▸ List.suffix_cons t rest), hw.mem_rest t hmem,
    hw.names t (hw.rest.subset hmem) hkind⟩

theorem keeps_finish (hR : Machine.Frame R) (kind : StatementKind) :
    Keeps G R (finish kind) (fun _ => True) := by
  intro w hw
  refine leads_finish ?_ ?_ fun _ => ⟨hR.refl _, hw.ending, rfl⟩
  · intro t hr _
    exact ⟨Work.later_ahead hR (List.nil_suffix), trivial⟩
  · intro t t' rest hr _
    exact ⟨hR.refl _, hw.mem_rest t' (by simp [hr]), rfl⟩

end Tokens

section Values

variable {G : Span → Prop} {R : Machine I O → Machine I O → Prop}

theorem keeps_expression (hG : Span.Joins G) (hR : Machine.Frame R) :
    Keeps G R expression (fun _ => True) := by
  intro w hw
  refine leads_expression (fun x hx => ⟨Work.later_evaluated hR hx, trivial⟩) fun d hd => ?_
  exact ⟨hR.noteAll _ _, placed_of_evaluate hG hw.cursor hd⟩

theorem keeps_subscript (hG : Span.Joins G) (hR : Machine.Frame R) :
    Keeps G R subscript (fun _ => True) := by
  intro w hw
  refine leads_subscript ?_ ?_ ?_
  · intro x close rest hx hr _
    have hlater := Work.later_evaluated hR hx
    have hahead : rest <:+ (w.evaluated (evaluate w.machine.store w.cursor)).cursor.rest := by
      rw [Work.evaluated_rest, hr]
      exact List.suffix_cons close rest
    exact ⟨hlater.trans hR (Work.later_ahead hR hahead), trivial⟩
  · intro x hx _
    exact ⟨hR.noteAll _ _, (hw.later (Work.later_evaluated hR hx)).here, rfl⟩
  · intro d hd
    exact ⟨hR.noteAll _ _, placed_of_evaluate hG hw.cursor hd⟩

theorem keeps_index? (hG : Span.Joins G) (hR : Machine.Frame R) : Keeps G R index? (fun _ => True) := by
  refine (keeps_skip hR .leftBracket).bind hR fun opened _ => ?_
  split
  · exact (keeps_subscript hG hR).bind hR fun _ _ => keeps_pure hR trivial
  · exact keeps_pure hR trivial

end Values

/-! ### Statements -/

section Statements

variable {G : Span → Prop} {R : Machine I O → Machine I O → Prop}

theorem keeps_assignment (hG : Span.Joins G) (hR : Machine.Frame R)
    (hstore : ∀ m s, m.store.Change s → R m { m with store := s }) :
    Keeps G R assignment (fun _ => True) := by
  refine (keeps_identifier hR _).bind hR fun name ⟨hspan, hname⟩ => ?_
  refine (keeps_index? hG hR).bind hR fun index _ => ?_
  refine (keeps_here hR).bind hR fun here hhere => ?_
  refine (keeps_expect hR _ _).bind hR fun _ _ => ?_
  refine (keeps_expression hG hR).bind hR fun value _ => ?_
  refine (keeps_finish hR _).bind hR fun _ _ => ?_
  have hwithin := within_store hR hstore hname index value (name.span.union here)
  refine ((silent_store name index value).keeps hwithin (hG _ _ hspan hhere)).bind hR fun _ _ => ?_
  exact keeps_pure hR trivial

theorem keeps_checkCondition (hR : Machine.Frame R) : Keeps G R checkCondition (fun _ => True) := by
  intro w hw
  refine leads_checkCondition (fun _ _ => ⟨.refl hR w, trivial⟩)
    (fun _ => ⟨hR.refl _, hw.here, rfl⟩) ?_
  intro t rest _ hscan _
  have ht : t ∈ w.cursor.rest := (suffix_of_afterClosing? hscan).subset List.mem_cons_self
  exact ⟨hR.refl _, hw.mem_rest t ht, rfl⟩

theorem keeps_target (hR : Machine.Frame R) {label : Token} (hlabel : G label.span) :
    Keeps G R (target label) (fun _ => True) :=
  (silent_target label).keeps (within_target hR label) hlabel

theorem keeps_conditional (hG : Span.Joins G) (hR : Machine.Frame R) :
    Keeps G R conditional (fun _ => True) := by
  refine (keeps_checkCondition hR).bind hR fun _ _ => ?_
  refine (keeps_expression hG hR).bind hR fun condition _ => ?_
  refine (keeps_expect hR _ _).bind hR fun _ _ => ?_
  refine (keeps_expect hR _ _).bind hR fun label hlabel => ?_
  refine (keeps_finish hR _).bind hR fun _ _ => ?_
  refine keeps_ite (fun _ => ?_) fun _ => keeps_pure hR trivial
  exact (keeps_target hR hlabel).bind hR fun _ _ => keeps_pure hR trivial

theorem keeps_goto (hR : Machine.Frame R) : Keeps G R goto (fun _ => True) := by
  refine (keeps_expect hR _ _).bind hR fun label hlabel => ?_
  refine (keeps_finish hR _).bind hR fun _ _ => ?_
  exact (keeps_target hR hlabel).bind hR fun _ _ => keeps_pure hR trivial

theorem keeps_arrayName (hR : Machine.Frame R) : Keeps G R arrayName
    (fun t => G t.span ∧ Word.isIdentifier t.lexeme.toList = true) := by
  refine (keeps_peek? hR).bind hR fun o _ => ?_
  split <;> exact keeps_identifier hR _

theorem keeps_dim (hG : Span.Joins G) (hR : Machine.Frame R)
    (hstore : ∀ m s, m.store.Change s → R m { m with store := s }) :
    Keeps G R dim (fun _ => True) := by
  refine (keeps_arrayName hR).bind hR fun name ⟨hspan, hname⟩ => ?_
  refine (keeps_expect hR _ _).bind hR fun _ _ => ?_
  refine (keeps_expression hG hR).bind hR fun size _ => ?_
  refine (keeps_expect hR _ _).bind hR fun _ _ => ?_
  refine (keeps_here hR).bind hR fun here hhere => ?_
  refine (keeps_finish hR _).bind hR fun _ _ => ?_
  have hwithin := within_declare hR hstore hname size (name.span.union here)
  refine ((silent_declare name size).keeps hwithin (hG _ _ hspan hhere)).bind hR fun n _ => ?_
  exact ((silent_note _).keeps (within_note hR (by simp)) hspan).bind hR fun _ _ => keeps_pure hR trivial

theorem keeps_separated (hR : Machine.Frame R) {item : Action I O Unit}
    (hitem : Keeps G R item (fun _ => True)) (fuel : Nat) :
    Keeps G R (separated item fuel) (fun _ => True) := by
  induction fuel with
  | zero => exact keeps_pure hR trivial
  | succ fuel ih =>
    refine hitem.bind hR fun _ _ => ?_
    refine (keeps_skip hR .comma).bind hR fun more _ => ?_
    exact keeps_ite (fun _ => ih) fun _ => keeps_pure hR trivial

theorem keeps_write [Writer O] (hsink : ∀ m sink, R m { m with sink }) (text : String) {span : Span}
    (hs : G span) : Keeps G R (write text) (fun _ => True) :=
  (silent_write text).keeps (within_write hsink text) hs

theorem keeps_printItem [Writer O] (hG : Span.Joins G) (hR : Machine.Frame R)
    (hsink : ∀ m sink, R m { m with sink }) : Keeps G R printItem (fun _ => True) := by
  refine (keeps_peek? hR).bind hR fun o ho => ?_
  split
  · rename_i t
    have ht : G t.span := ho t rfl
    refine keeps_ite (fun _ => ?_) fun _ => keeps_ite (fun _ => ?_) fun _ => ?_
    · exact (keeps_advance hR).bind hR fun _ _ => keeps_write hsink _ ht
    · exact (keeps_expression hG hR).bind hR fun _ _ => keeps_write hsink _ ht
    · exact (keeps_here hR).bind hR fun _ hhere => keeps_fail hR hhere
  · exact (keeps_here hR).bind hR fun _ hhere => keeps_fail hR hhere

theorem keeps_print [Writer O] (hG : Span.Joins G) (hR : Machine.Frame R)
    (hsink : ∀ m sink, R m { m with sink }) : Keeps G R print (fun _ => True) := by
  intro w hw
  refine leads_bind.mpr (leads_get.mpr ?_)
  rw [printItems_eq]
  refine Keeps.bind hR (keeps_separated hR (keeps_printItem hG hR hsink) _) (fun _ _ => ?_) w hw
  refine (keeps_write hsink _ hw.first).bind hR fun _ _ => ?_
  exact (keeps_finish hR _).bind hR fun _ _ => keeps_pure hR trivial

theorem keeps_readTarget [Reader I] [Writer O] (hG : Span.Joins G) (hR : Machine.Frame R)
    (hsink : ∀ m sink, R m { m with sink })
    (hentry : ∀ m, R m { m with input := (Input.entry m.input).2 })
    (hstore : ∀ m s, m.store.Change s → R m { m with store := s }) :
    Keeps G R readTarget (fun _ => True) := by
  refine (keeps_identifier hR _).bind hR fun name ⟨hspan, hname⟩ => ?_
  have hreading := within_readNumber hR hsink hentry name
  refine ((silent_readNumber name).keeps hreading hspan).bind hR fun value _ => ?_
  refine (keeps_index? hG hR).bind hR fun index _ => ?_
  refine (keeps_here hR).bind hR fun here hhere => ?_
  have hwithin := within_store hR hstore hname index value (name.span.union here)
  exact (silent_store name index value).keeps hwithin (hG _ _ hspan hhere)

theorem keeps_prompt [Writer O] (hR : Machine.Frame R) (hsink : ∀ m sink, R m { m with sink }) :
    Keeps G R prompt (fun _ => True) := by
  refine (keeps_peek? hR).bind hR fun o ho => ?_
  split
  · rename_i t
    have ht : G t.span := ho t rfl
    refine keeps_ite (fun _ => ?_) fun _ => keeps_pure hR trivial
    refine (keeps_advance hR).bind hR fun _ _ => (keeps_write hsink _ ht).bind hR fun _ _ => ?_
    exact (keeps_expect hR _ _).bind hR fun _ _ => keeps_pure hR trivial
  · exact keeps_pure hR trivial

theorem keeps_read [Reader I] [Writer O] (hG : Span.Joins G) (hR : Machine.Frame R)
    (hsink : ∀ m sink, R m { m with sink })
    (hentry : ∀ m, R m { m with input := (Input.entry m.input).2 })
    (hstore : ∀ m s, m.store.Change s → R m { m with store := s }) :
    Keeps G R read (fun _ => True) := by
  have htarget : Keeps G R readTarget (fun _ => True) := keeps_readTarget hG hR hsink hentry hstore
  refine (keeps_prompt hR hsink).bind hR fun _ _ w hw => ?_
  refine leads_bind.mpr (leads_get.mpr ?_)
  rw [readTargets_eq]
  refine Keeps.bind hR (keeps_separated hR htarget _) (fun _ _ => ?_) w hw
  exact (keeps_finish hR _).bind hR fun _ _ => keeps_pure hR trivial

/-- The input is read by entries alone. -/
theorem keeps_statement_read [Reader I] [Writer O] (hG : Span.Joins G) (hR : Machine.Frame R)
    (hsink : ∀ m sink, R m { m with sink })
    (hentry : ∀ m, R m { m with input := (Input.entry m.input).2 })
    (hstore : ∀ m s, m.store.Change s → R m { m with store := s }) :
    Keeps G R (statement .read) (fun _ => True) :=
  (keeps_expect hR _ _).bind hR fun _ _ => keeps_read hG hR hsink hentry hstore

/-- `stop;` and `end;` -/
theorem keeps_ending (hR : Machine.Frame R) (kind : StatementKind) (flow : Flow) :
    Keeps G R (do finish kind; return flow) (fun _ : Flow => True) :=
  (keeps_finish hR kind).bind hR fun _ _ => keeps_pure hR trivial

/-- Statements of every kind stay within a relation that all they do is in, and blame places with the
property `G`. -/
theorem keeps_statement [Reader I] [Writer O] (hG : Span.Joins G) (hR : Machine.Frame.Whole R)
    (kind : StatementKind) : Keeps G R (statement kind) (fun _ => True) := by
  have hF : Machine.Frame R := hR.toFrame
  cases kind with
  | assignment => exact keeps_assignment hG hF hR.store
  | «if» => exact (keeps_expect hF _ _).bind hF fun _ _ => keeps_conditional hG hF
  | goto => exact (keeps_expect hF _ _).bind hF fun _ _ => keeps_goto hF
  | dim => exact (keeps_expect hF _ _).bind hF fun _ _ => keeps_dim hG hF hR.store
  | print => exact (keeps_expect hF _ _).bind hF fun _ _ => keeps_print hG hF hR.sink
  | read => exact keeps_statement_read hG hF hR.sink (fun m => hR.input m _) hR.store
  | stop => exact (keeps_expect hF _ _).bind hF fun _ _ => keeps_ending hF .stop .stop
  | «end» => exact (keeps_expect hF _ _).bind hF fun _ _ => keeps_ending hF .end .terminate

end Statements

end Action

end Primer
