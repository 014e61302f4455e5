import Primer.Proofs.Machine.Acceptance
import Primer.Proofs.Token.Composition

/-!
# Expressions inside statements

An expression has the same value inside a statement as alone: where its text is put into an assignment, a
condition or a `print`, its tokens are the same but for their places, what stands around it ends it, and
nothing of it is taken for a part of the statement.

* `ComesTo s c x`: the tokens are an expression as a whole, and its value is `x`.
* `Derives.of_bare`: the grammar of expressions does not look at places.
* `leads_assignment_of`, `leads_conditional_of`, `leads_print_of`: what the statements do with an expression.
* `tokenize_assignment`, `tokenize_conditional`, `tokenize_print`: how their texts are read.
* `step_expression`: what a step makes of them.
-/

namespace Primer

open Expression

variable {I O : Type}

/-! ### Places -/

theorem Token.kind_of_bare {t t' : Token} (h : t'.bare = t.bare) : t'.kind = t.kind :=
  congrArg Prod.fst h

theorem Token.lexeme_of_bare {t t' : Token} (h : t'.bare = t.bare) : t'.lexeme = t.lexeme :=
  congrArg Prod.snd h

/-- An expression is one wherever its tokens stand. -/
theorem Expression.Derives.of_bare {k : Stratum} {ts : List Token} {e : Tree} (h : Derives k ts e) :
    ∀ {ts' : List Token}, ts'.map Token.bare = ts.map Token.bare → Derives k ts' e := by
  induction h with
  | number ht =>
    intro ts' hts
    obtain ⟨t', rfl, ht'⟩ := List.map_eq_singleton_iff.mp hts
    exact .number ((Token.kind_of_bare ht').trans ht)
  | scalar ht =>
    intro ts' hts
    obtain ⟨t', rfl, ht'⟩ := List.map_eq_singleton_iff.mp hts
    rw [← Token.lexeme_of_bare ht']
    exact .scalar ((Token.kind_of_bare ht').trans ht)
  | element ht hb hi he ih =>
    intro ts' hts
    simp only [List.map_cons, List.map_append, List.map_nil] at hts
    obtain ⟨t', _, rfl, ht', hts⟩ := List.map_eq_cons_iff.mp hts
    obtain ⟨b', _, rfl, hb', hts⟩ := List.map_eq_cons_iff.mp hts
    obtain ⟨is', _, rfl, his', hts⟩ := List.map_eq_append_iff.mp hts
    obtain ⟨e', rfl, he'⟩ := List.map_eq_singleton_iff.mp hts
    rw [← Token.lexeme_of_bare ht']
    exact .element ((Token.kind_of_bare ht').trans ht) ((Token.kind_of_bare hb').trans hb) (ih his')
      ((Token.kind_of_bare he').trans he)
  | paren hb hi he ih =>
    intro ts' hts
    simp only [List.map_cons, List.map_append, List.map_nil] at hts
    obtain ⟨b', _, rfl, hb', hts⟩ := List.map_eq_cons_iff.mp hts
    obtain ⟨is', _, rfl, his', hts⟩ := List.map_eq_append_iff.mp hts
    obtain ⟨e', rfl, he'⟩ := List.map_eq_singleton_iff.mp hts
    exact .paren ((Token.kind_of_bare hb').trans hb) (ih his') ((Token.kind_of_bare he').trans he)
  | sign ht hop hp ih =>
    intro ts' hts
    obtain ⟨t', ps', rfl, ht', hps'⟩ := List.map_eq_cons_iff.mp hts
    exact .sign ((Token.kind_of_bare ht').trans ht) hop (ih hps')
  | binary hl ht hop hr ihl ihr =>
    intro ts' hts
    rw [List.map_append, List.map_cons] at hts
    obtain ⟨ls', _, rfl, hls', hts⟩ := List.map_eq_append_iff.mp hts
    obtain ⟨t', rs', rfl, ht', hrs'⟩ := List.map_eq_cons_iff.mp hts
    exact .binary (ihl hls') ((Token.kind_of_bare ht').trans ht) hop (ihr hrs')
  | lift _ ih => exact fun hts => .lift (ih hts)

/-- The evaluation takes all of the tokens and gives the value. -/
def Expression.ComesTo (s : Store) (c : Cursor) (x : Float) : Prop :=
  (evaluate s c).value = .ok x ∧ (evaluate s c).rest = []

theorem Expression.comesTo_iff {s : Store} {ts : List Token} {length : Nat} {x : Float} :
    ComesTo s (.ofTokens ts length) x ↔ ∃ e, Derives .comparison ts e ∧ e.value? s = some x := by
  rw [ComesTo, evaluate_eq_ok_iff]
  constructor
  · rintro ⟨read, e, hread, he, -, hx⟩
    obtain rfl : ts = read := by simpa [Cursor.ofTokens] using hread
    exact ⟨e, he, hx⟩
  · rintro ⟨e, he, hx⟩
    exact ⟨ts, e, by simp [Cursor.ofTokens], he, by simp [Ends], hx⟩

/-! ### Output in parts -/

namespace Sink

theorem write_of_ok {s : Sink} {bytes : ByteArray} (h : (s.write bytes).1 = .ok ()) :
    (s.write bytes).2 = { s with written := s.written ++ bytes } := by
  unfold write at h ⊢
  split
  · rfl
  · rename_i n hn
    rw [hn] at h
    simp only at h ⊢
    split
    · rfl
    · rename_i hroom
      rw [if_neg hroom] at h
      cases h

/-- What fits as a whole can be written in two parts. -/
theorem write_append {s : Sink} {bytes more : ByteArray} (h : (s.write (bytes ++ more)).1 = .ok ()) :
    (s.write bytes).1 = .ok () ∧ (s.write bytes).2.write more = s.write (bytes ++ more) := by
  obtain ⟨written, capacity, flushes⟩ := s
  cases capacity with
  | none => simp [write, ByteArray.append_assoc]
  | some n =>
    have hroom : bytes.size + more.size ≤ n - written.size := by
      by_contra hroom
      simp [write, hroom] at h
    have hfirst : bytes.size ≤ n - written.size := by omega
    have hsecond : more.size ≤ n - (written.size + bytes.size) := by omega
    simp [write, hfirst, hsecond, hroom, ByteArray.append_assoc]

end Sink

namespace Action

/-! ### Tokens that are there -/

section Known

variable {w : Work I O} {E : Diagnostic → Work I O → Prop} {t : Token} {rest : List Token}

theorem leads_expect_of {p : Token → Bool} {cause : Cause} {Q : Token → Work I O → Prop}
    (hr : w.cursor.rest = t :: rest) (ht : p t = true) (hQ : Q t (w.ahead rest)) :
    Leads (parse (Parse.expect p cause)) w Q E := by
  refine leads_expect (fun t' rest' hr' _ => ?_) fun h => ?_
  · rw [hr] at hr'
    cases hr'
    exact hQ
  · rw [h t (by simp [hr])] at ht
    cases ht

theorem leads_skip_of {mark : Punctuation} {Q : Bool → Work I O → Prop} (hr : w.cursor.rest = t :: rest)
    (ht : t.kind ≠ .punctuation mark) (hQ : Q false w) : Leads (parse (Parse.skip mark)) w Q E := by
  refine leads_skip (fun t' rest' hr' ht' => ?_) fun _ => hQ
  rw [hr] at hr'
  cases hr'
  exact absurd ht' ht

theorem leads_finish_of {kind : StatementKind} {Q : Unit → Work I O → Prop} (hr : w.cursor.rest = [t])
    (ht : t.kind = .punctuation .semicolon) (hQ : Q () (w.ahead [])) : Leads (finish kind) w Q E := by
  refine leads_finish (fun _ _ _ => hQ) (fun _ _ _ hr' _ => ?_) fun h => ?_
  · rw [hr] at hr'
    cases hr'
  · exact absurd ht (h t (by simp [hr]))

theorem leads_target {label : Token} {Q : Nat → Work I O → Prop}
    (hok : ∀ i, w.machine.program.location? label.lexeme = some i → Q i w)
    (herror : w.machine.program.location? label.lexeme = none →
      E ⟨.undefinedLabel label.lexeme, label.span, none⟩ w) : Leads (target label) w Q E := by
  cases hi : w.machine.program.location? label.lexeme with
  | some i =>
    rw [Leads, target_of_some hi]
    exact hok i hi
  | none =>
    rw [Leads, target_of_none hi]
    exact herror hi

/-- An expression in front of what ends it: its value, or the fault that its evaluation finds. -/
theorem leads_expression_cases {read : List Token} {e : Tree} {Q : Float → Work I O → Prop}
    (hr : w.cursor.rest = read ++ rest) (he : Derives .comparison read e) (hends : Ends rest)
    (hok : ∀ x log, e.value? w.machine.store = some x →
      Q x ⟨{ w.cursor with rest }, { w.machine with log }⟩)
    (herror : ∀ d left log, e.value? w.machine.store = none →
      (evaluate w.machine.store w.cursor).value = .error d →
      E d ⟨{ w.cursor with rest := left }, { w.machine with log }⟩) : Leads expression w Q E := by
  have hvalue := evaluate_of_derives (s := w.machine.store) hr he hends
  refine leads_expression (fun x hx => ?_) fun d hd => ?_
  · cases hv : e.value? w.machine.store with
    | none =>
      rw [hv] at hvalue
      obtain ⟨d, hd, -⟩ := hvalue
      rw [hx] at hd
      cases hd
    | some y =>
      rw [hv] at hvalue
      obtain ⟨hy, hrest⟩ := hvalue
      rw [hx] at hy
      cases hy
      have hwork := hok x (w.machine.log.noteAll (evaluate w.machine.store w.cursor).trace) hv
      rwa [← hrest] at hwork
  · cases hv : e.value? w.machine.store with
    | none => exact herror d _ _ hv hd
    | some y =>
      rw [hv, hd] at hvalue
      cases hvalue.1

theorem leads_expression_of {read : List Token} {e : Tree} {Q : Float → Work I O → Prop}
    (hr : w.cursor.rest = read ++ rest) (he : Derives .comparison read e) (hends : Ends rest)
    (hok : ∀ x log, e.value? w.machine.store = some x →
      Q x ⟨{ w.cursor with rest }, { w.machine with log }⟩)
    (herror : ∀ d w', e.value? w.machine.store = none → E d w') : Leads expression w Q E :=
  leads_expression_cases hr he hends hok fun d _ _ hnone _ => herror d _ hnone

end Known

/-! ### Statements -/

section Statements

variable {w : Work I O} {read : List Token} {e : Tree} {semicolon : Token}
  (hsemicolon : semicolon.kind = .punctuation .semicolon)

include hsemicolon

theorem leads_assignment_of {name equal : Token} (hname : name.kind = .identifier)
    (hequal : equal.kind = .punctuation .equal)
    (hw : w.cursor.rest = name :: equal :: (read ++ [semicolon])) (he : Derives .comparison read e) :
    Leads assignment w
      (fun flow w' => flow = .next ∧ ∃ x log, e.value? w.machine.store = some x ∧
        w'.machine = { w.machine with store := w.machine.store.record name.lexeme x, log })
      (fun _ _ => e.value? w.machine.store = none) := by
  have hends : Ends [semicolon] := by simp [Ends, hsemicolon]
  refine leads_bind.mpr (leads_expect_of hw (by simp [Token.isIdentifier, hname]) ?_)
  -- there is no index
  refine leads_bind.mpr (leads_bind.mpr (leads_skip_of rfl (by simp [hequal]) ?_))
  refine leads_pure.mpr (leads_bind.mpr (leads_here.mpr ?_))
  refine leads_bind.mpr (leads_expect_of rfl (by simp [Token.isPunctuation, hequal]) ?_)
  refine leads_bind.mpr (leads_expression_of rfl he hends (fun x log hx => ?_) fun _ _ hx => hx)
  refine leads_bind.mpr (leads_finish_of rfl hsemicolon ?_)
  exact ⟨rfl, x, log, hx, rfl⟩

/-- A condition that does not hold goes on whether there is such a label or not. -/
theorem leads_branch_of {opening closing goto label : Token}
    (hopening : opening.kind = .punctuation .leftParen)
    (hclosing : closing.kind = .punctuation .rightParen) (hgoto : goto.kind = .keyword .goto)
    (hlabel : label.kind = .identifier)
    (hw : w.cursor.rest = opening :: (read ++ closing :: goto :: label :: [semicolon]))
    (he : Derives .comparison read e) :
    Leads conditional w
      (fun flow w' => ∃ x log, e.value? w.machine.store = some x ∧ w'.machine = { w.machine with log } ∧
        if x != 0 then ∃ i, w.machine.program.location? label.lexeme = some i ∧ flow = .jump i
        else flow = .next)
      (fun _ _ => ∀ x, e.value? w.machine.store = some x →
        (x != 0) = true ∧ w.machine.program.location? label.lexeme = none) := by
  have hparen : Derives .comparison (opening :: (read ++ [closing])) e :=
    (Derives.paren hopening he hclosing).mono (by decide)
  have hread : w.cursor.rest = (opening :: (read ++ [closing])) ++ goto :: label :: [semicolon] := by
    simp [hw]
  refine leads_bind.mpr (leads_checkCondition_of hopening he hclosing hgoto hw ?_)
  refine leads_bind.mpr (leads_expression_of hread hparen (by simp [Ends, hgoto]) (fun x log hx => ?_) ?_)
  · refine leads_bind.mpr (leads_expect_of rfl (by simp [Token.isKeyword, hgoto]) ?_)
    refine leads_bind.mpr (leads_expect_of rfl (by simp [Token.isIdentifier, hlabel]) ?_)
    refine leads_bind.mpr (leads_finish_of rfl hsemicolon ?_)
    split
    · rename_i hcondition
      refine leads_bind.mpr (leads_target (fun i hi => ⟨x, log, hx, rfl, ?_⟩) fun hnone y hy => ?_)
      · rw [if_pos hcondition]
        exact ⟨i, hi, rfl⟩
      · rw [hx] at hy
        cases hy
        exact ⟨hcondition, hnone⟩
    · rename_i hcondition
      refine leads_pure.mpr ⟨x, log, hx, rfl, ?_⟩
      rw [if_neg hcondition]
  · intro _ _ hnone x hx
    rw [hnone] at hx
    cases hx

theorem leads_conditional_of {opening closing goto label : Token}
    (hopening : opening.kind = .punctuation .leftParen)
    (hclosing : closing.kind = .punctuation .rightParen) (hgoto : goto.kind = .keyword .goto)
    (hlabel : label.kind = .identifier)
    (hw : w.cursor.rest = opening :: (read ++ closing :: goto :: label :: [semicolon]))
    (he : Derives .comparison read e) {i : Nat}
    (hi : w.machine.program.location? label.lexeme = some i) :
    Leads conditional w
      (fun flow w' => ∃ x log, e.value? w.machine.store = some x ∧
        flow = (if x != 0 then .jump i else .next) ∧ w'.machine = { w.machine with log })
      (fun _ _ => e.value? w.machine.store = none) := by
  refine (leads_branch_of hsemicolon hopening hclosing hgoto hlabel hw he).mono ?_ ?_
  · rintro flow w' ⟨x, log, hx, hw', hflow⟩
    refine ⟨x, log, hx, ?_, hw'⟩
    rw [hi] at hflow
    split at hflow
    · rename_i hcondition
      obtain ⟨j, hj, rfl⟩ := hflow
      cases hj
      rw [if_pos hcondition]
    · rename_i hcondition
      rw [hflow, if_neg hcondition]
  · intro _ _ hfailed
    cases hx : e.value? w.machine.store with
    | none => rfl
    | some x =>
      rw [hi] at hfailed
      cases (hfailed x hx).2

theorem leads_printItem_of {w : Work I Sink} (hw : w.cursor.rest = read ++ [semicolon])
    (he : Derives .comparison read e) {x : Float} (hx : e.value? w.machine.store = some x)
    (hwrite : (w.machine.sink.write (Number.render x).toUTF8).1 = .ok ()) :
    Leads printItem w
      (fun _ w' => w'.cursor.rest = [semicolon] ∧ ∃ log, w'.machine =
        { w.machine with sink := (w.machine.sink.write (Number.render x).toUTF8).2, log })
      (fun _ _ => False) := by
  obtain ⟨t, ts, rfl⟩ := List.exists_cons_of_ne_nil he.ne_nil
  have hpeek : w.cursor.peek? = some t := by simp [Cursor.peek?, hw]
  obtain ⟨hstarts, hstring⟩ := startsExpression_of_derives he t rfl
  refine leads_bind.mpr (leads_peek?.mpr ?_)
  simp only [hpeek, hstring, hstarts, Bool.false_eq_true, if_false, if_true]
  refine leads_bind.mpr (leads_expression_of hw he (by simp [Ends, hsemicolon]) (fun y log hy => ?_) ?_)
  · rw [hx] at hy
    cases hy
    refine leads_write (fun _ => ⟨rfl, log, rfl⟩) fun reason hfault => ?_
    have hfault : (w.machine.sink.write (Number.render x).toUTF8).1 = .error reason := hfault
    rw [hwrite] at hfault
    cases hfault
  · intro _ _ hnone
    rw [hx] at hnone
    cases hnone

theorem leads_print_of {w : Work I Sink} (hw : w.cursor.rest = read ++ [semicolon])
    (he : Derives .comparison read e) {x : Float} (hx : e.value? w.machine.store = some x)
    (hwrite : (w.machine.sink.write (Number.render x ++ "\n").toUTF8).1 = .ok ()) :
    Leads print w
      (fun flow w' => flow = .next ∧ ∃ log, w'.machine =
        { w.machine with sink := (w.machine.sink.write (Number.render x ++ "\n").toUTF8).2, log })
      (fun _ _ => False) := by
  have hbytes : (Number.render x ++ "\n").toUTF8 = (Number.render x).toUTF8 ++ "\n".toUTF8 :=
    String.toByteArray_append
  rw [hbytes] at hwrite ⊢
  obtain ⟨hfirst, hboth⟩ := Sink.write_append hwrite
  refine leads_bind.mpr (leads_get.mpr ?_)
  rw [printItems_eq]
  refine leads_bind.mpr (leads_bind.mpr ?_)
  refine (leads_printItem_of hsemicolon hw he hx hfirst).mono ?_ fun _ _ => False.elim
  rintro _ w' ⟨hr, log, hm⟩
  refine leads_bind.mpr (leads_skip_of hr (by simp [hsemicolon]) ?_)
  have hsink : w'.machine.sink.write "\n".toUTF8 =
      w.machine.sink.write ((Number.render x).toUTF8 ++ "\n".toUTF8) := by
    rw [hm]
    exact hboth
  refine leads_pure.mpr (leads_bind.mpr (leads_write (fun _ => ?_) fun reason hfault => ?_))
  · refine leads_bind.mpr (leads_finish_of hr hsemicolon ⟨rfl, log, ?_⟩)
    show { w'.machine with sink := (w'.machine.sink.write "\n".toUTF8).2 } = _
    rw [hsink, hm]
  · rw [Sink.writer_write, hsink, hwrite] at hfault
    cases hfault

end Statements

end Action

/-! ### Sentences with a known shape -/

/-- Behind the equals sign of an assignment to a scalar stands an expression. -/
theorem derives_of_mem_assignment {name equal semicolon : Token} {read : List Token}
    (hequal : equal.kind = .punctuation .equal)
    (h : name :: equal :: (read ++ [semicolon]) ∈ StatementKind.assignment.form) :
    ∃ e, Derives .comparison read e := by
  simp only [StatementKind.form, mul_assoc] at h
  obtain ⟨target, htarget, _, hmark, heq⟩ := Language.mem_mul.mp h
  obtain ⟨equal', _, hequal', hvalue, rfl⟩ := Form.mem_token_mul.mp hmark
  obtain ⟨read', ⟨e, he⟩, _, ⟨semicolon', -, rfl⟩, rfl⟩ := Language.mem_mul.mp hvalue
  obtain ⟨name', index, -, hindex, rfl⟩ := Form.mem_token_mul.mp htarget
  rcases hindex with hnil | hindex
  · obtain rfl := (Language.mem_one _).mp hnil
    simp only [List.cons_append, List.nil_append, List.cons.injEq] at heq
    obtain ⟨rfl, -⟩ := List.append_inj' heq.2.2 rfl
    exact ⟨e, he⟩
  · -- a bracket would stand where the equals sign is
    obtain ⟨bracket, is, close, hbracket, -, -, rfl⟩ := Form.mem_index.mp hindex
    simp only [List.cons_append, List.cons.injEq] at heq
    rw [heq.2.1, hequal] at hbracket
    cases hbracket

/-- Between the parentheses of a condition stands an expression. -/
theorem derives_of_mem_conditional {word opening closing goto label semicolon : Token} {read : List Token}
    (h : word :: opening :: (read ++ closing :: goto :: label :: [semicolon]) ∈ StatementKind.if.form) :
    ∃ e, Derives .comparison read e := by
  simp only [StatementKind.form, mul_assoc] at h
  obtain ⟨word', _, -, hopening, heq⟩ := Form.mem_token_mul.mp h
  obtain ⟨opening', _, -, hcondition, rfl⟩ := Form.mem_token_mul.mp hopening
  obtain ⟨read', ⟨e, he⟩, _, hclosing, rfl⟩ := Language.mem_mul.mp hcondition
  obtain ⟨closing', _, -, hgoto, rfl⟩ := Form.mem_token_mul.mp hclosing
  obtain ⟨goto', _, -, hlabel, rfl⟩ := Form.mem_token_mul.mp hgoto
  obtain ⟨label', _, -, ⟨semicolon', -, rfl⟩, rfl⟩ := Form.mem_token_mul.mp hlabel
  simp only [List.cons.injEq] at heq
  obtain ⟨rfl, -⟩ := List.append_inj' heq.2.2 rfl
  exact ⟨e, he⟩

/-! ### Texts -/

section Texts

variable {e : String} {ts : List Token} (he : tokenize e = .ok ts)

include he

theorem spelled_closed : Spelled (e.toList ++ [';'])
    (ts.map Token.bare ++ [(.punctuation .semicolon, ";")]) := by
  have hsemicolon : Spelled [';'] [(.punctuation .semicolon, ";")] :=
    spelled_nil.mark rfl fun h => absurd h (by decide)
  exact (lexed_of_tokenize he).spelled_append hsemicolon (by simp [Cuts, isSyntactic])

theorem tokenize_assignment {x : String} (hx : Word.isIdentifier x.toList = true) :
    ∃ name equal read semicolon,
      tokenize (x ++ " = " ++ e ++ ";") = .ok (name :: equal :: (read ++ [semicolon])) ∧
      name.bare = (.identifier, x) ∧ equal.kind = .punctuation .equal ∧
      read.map Token.bare = ts.map Token.bare ∧ semicolon.kind = .punctuation .semicolon := by
  have htext : (x ++ " = " ++ e ++ ";").toList = x.toList ++ ' ' :: '=' :: ' ' :: (e.toList ++ [';']) := by
    simp
  have hequal := ((spelled_closed he).blank).mark (c := '=') rfl fun _ => cuts_blank rfl _
  have hspelled := hequal.blank.identifier hx (cuts_blank rfl _)
  rw [← htext] at hspelled
  obtain ⟨tokens, htokens, hbare⟩ := hspelled.tokenize
  obtain ⟨name, _, rfl, hname, hbare⟩ := List.map_eq_cons_iff.mp hbare
  obtain ⟨equal, _, rfl, hequal, hbare⟩ := List.map_eq_cons_iff.mp hbare
  obtain ⟨read, _, rfl, hread, hbare⟩ := List.map_eq_append_iff.mp hbare
  obtain ⟨semicolon, rfl, hsemicolon⟩ := List.map_eq_singleton_iff.mp hbare
  exact ⟨name, equal, read, semicolon, htokens, hname, congrArg Prod.fst hequal, hread,
    congrArg Prod.fst hsemicolon⟩

theorem tokenize_conditional {label : String} (hlabel : Word.isIdentifier label.toList = true) :
    ∃ word opening read closing goto target semicolon,
      tokenize ("if (" ++ e ++ ") goto " ++ label ++ ";") =
        .ok (word :: opening :: (read ++ closing :: goto :: target :: [semicolon])) ∧
      word.kind = .keyword .if ∧ opening.kind = .punctuation .leftParen ∧
      read.map Token.bare = ts.map Token.bare ∧ closing.kind = .punctuation .rightParen ∧
      goto.kind = .keyword .goto ∧ target.bare = (.identifier, label) ∧
      semicolon.kind = .punctuation .semicolon := by
  have htext : ("if (" ++ e ++ ") goto " ++ label ++ ";").toList = Keyword.if.word.toList ++
      ' ' :: '(' :: (e.toList ++ ')' :: ' ' :: (Keyword.goto.word.toList ++ ' ' ::
        (label.toList ++ [';']))) := by
    simp [Keyword.word]
  have hsemicolon : Spelled [';'] [(.punctuation .semicolon, ";")] :=
    spelled_nil.mark rfl fun h => absurd h (by decide)
  have htarget := (hsemicolon.identifier hlabel (by simp [Cuts, isSyntactic])).blank
  have hgoto := (htarget.keyword .goto (cuts_blank rfl _)).blank
  have hclosing := hgoto.mark (c := ')') rfl fun h => absurd h (by decide)
  have hread := (lexed_of_tokenize he).spelled_append hclosing (by simp [Cuts, isSyntactic])
  have hopening := hread.mark (c := '(') rfl fun h => absurd h (by decide)
  have hspelled := hopening.blank.keyword .if (cuts_blank rfl _)
  rw [← htext] at hspelled
  obtain ⟨tokens, htokens, hbare⟩ := hspelled.tokenize
  obtain ⟨word, _, rfl, hword, hbare⟩ := List.map_eq_cons_iff.mp hbare
  obtain ⟨opening, _, rfl, hopening, hbare⟩ := List.map_eq_cons_iff.mp hbare
  obtain ⟨read, _, rfl, hread, hbare⟩ := List.map_eq_append_iff.mp hbare
  obtain ⟨closing, _, rfl, hclosing, hbare⟩ := List.map_eq_cons_iff.mp hbare
  obtain ⟨goto, _, rfl, hgoto, hbare⟩ := List.map_eq_cons_iff.mp hbare
  obtain ⟨target, _, rfl, htarget, hbare⟩ := List.map_eq_cons_iff.mp hbare
  obtain ⟨semicolon, rfl, hsemicolon⟩ := List.map_eq_singleton_iff.mp hbare
  exact ⟨word, opening, read, closing, goto, target, semicolon, htokens, congrArg Prod.fst hword,
    congrArg Prod.fst hopening, hread, congrArg Prod.fst hclosing, congrArg Prod.fst hgoto, htarget,
    congrArg Prod.fst hsemicolon⟩

theorem tokenize_print : ∃ word read semicolon,
    tokenize ("print " ++ e ++ ";") = .ok (word :: (read ++ [semicolon])) ∧
    word.kind = .keyword .print ∧ read.map Token.bare = ts.map Token.bare ∧
    semicolon.kind = .punctuation .semicolon := by
  have htext : ("print " ++ e ++ ";").toList = Keyword.print.word.toList ++ ' ' :: (e.toList ++ [';']) := by
    simp [Keyword.word]
  have hspelled := (spelled_closed he).blank.keyword .print (cuts_blank rfl _)
  rw [← htext] at hspelled
  obtain ⟨tokens, htokens, hbare⟩ := hspelled.tokenize
  obtain ⟨word, _, rfl, hword, hbare⟩ := List.map_eq_cons_iff.mp hbare
  obtain ⟨read, _, rfl, hread, hbare⟩ := List.map_eq_append_iff.mp hbare
  obtain ⟨semicolon, rfl, hsemicolon⟩ := List.map_eq_singleton_iff.mp hbare
  exact ⟨word, read, semicolon, htokens, congrArg Prod.fst hword, hread, congrArg Prod.fst hsemicolon⟩

end Texts

/-! ### Steps -/

namespace Machine

variable [Reader I] [Writer O]

/-- With a value the step succeeds and leads to the state that belongs to it, up to the cache and the log;
without one it fails. -/
def StepsWith (m : Machine I O) (value : Option Float) (after : Float → Machine I O) : Prop :=
  match value with
  | some x => m.step.1 = .ok .continue ∧ (after x).Same m.step.2
  | none => ∃ d, m.step.1 = .error d

section Steps

variable {m : Machine I O} (hm : m.Coherent) (hrunning : m.phase = .running) {s : Statement}
  (hs : m.program.statements[m.counter]? = some s)

include hm hrunning hs

/-- A step leads where the statement under the counter does. -/
theorem Coherent.step_leads {tokens : List Token} {kind : StatementKind}
    (ht : tokenize s.text = .ok tokens) (hclosed : isClosed s.text = true)
    (hk : classify s.text tokens = .ok kind) {Q : Flow → Work I O → Prop} {E : Diagnostic → Work I O → Prop}
    (h : ∀ m', m.Same m' →
      Action.Leads (Action.statement kind) ⟨.ofTokens tokens s.text.utf8ByteSize, m'⟩ Q E) :
    (∃ flow w, Q flow w ∧ m.step = (.ok (w.machine.follow flow).1, (w.machine.follow flow).2)) ∨
      ∃ d w, E d w ∧
        m.step = (.error (d.within ⟨m.counter + 1, s.text, s.offset⟩), w.machine) := by
  have hexecutes := hm.executes hs
  rw [step_eq_execute hs hrunning]
  generalize m.execute s = r at hexecutes
  cases hexecutes with
  | unclosed hopen =>
    rw [hclosed] at hopen
    cases hopen
  | unread _ ht' =>
    rw [ht] at ht'
    cases ht'
  | unknown _ ht' _ _ hk' =>
    rw [ht] at ht'
    cases ht'
    rw [hk] at hk'
    cases hk'
  | failed _ ht' hsame _ hk' hw =>
    rw [ht] at ht'
    cases ht'
    rw [hk] at hk'
    cases hk'
    exact .inr ⟨_, _, (h _ hsame).error hw, rfl⟩
  | executed _ ht' hsame _ hk' hw =>
    rw [ht] at ht'
    cases ht'
    rw [hk] at hk'
    cases hk'
    exact .inl ⟨_, _, (h _ hsame).ok hw, rfl⟩

/-- A step that succeeds executes a sentence. -/
theorem Coherent.mem_form_of_step {tokens : List Token} {kind : StatementKind}
    (ht : tokenize s.text = .ok tokens) (hk : classify s.text tokens = .ok kind) {step : Step}
    (hstep : m.step.1 = .ok step) : tokens ∈ kind.form := by
  have hexecutes := hm.executes hs
  rw [step_eq_execute hs hrunning] at hstep
  generalize m.execute s = r at hexecutes hstep
  obtain ⟨_ | _, m'⟩ := r
  · cases hstep
  obtain ⟨tokens', kind', ht', hform⟩ := hexecutes.mem_form
  rw [ht] at ht'
  cases ht'
  have hk' := classify_of_mem_form hform s.text
  rw [hk] at hk'
  cases hk'
  exact hform

theorem Coherent.stepsWith {tokens : List Token} {kind : StatementKind}
    (ht : tokenize s.text = .ok tokens) (hclosed : isClosed s.text = true)
    (hk : classify s.text tokens = .ok kind) {value : Option Float} {after : Float → Machine I O}
    (h : ∀ m', m.Same m' →
      Action.Leads (Action.statement kind) ⟨.ofTokens tokens s.text.utf8ByteSize, m'⟩
        (fun flow w => ∃ x, value = some x ∧ (w.machine.follow flow).1 = .continue ∧
          (after x).Same (w.machine.follow flow).2)
        (fun _ _ => value = none)) :
    m.StepsWith value after := by
  rcases hm.step_leads hrunning hs ht hclosed hk h with
    ⟨flow, w, ⟨x, rfl, hcontinue, hsame⟩, hstep⟩ | ⟨d, w, rfl, hstep⟩
  · rw [StepsWith, hstep]
    exact ⟨congrArg Except.ok hcontinue, hsame⟩
  · exact ⟨_, congrArg Prod.fst hstep⟩

variable {read : List Token} {e : Tree} {semicolon : Token}
  (hsemicolon : semicolon.kind = .punctuation .semicolon)

include hsemicolon

theorem Coherent.step_assignment {name equal : Token} (hname : name.kind = .identifier)
    (hequal : equal.kind = .punctuation .equal)
    (ht : tokenize s.text = .ok (name :: equal :: (read ++ [semicolon]))) :
    ((∃ step, m.step.1 = .ok step) → ∃ e, Derives .comparison read e) ∧
      ∀ e, Derives .comparison read e → m.StepsWith (e.value? m.store)
        fun x => { m with store := m.store.record name.lexeme x, counter := m.counter + 1 } := by
  have hclosed : isClosed s.text = true := isClosed_of_last (name :: equal :: read) ht hsemicolon
  have hk : classify s.text (name :: equal :: (read ++ [semicolon])) = .ok .assignment := by
    have htarget : [name] ∈ Form.target :=
      Form.mem_token_mul.mpr ⟨name, [], hname, .inl rfl, rfl⟩
    exact classify_assignment htarget hequal s.text
  refine ⟨fun ⟨step, hstep⟩ => ?_, fun e he => ?_⟩
  · exact derives_of_mem_assignment hequal (hm.mem_form_of_step hrunning hs ht hk hstep)
  · refine hm.stepsWith hrunning hs ht hclosed hk fun m' hsame => ?_
    refine (Action.leads_assignment_of hsemicolon hname hequal rfl he).mono ?_ ?_
    · rintro flow w ⟨rfl, x, log, hx, hw⟩
      have hx : e.value? m'.store = some x := hx
      rw [hsame.store] at hx
      rw [hw]
      refine ⟨x, hx, rfl, hsame.program, ?_, hsame.phase, ?_, hsame.input, hsame.sink⟩
      · exact congrArg (·.record name.lexeme x) hsame.store
      · exact congrArg (· + 1) hsame.counter
    · intro d w hnone
      rwa [← hsame.store]

theorem Coherent.step_conditional {word opening closing goto label : Token}
    (hword : word.kind = .keyword .if) (hopening : opening.kind = .punctuation .leftParen)
    (hclosing : closing.kind = .punctuation .rightParen) (hgoto : goto.kind = .keyword .goto)
    (hlabel : label.kind = .identifier) {i : Nat} (hi : m.program.location? label.lexeme = some i)
    (ht : tokenize s.text =
      .ok (word :: opening :: (read ++ closing :: goto :: label :: [semicolon]))) :
    ((∃ step, m.step.1 = .ok step) → ∃ e, Derives .comparison read e) ∧
      ∀ e, Derives .comparison read e → m.StepsWith (e.value? m.store)
        fun x => { m with counter := if x != 0 then i else m.counter + 1 } := by
  have hclosed : isClosed s.text = true := by
    refine isClosed_of_last (word :: opening :: (read ++ [closing, goto, label])) ?_ hsemicolon
    simpa using ht
  have hk : classify s.text (word :: opening :: (read ++ closing :: goto :: label :: [semicolon])) =
    .ok .if := classify_keyword hword s.text _
  refine ⟨fun ⟨step, hstep⟩ => ?_, fun e he => ?_⟩
  · exact derives_of_mem_conditional (hm.mem_form_of_step hrunning hs ht hk hstep)
  · refine hm.stepsWith hrunning hs ht hclosed hk fun m' hsame => ?_
    refine Action.leads_bind.mpr ((Action.leads_heading rfl hword).mpr ?_)
    have hi : m'.program.location? label.lexeme = some i := by rw [hsame.program, hi]
    refine (Action.leads_conditional_of hsemicolon hopening hclosing hgoto hlabel rfl he hi).mono ?_ ?_
    · rintro flow w ⟨x, log, hx, rfl, hw⟩
      have hx : e.value? m'.store = some x := hx
      rw [hsame.store] at hx
      rw [hw]
      refine ⟨x, hx, ?_⟩
      by_cases hzero : x != 0
      · simp only [hzero, if_true]
        exact ⟨rfl, hsame.program, hsame.store, hsame.phase, rfl, hsame.input, hsame.sink⟩
      · simp only [hzero]
        exact ⟨rfl, hsame.program, hsame.store, hsame.phase, congrArg (· + 1) hsame.counter, hsame.input,
          hsame.sink⟩
    · intro d w hnone
      rwa [← hsame.store]

end Steps

omit [Writer O] in
theorem Coherent.step_print {m : Machine I Sink} (hm : m.Coherent) (hrunning : m.phase = .running)
    {s : Statement} (hs : m.program.statements[m.counter]? = some s) {word semicolon : Token}
    {read : List Token} {e : Tree} (hsemicolon : semicolon.kind = .punctuation .semicolon)
    (hword : word.kind = .keyword .print) (ht : tokenize s.text = .ok (word :: (read ++ [semicolon])))
    (he : Derives .comparison read e) {x : Float} (hx : e.value? m.store = some x)
    (hwrite : (m.sink.write (Number.render x ++ "\n").toUTF8).1 = .ok ()) :
    m.StepsWith (some x) fun x => { m with
      sink := (m.sink.write (Number.render x ++ "\n").toUTF8).2, counter := m.counter + 1 } := by
  have hclosed : isClosed s.text = true := isClosed_of_last (word :: read) ht hsemicolon
  have hk : classify s.text (word :: (read ++ [semicolon])) = .ok .print := classify_keyword hword s.text _
  refine hm.stepsWith hrunning hs ht hclosed hk fun m' hsame => ?_
  refine Action.leads_bind.mpr ((Action.leads_heading rfl hword).mpr ?_)
  have hx' : e.value? m'.store = some x := by rw [hsame.store, hx]
  have hwrite' : (m'.sink.write (Number.render x ++ "\n").toUTF8).1 = .ok () := by rw [hsame.sink, hwrite]
  refine (Action.leads_print_of hsemicolon rfl he hx' hwrite').mono ?_ fun _ _ => False.elim
  rintro flow w ⟨rfl, log, hw⟩
  rw [hw]
  refine ⟨x, rfl, rfl, hsame.program, hsame.store, hsame.phase, congrArg (· + 1) hsame.counter,
    hsame.input, ?_⟩
  exact congrArg (fun sink : Sink => (sink.write (Number.render x ++ "\n").toUTF8).2) hsame.sink

/-- Where the expression of a statement decides over the step, it does so by what it comes to alone. -/
theorem steps_alone {m : Machine I O} {read ts : List Token} (hread : read.map Token.bare = ts.map Token.bare)
    {after : Float → Machine I O} (hderives : (∃ step, m.step.1 = .ok step) → ∃ e, Derives .comparison read e)
    (hsteps : ∀ e, Derives .comparison read e → m.StepsWith (e.value? m.store) after) (length : Nat) :
    ((∃ step, m.step.1 = .ok step) ↔ ∃ x, ComesTo m.store (.ofTokens ts length) x) ∧
      ∀ x, ComesTo m.store (.ofTokens ts length) x →
        m.step.1 = .ok .continue ∧ (after x).Same m.step.2 := by
  have hafter : ∀ x, ComesTo m.store (.ofTokens ts length) x →
      m.step.1 = .ok .continue ∧ (after x).Same m.step.2 := by
    intro x hx
    obtain ⟨e, he, hvalue⟩ := comesTo_iff.mp hx
    have hstep := hsteps e (he.of_bare hread)
    rw [hvalue] at hstep
    exact hstep
  refine ⟨⟨fun hok => ?_, fun ⟨x, hx⟩ => ⟨_, (hafter x hx).1⟩⟩, hafter⟩
  obtain ⟨e, he⟩ := hderives hok
  have hstep := hsteps e he
  cases hvalue : e.value? m.store with
  | some x => exact ⟨x, comesTo_iff.mpr ⟨e, he.of_bare hread.symm, hvalue⟩⟩
  | none =>
    rw [hvalue] at hstep
    obtain ⟨d, hd⟩ := hstep
    obtain ⟨step, hok⟩ := hok
    rw [hok] at hd
    cases hd

/-- **An expression means the same alone and inside a statement**, in every running state, whatever it holds, as
long as its cache tells the truth.  The steps of an assignment and of a condition succeed just if the tokens of
the expression come to a value by themselves; then the value is what is recorded, and what decides over the
jump.  A value that is printed is written as it is rendered, with the end of the line, where the sink takes
it. -/
theorem step_expression {m : Machine I Sink} (hm : m.Coherent) (hrunning : m.phase = .running) {s : Statement}
    (hs : m.program.statements[m.counter]? = some s) {e : String} {ts : List Token}
    (he : tokenize e = .ok ts) :
    (∀ x, Word.isIdentifier x.toList = true → s.text = x ++ " = " ++ e ++ ";" →
      ((∃ step, m.step.1 = .ok step) ↔ ∃ v, ComesTo m.store (.ofTokens ts e.utf8ByteSize) v) ∧
      ∀ v, ComesTo m.store (.ofTokens ts e.utf8ByteSize) v → m.step.1 = .ok .continue ∧
        { m with store := m.store.record x v, counter := m.counter + 1 }.Same m.step.2) ∧
    (∀ label i, Word.isIdentifier label.toList = true → m.program.location? label = some i →
      s.text = "if (" ++ e ++ ") goto " ++ label ++ ";" →
      ((∃ step, m.step.1 = .ok step) ↔ ∃ v, ComesTo m.store (.ofTokens ts e.utf8ByteSize) v) ∧
      ∀ v, ComesTo m.store (.ofTokens ts e.utf8ByteSize) v → m.step.1 = .ok .continue ∧
        { m with counter := if v != 0 then i else m.counter + 1 }.Same m.step.2) ∧
    ∀ v, ComesTo m.store (.ofTokens ts e.utf8ByteSize) v → s.text = "print " ++ e ++ ";" →
      (m.sink.write (Number.render v ++ "\n").toUTF8).1 = .ok () →
      m.step.1 = .ok .continue ∧
        { m with
          sink := { m.sink with written := m.sink.written ++ (Number.render v ++ "\n").toUTF8 }
          counter := m.counter + 1 }.Same m.step.2 := by
  refine ⟨fun x hx htext => ?_, fun label i hlabel hi htext => ?_, fun v hv htext hwrite => ?_⟩
  · obtain ⟨name, equal, read, semicolon, ht, hname, hequal, hread, hsemicolon⟩ := tokenize_assignment he hx
    rw [← htext] at ht
    obtain ⟨hderives, hsteps⟩ :=
      hm.step_assignment hrunning hs hsemicolon (congrArg Prod.fst hname) hequal ht
    rw [show name.lexeme = x from congrArg Prod.snd hname] at hsteps
    exact steps_alone hread hderives hsteps _
  · obtain ⟨word, opening, read, closing, goto, target, semicolon, ht, hword, hopening, hread, hclosing,
      hgoto, htarget, hsemicolon⟩ := tokenize_conditional he hlabel
    rw [← htext] at ht
    have hi : m.program.location? target.lexeme = some i := by
      rw [show target.lexeme = label from congrArg Prod.snd htarget, hi]
    obtain ⟨hderives, hsteps⟩ := hm.step_conditional hrunning hs hsemicolon hword hopening hclosing hgoto
      (congrArg Prod.fst htarget) hi ht
    exact steps_alone hread hderives hsteps _
  · obtain ⟨word, read, semicolon, ht, hword, hread, hsemicolon⟩ := tokenize_print he
    rw [← htext] at ht
    obtain ⟨tree, htree, hvalue⟩ := comesTo_iff.mp hv
    have hsteps := hm.step_print hrunning hs hsemicolon hword ht (htree.of_bare hread) hvalue hwrite
    rw [← Sink.write_of_ok hwrite]
    exact hsteps

/-- With `1` under `y`, the expression `y` is what an assignment records and what is printed, and `y) + (y` is
no condition, though parentheses around it would balance it. -/
theorem step_expression_scalar :
    let m (text : String) : Machine :=
      { start ⟨#[⟨text, 1, 0⟩], (∅ : Std.ExtTreeMap String Nat).insert "l" 0⟩ [] .unlimited (.init .warn) with
        store := Store.empty.record "y" 1 }
    (m "x = y;").step.2.store.get? "x" = some 1 ∧
    (m "print y;").step.2.sink.written = (Number.render 1 ++ "\n").toUTF8 ∧
    (m "if (y) goto l;").step.1 = .ok .continue ∧
    ∀ step, (m "if (y) + (y) goto l;").step.1 ≠ .ok step := by
  intro m
  have hm : ∀ text, (m text).Coherent := fun text i tokens h => by simp [m, start] at h
  have hscalar : tokenize "y" = .ok [⟨.identifier, "y", ⟨0, 1⟩⟩] := by decide +kernel
  have hcomes : ComesTo (Store.empty.record "y" 1) (.ofTokens [⟨.identifier, "y", ⟨0, 1⟩⟩] 1) 1 :=
    comesTo_iff.mpr ⟨_, (Derives.scalar rfl).mono (by decide), by simp [Tree.value?, Store.get?, Store.record]⟩
  refine ⟨?_, ?_, ?_, ?_⟩
  · have hsame := (((step_expression (hm "x = y;") rfl rfl hscalar).1 "x" (by decide) rfl).2 1 hcomes).2
    rw [hsame.store]
    simp [Store.get?, Store.record]
  · have hsame := ((step_expression (hm "print y;") rfl rfl hscalar).2.2 1 hcomes rfl rfl).2
    rw [hsame.sink]
    simp [m, start, Sink.unlimited]
  · exact (((step_expression (hm "if (y) goto l;") rfl rfl hscalar).2.1 "l" 0 (by decide)
      (by simp [m, start, Program.location?]) rfl).2 1 hcomes).1
  · intro step hstep
    have htorn : tokenize "y) + (y" = .ok [⟨.identifier, "y", ⟨0, 1⟩⟩,
      ⟨.punctuation .rightParen, ")", ⟨1, 2⟩⟩, ⟨.operator .plus, "+", ⟨3, 4⟩⟩,
      ⟨.punctuation .leftParen, "(", ⟨5, 6⟩⟩, ⟨.identifier, "y", ⟨6, 7⟩⟩] := by decide +kernel
    obtain ⟨v, hv⟩ := ((step_expression (hm "if (y) + (y) goto l;") rfl rfl htorn).2.1 "l" 0 (by decide)
      (by simp [m, start, Program.location?]) rfl).1.mp ⟨step, hstep⟩
    obtain ⟨tree, htree, -⟩ := comesTo_iff.mp hv
    -- the first mark of the tokens closes what they did not open
    have hclosed := htree.afterClosing?_append (.inl ⟨rfl, rfl⟩ : Paired .leftParen .rightParen) 0 []
    cases hclosed

end Machine

end Primer
