import Primer.Proofs.Expression.Balance
import Primer.Proofs.Statement.Recognition

/-!
# The look-ahead of statements

An assignment is known by a scan for its first equals sign, and the brackets before it and the parentheses of
a condition are matched by a count of one kind of mark.  Neither looks at what stands between the marks.  Where
the evaluation that follows goes through, it ends where the scan did.

* `nesting opening closing tokens`: how many marks the tokens leave open.  `scanned_afterClosing?` says that the
  scan counts it, and that some are open until the scan ends.
* `Action.assigned`: the part of an assignment before its equals sign.  `Action.leads_assigned` says that it
  ends at the first equals sign.
* `exists_afterClosing?_of_evaluate`: a condition that is read ends behind the partner of its parenthesis.
* `lookahead_agrees`: the scans against the statements.
-/

namespace Primer

open Expression

variable {I O : Type}

/-! ### The count of the scan -/

/-- How many more `opening` marks than `closing` ones there are. -/
def nesting (opening closing : Punctuation) (tokens : List Token) : Int :=
  tokens.countP (·.isPunctuation opening) - tokens.countP (·.isPunctuation closing)

/-- What a scan has read when it ends, with `depth` marks open at its start: some are open all the way, and at
its end just if it has not found what it looks for. -/
structure Scanned (opening closing : Punctuation) (depth : Int) (front : List Token) (found : Bool) :
    Prop where
  before : ∀ before, before <+: front → before ≠ front → 0 < depth + nesting opening closing before
  behind : if found then depth + nesting opening closing front = 0
    else 0 < depth + nesting opening closing front

section Scan

variable {opening closing : Punctuation} {depth : Nat} {tokens : List Token}

@[simp] theorem nesting_nil : nesting opening closing [] = 0 := rfl

/-- What a token adds to the count. -/
def Token.turn (opening closing : Punctuation) (t : Token) : Int :=
  if t.isPunctuation opening then 1 else if t.isPunctuation closing then -1 else 0

theorem nesting_cons (hp : Paired opening closing) (t : Token) (tokens : List Token) :
    nesting opening closing (t :: tokens) =
      t.turn opening closing + nesting opening closing tokens := by
  have hboth : t.isPunctuation opening = true → t.isPunctuation closing = false := by
    rcases hp with ⟨rfl, rfl⟩ | ⟨rfl, rfl⟩ <;> simp_all [Token.isPunctuation]
  simp only [nesting, Token.turn, List.countP_cons]
  split
  · rename_i ho
    simp only [hboth ho, Bool.false_eq_true, if_false]
    omega
  · split <;> omega

/-- One more token in front of a scan. -/
theorem Scanned.cons (hp : Paired opening closing) {t : Token} {front : List Token} {found : Bool}
    {depth : Int} (hd : 0 < depth)
    (h : Scanned opening closing (depth + t.turn opening closing) front found) :
    Scanned opening closing depth (t :: front) found where
  before before hbefore hne := by
    cases before with
    | nil => simpa using hd
    | cons t' more =>
      obtain ⟨rfl, hmore⟩ := List.cons_prefix_cons.mp hbefore
      have hpos := h.before more hmore fun heq => hne (heq ▸ rfl)
      rwa [nesting_cons hp, ← Int.add_assoc]
  behind := by
    have hbehind := h.behind
    rwa [Int.add_assoc, ← nesting_cons hp] at hbehind

/-- What the scan counts, from the first mark on. -/
theorem scanned_afterClosing? (hp : Paired opening closing) (hd : 0 < depth) (tokens : List Token) :
    ∃ front, tokens = front ++ (afterClosing? opening closing depth tokens).getD [] ∧
      Scanned opening closing depth front (afterClosing? opening closing depth tokens).isSome := by
  fun_induction afterClosing? opening closing depth tokens with
  | case1 depth => exact ⟨[], rfl, by simp, by simpa using hd⟩
  | case2 depth t tokens ho ih =>
    obtain ⟨front, htokens, hfront⟩ := ih (Nat.succ_pos depth)
    have hturn : t.turn opening closing = 1 := by rw [Token.turn, if_pos ho]
    refine ⟨t :: front, congrArg (t :: ·) htokens, .cons hp (by omega) ?_⟩
    rw [hturn]
    exact_mod_cast hfront
  | case3 depth t tokens ho hc hle =>
    -- the mark it looks for
    have hturn : t.turn opening closing = -1 := by rw [Token.turn, if_neg ho, if_pos hc]
    refine ⟨[t], rfl, .cons hp (by omega) ⟨by simp, ?_⟩⟩
    have hdepth : depth = 1 := by omega
    simp [hturn, hdepth]
  | case4 depth t tokens ho hc hle ih =>
    obtain ⟨front, htokens, hfront⟩ := ih (by omega)
    have hturn : t.turn opening closing = -1 := by rw [Token.turn, if_neg ho, if_pos hc]
    have hdepth : (depth : Int) + t.turn opening closing = ((depth - 1 : Nat) : Int) := by omega
    exact ⟨t :: front, congrArg (t :: ·) htokens, .cons hp (by omega) (hdepth ▸ hfront)⟩
  | case5 depth t tokens ho hc ih =>
    obtain ⟨front, htokens, hfront⟩ := ih hd
    have hturn : t.turn opening closing = 0 := by rw [Token.turn, if_neg ho, if_neg hc]
    refine ⟨t :: front, congrArg (t :: ·) htokens, .cons hp (by omega) ?_⟩
    rwa [hturn, Int.add_zero]

/-- The count is never negative, and zero where the scan finds what it looks for. -/
theorem nesting_nonneg (hp : Paired opening closing) {t : Token} (ht : t.kind = .punctuation opening)
    (tokens : List Token) : ∃ front,
      t :: tokens = front ++ (afterClosing? opening closing 0 (t :: tokens)).getD [] ∧
      (∀ before, before <+: front → 0 ≤ nesting opening closing before) ∧
      ((afterClosing? opening closing 0 (t :: tokens)).isSome = true ↔
        nesting opening closing front = 0) := by
  have hturn : t.turn opening closing = 1 := by simp [Token.turn, Token.isPunctuation, ht]
  rw [afterClosing?_open ht]
  obtain ⟨front, htokens, hfront⟩ := scanned_afterClosing? hp Nat.one_pos tokens
  have hbehind := hfront.behind
  refine ⟨t :: front, congrArg (t :: ·) htokens, fun before hbefore => ?_, ?_⟩
  · cases before with
    | nil => exact le_rfl
    | cons t' more =>
      obtain ⟨rfl, hmore⟩ := List.cons_prefix_cons.mp hbefore
      rw [nesting_cons hp, hturn]
      by_cases hall : more = front
      · subst hall
        split at hbehind <;> omega
      · exact (hfront.before more hmore hall).le
  · rw [nesting_cons hp, hturn]
    split at hbehind
    · rename_i hfound
      exact ⟨fun _ => hbehind, fun _ => hfound⟩
    · rename_i hfound
      exact ⟨fun h => absurd h hfound, fun h => by omega⟩

/-- What stands behind the mark that a scan finds makes no difference to it. -/
theorem afterClosing?_append {rest : List Token}
    (h : afterClosing? opening closing depth tokens = some rest) (more : List Token) :
    afterClosing? opening closing depth (tokens ++ more) = some (rest ++ more) := by
  fun_induction afterClosing? opening closing depth tokens <;>
    simp_all [afterClosing?]

end Scan

/-! ### The target of an assignment -/

/-- A target that passes the look-ahead. -/
theorem checkTarget_eq_ok {text : String} {target : List Token} {equal : Token}
    (h : checkTarget text target equal = .ok ()) :
    ∃ name index, target = name :: index ∧ name.kind = .identifier ∧
      (index = [] ∨ ∃ bracket is, index = bracket :: is ∧ bracket.kind = .punctuation .leftBracket ∧
        afterClosing? .leftBracket .rightBracket 1 is = some []) := by
  unfold checkTarget at h
  simp only at h
  split at h
  · cases h
  split at h
  · cases h
  rename_i name index _
  split at h
  · cases h
  rename_i hname
  have hname : name.kind = .identifier := by simpa [Token.isIdentifier] using hname
  refine ⟨name, index, rfl, hname, ?_⟩
  split at h
  · exact .inl rfl
  rename_i bracket is _
  split at h
  · cases h
  rename_i hbracket
  have hbracket : bracket.kind = .punctuation .leftBracket := by
    simpa [Token.isPunctuation] using hbracket
  refine .inr ⟨bracket, is, rfl, hbracket, ?_⟩
  rw [afterClosing?_open hbracket] at h
  split at h
  · cases h
  split at h
  · cases h
  · assumption
  · cases h

/-- The target of an assignment is what stands before the first equals sign. -/
theorem classify_eq_assignment {text : String} {tokens : List Token}
    (h : classify text tokens = .ok .assignment) :
    ∃ target equal rest, tokens = target ++ equal :: rest ∧ equal.kind = .punctuation .equal ∧
      tokens.dropWhile (!·.isPunctuation .equal) = equal :: rest ∧
      checkTarget text target equal = .ok () := by
  have hsplit : tokens.takeWhile (!·.isPunctuation .equal) ++
      tokens.dropWhile (!·.isPunctuation .equal) = tokens := List.takeWhile_append_dropWhile
  have hhead := List.head?_dropWhile_not (!·.isPunctuation .equal) tokens
  unfold classify at h
  split at h
  · rename_i word _ _ _
    cases word <;> cases h
  simp only at h
  split at h
  · cases h
  rename_i equal rest hdrop
  rw [hdrop] at hsplit hhead ⊢
  have hequal : equal.kind = .punctuation .equal := by simpa [Token.isPunctuation] using hhead
  refine ⟨_, equal, rest, hsplit.symm, hequal, rfl, ?_⟩
  cases hcheck : checkTarget text (tokens.takeWhile (!·.isPunctuation .equal)) equal with
  | error d =>
    rw [hcheck] at h
    cases h
  | ok _ => rfl

namespace Action

/-- The part of an assignment before its equals sign. -/
def assigned : Action I O (Token × Option Float) := do
  let name ← parse (Parse.identifier .missingTarget)
  let index ← index?
  return (name, index)

theorem assignment_eq : (assignment : Action I O Flow) = (do
    let (name, index) ← assigned
    let span := name.span.union (← here)
    let _ ← parse (Parse.punctuation .equal .missingEqual)
    let value ← expression
    finish .assignment
    store name index value span
    return .next) := by
  simp only [assignment, assigned, bind_assoc, pure_bind]

/-- An index that is read ends where the scan for its bracket did. -/
theorem leads_subscript_of_scan {w : Work I O} {is rest : List Token} (hw : w.cursor.rest = is ++ rest)
    (hscan : afterClosing? .leftBracket .rightBracket 1 is = some []) :
    Leads subscript w (fun _ w' => w'.cursor.rest = rest)
      (fun d _ => d.cause.isOfExpression = true) := by
  refine leads_subscript (fun x close rest' hx hr hclose => ?_) (fun _ _ _ => rfl)
    fun d hd => isOfExpression_of_evaluate hd
  have hp : Paired .leftBracket .rightBracket := .inr ⟨rfl, rfl⟩
  obtain ⟨read, e, hread, he, -⟩ := exists_derives_of_evaluate hx
  -- both find the bracket that closes the first one: the evaluation in `read`, the scan in `is`
  have hparse : afterClosing? .leftBracket .rightBracket 1 w.cursor.rest = some rest' := by
    rw [hread, hr, he.afterClosing?_append hp, afterClosing?_last hp hclose]
  rw [hw, afterClosing?_append hscan] at hparse
  cases hparse
  rfl

theorem leads_subscript_fault (w : Work I O) : Leads subscript w (fun _ _ => True)
    (fun d _ => (evaluateIndex w.machine.store w.cursor).value = .error d) := by
  unfold Leads subscript evaluating
  cases h : (evaluateIndex w.machine.store w.cursor).value with
  | ok x => simp only [h]
  | error d => simp only [h]

/-- The part of an assignment before its equals sign ends at the first one, unless its index has no value. -/
theorem leads_assigned {text : String} {w : Work I O}
    (hk : classify text w.cursor.rest = .ok .assignment) :
    Leads assigned w
      (fun _ w' => w'.cursor.rest = w.cursor.rest.dropWhile (!·.isPunctuation .equal) ∧
        w'.cursor.isAt .equal = true)
      (fun d _ => d.cause.isOfExpression = true ∧ ∃ name bracket index,
        w.cursor.rest = name :: bracket :: index ∧ bracket.kind = .punctuation .leftBracket ∧
          (evaluateIndex w.machine.store { w.cursor with rest := index }).value = .error d) := by
  obtain ⟨target, equal, rest, hw, hequal, hdrop, hcheck⟩ := classify_eq_assignment hk
  obtain ⟨name, index, rfl, hname, hindex⟩ := checkTarget_eq_ok hcheck
  have hat : ∀ w' : Work I O, w'.cursor.rest = equal :: rest →
      w'.cursor.rest = w.cursor.rest.dropWhile (!·.isPunctuation .equal) ∧
        w'.cursor.isAt .equal = true := by
    intro w' hw'
    refine ⟨hw'.trans hdrop.symm, ?_⟩
    simp [Cursor.isAt, Cursor.peek?, hw', Token.isPunctuation, hequal]
  refine leads_bind.mpr (leads_expect (fun t rest' hr _ => ?_) fun hnone => ?_)
  · rw [hw] at hr
    cases hr
    refine leads_bind.mpr (leads_bind.mpr (leads_skip (fun t rest' hr ht => ?_) fun hnone => ?_))
    · rcases hindex with rfl | ⟨bracket, is, rfl, hbracket, hscan⟩
      · cases hr
        rw [hequal] at ht
        cases ht
      · cases hr
        refine leads_bind.mpr (((leads_subscript_of_scan rfl hscan).and
          (leads_subscript_fault _)).mono (fun _ w' hw' => hat w' hw'.1) fun d _ hd => ?_)
        exact ⟨hd.1, name, t, _, hw, hbracket, hd.2⟩
    · rcases hindex with rfl | ⟨bracket, is, rfl, hbracket, hscan⟩
      · exact hat _ rfl
      · exact absurd hbracket (hnone bracket rfl)
  · have hfalse := hnone name (by rw [hw]; rfl)
    simp [Token.isIdentifier, hname] at hfalse

/-- A value is refused by the store or not at all. -/
theorem leads_store_fault (name : Token) (index : Option Float) (value : Float) (span : Span) (w : Work I O) :
    Leads (store name index value span) w (fun _ _ => True)
      (fun d _ => d.cause.isOfExpression = true) := by
  cases index with
  | none => trivial
  | some index =>
    simp only [Leads, store, assign]
    cases w.machine.store.assign name.lexeme index value with
    | ok s => trivial
    | error e => rfl

/-- The faults of an assignment are those of its expressions, of the store and of its end. -/
theorem leads_assignment {text : String} {w : Work I O}
    (hk : classify text w.cursor.rest = .ok .assignment) :
    Leads assignment w (fun _ _ => True)
      (fun d _ => d.cause.isOfExpression = true ∨ d.cause = .trailing .assignment) := by
  rw [assignment_eq]
  refine (leads_assigned hk).bind (fun x w' ⟨hw', hat⟩ => ?_) fun _ _ hd => .inl hd.1
  refine leads_bind.mpr (leads_here.mpr (leads_bind.mpr ?_))
  refine leads_expect (fun t rest hr ht => ?_) fun hnone => ?_
  · refine leads_bind.mpr (leads_expression (fun value _ => ?_) fun d hd => ?_)
    · refine leads_bind.mpr (leads_finish (fun _ _ _ => ?_) (fun _ _ _ _ _ => .inr rfl)
        fun _ => .inr rfl)
      exact (leads_store_fault _ _ _ _ _).bind (fun _ _ _ => trivial) fun _ _ hd => .inl hd
    · exact .inl (isOfExpression_of_evaluate hd)
  · obtain ⟨t, hpeek, ht⟩ : ∃ t, w'.cursor.peek? = some t ∧ t.isPunctuation .equal = true := by
      simpa [Cursor.isAt, Option.any_eq_true] using hat
    rw [hnone t hpeek] at ht
    cases ht

end Action

/-! ### The condition of a branch -/

/-- Where a condition is read, the partner of the parenthesis it starts with is in it. -/
theorem exists_afterClosing?_of_evaluate {s : Store} {c : Cursor} {x : Float}
    (hx : (evaluate s c).value = .ok x) (hat : c.isAt .leftParen = true) :
    ∃ tail, (∀ t ∈ tail, isElement t.kind = true) ∧
      afterClosing? .leftParen .rightParen 0 c.rest = some (tail ++ (evaluate s c).rest) := by
  obtain ⟨read, e, hread, he, -⟩ := exists_derives_of_evaluate hx
  obtain ⟨b, ts, rfl⟩ := List.exists_cons_of_ne_nil he.ne_nil
  have hb : b.kind = .punctuation .leftParen := by
    simpa [Cursor.isAt, Cursor.peek?, hread, Token.isPunctuation] using hat
  obtain ⟨is, close, tail, htail, -, -, hscan⟩ := he.exists_closing rfl hb
  refine ⟨tail, fun t ht => he.isElement t (by rw [htail]; simp [ht]), ?_⟩
  rw [hread]
  exact hscan _

/-- No expression goes on with `goto`, so the condition ends there. -/
theorem rest_of_evaluate_condition {s : Store} {c : Cursor} {x : Float} {goto : Token}
    {rest : List Token} (hx : (evaluate s c).value = .ok x) (hat : c.isAt .leftParen = true)
    (hscan : afterClosing? .leftParen .rightParen 0 c.rest = some (goto :: rest))
    (hgoto : goto.kind = .keyword .goto) : (evaluate s c).rest = goto :: rest := by
  obtain ⟨tail, htail, hscan'⟩ := exists_afterClosing?_of_evaluate hx hat
  rw [hscan] at hscan'
  have heq := Option.some.inj hscan'
  cases tail with
  | nil => exact heq.symm
  | cons t tail =>
    cases heq
    have helement := htail goto (by simp)
    rw [hgoto] at helement
    cases helement

/-- A token that is in no expression is left for what follows. -/
theorem rest_ne_nil_of_evaluate {s : Store} {c : Cursor} {x : Float} {front : List Token} {t : Token}
    (hx : (evaluate s c).value = .ok x) (hc : c.rest = front ++ [t])
    (ht : t.kind = .punctuation .semicolon) : (evaluate s c).rest ≠ [] := by
  intro hnil
  obtain ⟨read, e, hread, he, -⟩ := exists_derives_of_evaluate hx
  rw [hnil, List.append_nil, hc] at hread
  have helement := he.isElement t (by rw [← hread]; simp)
  rw [ht] at helement
  cases helement

namespace Action

/-- A condition that has passed the look-ahead is followed by `goto`. -/
theorem leads_conditional {w w' : Work I O} {front : List Token} {t : Token}
    (hw : w.cursor.rest = front ++ [t]) (ht : t.kind = .punctuation .semicolon)
    (hcheck : checkCondition w = .ok () w') :
    Leads conditional w (fun _ _ => True) (fun d _ => d.cause ≠ .missingGoto) := by
  have hlooked : Leads checkCondition w
      (fun _ w' => w' = w ∧ w.cursor.isAt .leftParen = true ∧ ∀ t rest,
        afterClosing? .leftParen .rightParen 0 w.cursor.rest = some (t :: rest) →
          t.kind = .keyword .goto) (fun _ _ => True) :=
    leads_checkCondition (fun hat hscan => ⟨rfl, hat, hscan⟩) (fun _ => trivial)
      fun _ _ _ _ _ => trivial
  obtain ⟨rfl, hat, hscan⟩ := hlooked.ok hcheck
  unfold Leads conditional
  rw [bind_apply, hcheck]
  refine leads_bind.mpr (leads_expression (fun x hx => ?_) fun d hd => ?_)
  · refine leads_bind.mpr (leads_expect (fun _ _ _ _ => ?_) fun hnone => ?_)
    · refine leads_bind.mpr (leads_expect (fun label _ _ _ => ?_) fun _ => by simp)
      refine leads_bind.mpr (leads_finish (fun _ _ _ => ?_) (fun _ _ _ _ _ => by simp)
        fun _ => by simp)
      split
      · refine ((silent_target label).quiet _).bind (fun _ _ _ => trivial) fun d _ hkind hcause => ?_
        rw [hcause] at hkind
        cases hkind
      · trivial
    · -- the semicolon is not read, so there is something for the scan to find, and that is `goto`
      obtain ⟨tail, -, hafter⟩ := exists_afterClosing?_of_evaluate hx hat
      obtain ⟨goto, rest, heq⟩ := List.exists_cons_of_ne_nil
        (List.append_ne_nil_of_right_ne_nil tail (rest_ne_nil_of_evaluate hx hw ht))
      rw [heq] at hafter
      have hgoto := hscan goto rest hafter
      have hrest := rest_of_evaluate_condition hx hat hafter hgoto
      have hfalse := hnone goto (by rw [Work.evaluated_rest, hrest]; rfl)
      simp [Token.isKeyword, hgoto] at hfalse
  · intro hcause
    have hof := isOfExpression_of_evaluate hd
    rw [hcause] at hof
    cases hof

end Action

/-- **The look-ahead agrees with what is read.**  An assignment that was classified as one has a target and an
equals sign: what is read before it ends at the first equals sign unless its index has no value, and the count
of its brackets is never negative.  A condition whose parenthesis has no partner is not read, and one that is
read ends at the `goto` behind the partner, so the check that `goto` follows it finds nothing more. -/
theorem lookahead_agrees :
    (∀ (text : String) (w : Work I O), classify text w.cursor.rest = .ok .assignment →
      (∀ d w', Action.assignment w = .error d w' →
        d.cause.message ≠
            "Invalid arithmetic statement. No proper variable or array to assign value to." ∧
          d.cause.message ≠ "Invalid arithmetic statement. '=' is missing.") ∧
      (∀ x w', Action.assigned w = .ok x w' →
        w'.cursor.rest = w.cursor.rest.dropWhile (!·.isPunctuation .equal) ∧
          w'.cursor.isAt .equal = true) ∧
      ∀ d w', Action.assigned w = .error d w' → ∃ name bracket index,
        w.cursor.rest = name :: bracket :: index ∧ bracket.kind = .punctuation .leftBracket ∧
          (evaluateIndex w.machine.store { w.cursor with rest := index }).value = .error d) ∧
    (∀ bracket index, bracket.kind = .punctuation .leftBracket → ∃ front,
      bracket :: index =
        front ++ (afterClosing? .leftBracket .rightBracket 0 (bracket :: index)).getD [] ∧
      (∀ before, before <+: front → 0 ≤ nesting .leftBracket .rightBracket before) ∧
      ((afterClosing? .leftBracket .rightBracket 0 (bracket :: index)).isSome = true ↔
        nesting .leftBracket .rightBracket front = 0)) ∧
    (∀ (s : Store) (c : Cursor), c.isAt .leftParen = true →
      (afterClosing? .leftParen .rightParen 0 c.rest = none → ∃ d, (evaluate s c).value = .error d) ∧
      ∀ goto rest x, afterClosing? .leftParen .rightParen 0 c.rest = some (goto :: rest) →
        goto.kind = .keyword .goto → (evaluate s c).value = .ok x →
          (evaluate s c).rest = goto :: rest) ∧
    ∀ (w : Work I O) (front : List Token) (t : Token), w.cursor.rest = front ++ [t] →
      t.kind = .punctuation .semicolon → ∀ w', Action.checkCondition w = .ok () w' →
        ∀ d w'', Action.conditional w = .error d w'' → d.cause ≠ .missingGoto := by
  refine ⟨fun text w hk => ⟨fun d w' hd => ?_, fun x w' hx => (Action.leads_assigned hk).ok hx,
      fun d w' hd => ((Action.leads_assigned hk).error hd).2⟩,
    fun bracket index hb => nesting_nonneg (.inr ⟨rfl, rfl⟩) hb index,
    fun s c hat => ⟨fun hnone => ?_, fun goto rest x hscan hgoto hx => ?_⟩,
    fun w front t hw ht w' hcheck d w'' hd => (Action.leads_conditional hw ht hcheck).error hd⟩
  · rcases (Action.leads_assignment hk).error hd with hof | htrailing
    · have hne := Cause.message_ne hof
      exact ⟨hne .missingTarget (by decide), hne .missingEqual (by decide)⟩
    · rw [htrailing]
      decide
  · cases hv : (evaluate s c).value with
    | error d => exact ⟨d, rfl⟩
    | ok x =>
      obtain ⟨tail, -, hafter⟩ := exists_afterClosing?_of_evaluate hv hat
      rw [hnone] at hafter
      cases hafter
  · exact rest_of_evaluate_condition hx hat hscan hgoto

/-- An element that is assigned to and a condition: `a[1]` ends at its equals sign and `(1)` at its `goto`, and
the branch fails for its label. -/
theorem lookahead_agrees_element_condition :
    (∃ tokens, tokenize "a[1] = 2;" = .ok tokens ∧ ∃ x w',
      Action.assigned ⟨.ofTokens tokens 9, (.start ⟨#[], ∅⟩ [] .unlimited (.init .warn) : Machine)⟩ =
        .ok x w' ∧
      w'.cursor.rest = tokens.drop 4 ∧ w'.cursor.isAt .equal = true) ∧
    ∃ tokens, tokenize "(1) goto x;" = .ok tokens ∧
      (evaluate .empty (.ofTokens tokens 11)).value = .ok 1 ∧
      (evaluate .empty (.ofTokens tokens 11)).rest = tokens.drop 3 ∧ ∃ d w',
        Action.conditional ⟨.ofTokens tokens 11, (.start ⟨#[], ∅⟩ [] .unlimited (.init .warn) : Machine)⟩ =
          .error d w' ∧
        d.cause ≠ .missingGoto := by
  constructor
  · refine ⟨[⟨.identifier, "a", ⟨0, 1⟩⟩, ⟨.punctuation .leftBracket, "[", ⟨1, 2⟩⟩, ⟨.number 1, "1", ⟨2, 3⟩⟩,
      ⟨.punctuation .rightBracket, "]", ⟨3, 4⟩⟩, ⟨.punctuation .equal, "=", ⟨5, 6⟩⟩,
      ⟨.number 2, "2", ⟨7, 8⟩⟩, ⟨.punctuation .semicolon, ";", ⟨8, 9⟩⟩], by decide +kernel, ?_⟩
    generalize hw : (⟨.ofTokens _ 9, .start ⟨#[], ∅⟩ [] .unlimited (.init .warn)⟩ : Work) = w
    have hread : (match Action.assigned w with | .ok .. => true | .error .. => false) = true := by
      subst hw
      decide +kernel
    have hk : classify "a[1] = 2;" w.cursor.rest = .ok .assignment := by subst hw; decide +kernel
    cases hx : Action.assigned w with
    | ok x w' =>
      obtain ⟨hrest, hat⟩ := (lookahead_agrees.1 _ w hk).2.1 x w' hx
      refine ⟨x, w', rfl, hrest.trans ?_, hat⟩
      subst hw
      decide +kernel
    | error d w' =>
      rw [hx] at hread
      cases hread
  · generalize hts : ([⟨.punctuation .leftParen, "(", ⟨0, 1⟩⟩, ⟨.number 1, "1", ⟨1, 2⟩⟩,
      ⟨.punctuation .rightParen, ")", ⟨2, 3⟩⟩, ⟨.keyword .goto, "goto", ⟨4, 8⟩⟩,
      ⟨.identifier, "x", ⟨9, 10⟩⟩, ⟨.punctuation .semicolon, ";", ⟨10, 11⟩⟩] : List Token) = tokens
    have hvalue : (evaluate .empty (.ofTokens tokens 11)).value = .ok 1 := by subst hts; decide +kernel
    refine ⟨tokens, by subst hts; decide +kernel, hvalue, ?_, ?_⟩
    · subst hts
      have hends := (lookahead_agrees (I := List UInt8) (O := Sink)).2.2.1
      exact (hends .empty (.ofTokens _ 11) rfl).2 _ _ 1 rfl rfl hvalue
    · generalize hw : (⟨.ofTokens tokens 11, .start ⟨#[], ∅⟩ [] .unlimited (.init .warn)⟩ : Work) = w
      have hfails : (match Action.conditional w with | .ok .. => true | .error .. => false) = false := by
        subst hw hts
        decide +kernel
      have hcheck : Action.checkCondition w = .ok () w := by subst hw hts; rfl
      cases hd : Action.conditional w with
      | ok x w' =>
        rw [hd] at hfails
        cases hfails
      | error d w' =>
        refine ⟨d, w', rfl, lookahead_agrees.2.2.2 w (tokens.take 5) ⟨.punctuation .semicolon, ";", ⟨10, 11⟩⟩
          ?_ rfl w hcheck d w' hd⟩
        subst hw hts
        rfl

end Primer
