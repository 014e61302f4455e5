import Primer.Proofs.Machine.Calls

/-!
# The cache of tokens

A statement is read when it is first executed and its tokens are kept.  Only the log can tell.

* `Machine.forget m`: the machine without its cache, which has to read every statement anew.
* `Interpreter.anew`: the interpreter that forgets before every step.
* `Log.tally k log`: how often the log shows the tokens of the statement with the number `k`.
* `Machine.Told log m`: the tokens of the statements in the cache, and of no others, have been shown once
  since `log`.
* `cache_unseen`: sessions with and without the cache are the same.
-/

namespace Primer

variable {I O : Type}

/-! ### Records of tokens -/

/-- The record shows the tokens of the statement with the number `k`. -/
def Record.showsTokens (k : Nat) : Record → Bool
  | .tokenized k' _ => k' = k
  | _ => false

namespace Log

/-- How often the tokens of the statement with the number `k` are shown. -/
def tally (k : Nat) (log : Log) : Nat := log.records.countP (Record.showsTokens k)

theorem note_detail (log : Log) (r : Record) : (log.note r).detail = log.detail := by
  unfold note
  split <;> rfl

theorem tally_note (k : Nat) (log : Log) (r : Record) : (log.note r).tally k =
    log.tally k + if r.detail.rank ≤ log.detail.rank ∧ r.showsTokens k = true then 1 else 0 := by
  unfold note tally
  by_cases hrank : r.detail.rank ≤ log.detail.rank
  · rw [if_pos hrank]
    simp [Array.countP_push, hrank]
  · rw [if_neg hrank]
    simp [hrank]

theorem tally_note_other (k : Nat) (log : Log) {r : Record}
    (hr : ∀ k tokens, r ≠ .tokenized k tokens) : (log.note r).tally k = log.tally k := by
  have hshows : r.showsTokens k = false := by
    cases r with
    | tokenized k' tokens => exact absurd rfl (hr k' tokens)
    | _ => rfl
  rw [tally_note, hshows]
  simp

theorem tally_note_tokenized (k k' : Nat) (log : Log) (tokens : List Token) :
    (log.note (.tokenized k' tokens)).tally k =
      log.tally k + if log.detail = .trace ∧ k' = k then 1 else 0 := by
  have hrank : Detail.trace.rank ≤ log.detail.rank ↔ log.detail = .trace := by
    cases log.detail <;> decide
  rw [tally_note]
  simp [Record.detail, Record.showsTokens, hrank]

end Log

namespace Machine

/-- The machine without its cache, which finds the tokens of a statement in its text alone. -/
def forget (m : Machine I O) : Machine I O := { m with cache := ∅ }

theorem coherent_forget (m : Machine I O) : m.forget.Coherent := by
  intro i tokens hcache
  simp [forget] at hcache

theorem Same.forget {m v : Machine I O} (h : m.Same v) : m.Same v.forget :=
  ⟨h.program, h.store, h.phase, h.counter, h.input, h.sink⟩

/-! ### What statements tell -/

/-- The machines have the same cache, and the same records of tokens. -/
structure Tacit (m m' : Machine I O) : Prop where
  cache : m'.cache = m.cache
  detail : m'.log.detail = m.log.detail
  tally (k : Nat) : m'.log.tally k = m.log.tally k

theorem frame_tacit : Machine.Frame.Whole (I := I) (O := O) Tacit where
  refl _ := ⟨rfl, rfl, fun _ => rfl⟩
  trans h h' := ⟨h'.cache.trans h.cache, h'.detail.trans h.detail,
    fun k => (h'.tally k).trans (h.tally k)⟩
  note m r hr := ⟨rfl, m.log.note_detail r, fun k => m.log.tally_note_other k hr⟩
  sink _ _ := ⟨rfl, rfl, fun _ => rfl⟩
  input _ _ := ⟨rfl, rfl, fun _ => rfl⟩
  store _ _ _ := ⟨rfl, rfl, fun _ => rfl⟩

theorem tacit_follow (m : Machine I O) (flow : Flow) : m.Tacit (m.follow flow).2 := by
  cases flow with
  | jump target =>
    obtain ⟨hcache, hdetail, htally⟩ :=
      frame_tacit.note m (.jumped (m.counter + 1) (target + 1)) (by simp)
    exact ⟨hcache, hdetail, htally⟩
  | next | terminate | stop => exact ⟨rfl, rfl, fun _ => rfl⟩

/-- Since `log`, the tokens of every statement in the cache have been shown once, and no others. -/
structure Told (log : Log) (m : Machine I O) : Prop where
  detail : m.log.detail = log.detail
  tally (i : Nat) : m.log.tally (i + 1) =
    log.tally (i + 1) + if log.detail = .trace ∧ m.cache[i]?.isSome = true then 1 else 0

theorem told_start (p : Program) (input : I) (sink : O) (log : Log) :
    Told log (start p input sink log) :=
  ⟨rfl, fun i => by simp [start]⟩

theorem Told.tacit {log : Log} {m m' : Machine I O} (h : m.Told log) (hm : m.Tacit m') : m'.Told log :=
  ⟨hm.detail.trans h.detail, fun i => by rw [hm.tally, hm.cache, h.tally]⟩

/-- Tokens are shown when they come into the cache. -/
theorem Told.tokensOf {log : Log} {m : Machine I O} (h : m.Told log) (index : Nat) (text : String) :
    (m.tokensOf index text).2.Told log := by
  unfold Machine.tokensOf
  split
  · exact h
  · rename_i hnone
    split
    · exact h
    · rename_i tokens _
      refine ⟨(m.log.note_detail _).trans h.detail, fun i => ?_⟩
      show (m.log.note (.tokenized (index + 1) tokens)).tally (i + 1) = log.tally (i + 1) +
        if log.detail = .trace ∧ (m.cache.insert index tokens)[i]?.isSome = true then 1 else 0
      rw [Log.tally_note_tokenized, h.tally, h.detail, Std.ExtTreeMap.getElem?_insert]
      by_cases hi : index = i
      · subst hi
        simp [hnone]
      · simp [hi]

variable [Reader I] [Writer O]

/-- A statement that has been read adds nothing to the cache. -/
theorem tacit_executeTokens {s : Statement} {tokens : List Token} (ht : tokenize s.text = .ok tokens)
    (m : Machine I O) : m.Tacit (m.executeTokens s tokens).2 := by
  unfold executeTokens
  split
  · exact frame_tacit.refl m
  · rename_i kind hk
    have hnote := frame_tacit.note m (.executing (m.counter + 1) s.line kind s.text) (by simp)
    have hwithin := statement_within frame_tacit ht kind s.text.utf8ByteSize
      (m.note (.executing (m.counter + 1) s.line kind s.text))
    simp only
    split
    · rename_i d w hw
      exact frame_tacit.trans hnote (hwithin.error hw)
    · rename_i flow w hw
      exact frame_tacit.trans hnote (frame_tacit.trans (hwithin.ok hw) (tacit_follow w.machine flow))

theorem Told.step {log : Log} {m : Machine I O} (h : m.Told log) (hm : m.Coherent) : m.step.2.Told log := by
  refine step_preserves h fun s hs => ?_
  have htold := h.tokensOf m.counter s.text
  refine execute_preserves h htold fun tokens hok => htold.tacit (tacit_executeTokens ?_ _)
  rw [← hok, (hm.tokensOf hs).1]

theorem Told.session {log : Log} {m : Machine I O} (h : m.Told log) (hm : m.Coherent)
    (calls : List Call) : (Interpreter.standard.session m calls).2.Told log := by
  refine (session_preserves (P := fun m => m.Coherent ∧ m.Told log) ?_ ?_ calls ⟨hm, h⟩).2
  · rintro m' ⟨hm', h'⟩
    exact ⟨hm'.step.2, h'.step hm'⟩
  · rintro m' ⟨hm', h'⟩
    have hend := frame_tacit.conclude frame_tacit.sink m'
    exact ⟨hm'.of_eq (conclude_alike m').program (conclude_alike m').cache, h'.tacit hend⟩

end Machine

/-! ### Without the cache -/

namespace Interpreter

variable [Writer O]

/-- Steps up to the end. -/
def steps (step : Machine I O → Except Diagnostic Step × Machine I O) :
    Nat → Machine I O → Option (Except Diagnostic Unit) × Machine I O
  | 0, m => (none, m)
  | fuel + 1, m =>
    match step m with
    | (.error d, m) => (some (.error d), m)
    | (.ok .continue, m) => steps step fuel m
    | (.ok .stopped, m) => (some m.conclude.1, m.conclude.2)

theorem steps_step [Reader I] (fuel : Nat) (m : Machine I O) : steps Machine.step fuel m = m.run fuel := by
  induction fuel generalizing m with
  | zero => rfl
  | succ fuel ih =>
    rw [steps, Machine.run]
    obtain ⟨result, m'⟩ := m.step
    cases result with
    | error d => rfl
    | ok step =>
      cases step with
      | «continue» => exact ih m'
      | stopped => rfl

/-- The interpreter that reads the statement anew at every step. -/
def anew [Reader I] : Interpreter I O := ⟨fun m => m.forget.step, steps fun m => m.forget.step⟩

end Interpreter

namespace Machine

variable {m v : Machine I O}

theorem Same.conclude [Writer O] (h : m.Same v) :
    v.conclude.1 = m.conclude.1 ∧ m.conclude.2.Same v.conclude.2 :=
  conclude_both h.sink (fun _ => ⟨h.program, h.store, h.phase, h.counter, h.input, rfl⟩)
    fun r r' hflushed => hflushed.note r r'

variable [Reader I] [Writer O]

theorem Same.steps (h : m.Same v) (hm : m.Coherent) (fuel : Nat) :
    (Interpreter.anew.run fuel v).1 = (m.run fuel).1 ∧
      (m.run fuel).2.Same (Interpreter.anew.run fuel v).2 := by
  show (Interpreter.steps (fun v => v.forget.step) fuel v).1 = _ ∧
    Same _ (Interpreter.steps (fun v => v.forget.step) fuel v).2
  rw [← Interpreter.steps_step]
  induction fuel generalizing m v with
  | zero => exact ⟨rfl, h⟩
  | succ fuel ih =>
    obtain ⟨hresult, hsame⟩ := h.forget.step hm (coherent_forget v)
    have hnext := hm.step.2
    rw [Interpreter.steps, Interpreter.steps]
    generalize m.step = r at hresult hsame hnext
    generalize v.forget.step = r' at hresult hsame
    obtain ⟨result, m'⟩ := r
    obtain ⟨result', v'⟩ := r'
    obtain rfl : result' = result := hresult
    cases result' with
    | error d => exact ⟨rfl, hsame⟩
    | ok step =>
      cases step with
      | «continue» => exact ih hsame hnext
      | stopped =>
        obtain ⟨hconclude, hbehind⟩ := Same.conclude hsame
        exact ⟨congrArg some hconclude, hbehind⟩

theorem Same.session (h : m.Same v) (hm : m.Coherent) (calls : List Call) :
    (Interpreter.anew.session v calls).1 = (Interpreter.standard.session m calls).1 ∧
      (Interpreter.standard.session m calls).2.Same (Interpreter.anew.session v calls).2 := by
  induction calls generalizing m v with
  | nil => exact ⟨rfl, h⟩
  | cons c calls ih =>
    have hcall : (Interpreter.anew.call v c).1 = (Interpreter.standard.call m c).1 ∧
        (Interpreter.standard.call m c).2.Same (Interpreter.anew.call v c).2 ∧
        (Interpreter.standard.call m c).2.Coherent := by
      cases c with
      | step =>
        obtain ⟨hresult, hsame⟩ := h.forget.step hm (coherent_forget v)
        exact ⟨congrArg Answer.stepped hresult, hsame, hm.step.2⟩
      | run fuel =>
        obtain ⟨hresult, hsame⟩ := h.steps hm (fuel + 1)
        exact ⟨congrArg Answer.ran hresult, hsame, (hm.run (fuel + 1)).2⟩
    obtain ⟨hanswer, hsame, hcoherent⟩ := hcall
    obtain ⟨hanswers, hlast⟩ := ih hsame hcoherent
    refine ⟨?_, hlast⟩
    show _ :: _ = _ :: _
    rw [hanswer, hanswers]

/-! ### Statements that cannot be read -/

/-- A statement that cannot be read fails for the same reason at every step; the missing semicolon comes
first. -/
theorem Coherent.step_unread {m : Machine I O} (hm : m.Coherent) (hrunning : m.phase = .running)
    {s : Statement} (hs : m.program.statements[m.counter]? = some s) {d : Diagnostic}
    (hd : tokenize s.text = .error d) :
    m.step.1 = .error ((if isClosed s.text = true then d else
      ⟨.missingSemicolon, .single (s.text.utf8ByteSize - 1), none⟩).within
        ⟨m.counter + 1, s.text, s.offset⟩) := by
  rw [step_eq_execute hs hrunning]
  by_cases hclosed : isClosed s.text = true
  · obtain ⟨htokens, -, -⟩ := hm.tokensOf hs
    rw [execute_of_isClosed hclosed, htokens, hd, if_pos hclosed]
    rfl
  · rw [execute_of_not_isClosed (by simpa using hclosed), if_neg hclosed]
    rfl

/-- **The cache is not seen.**  In every state of a session the cache holds the tokens of statements.  All
answers and all states are those of the interpreter that reads every statement anew.  On the level of traces
the tokens of a statement are shown once it is in the cache, and never again.  A closed statement that cannot
be read fails with its lexical fault whenever a running machine comes to it. -/
theorem cache_unseen (p : Program) (input : I) (sink : O) (log : Log) (calls : List Call) :
    let m₀ := start p input sink log
    let m := (Interpreter.standard.session m₀ calls).2
    (∀ (i : Nat) (tokens : List Token), m.cache[i]? = some tokens →
      ∃ s, p.statements[i]? = some s ∧ tokenize s.text = .ok tokens) ∧
    ((Interpreter.anew.session m₀ calls).1 = (Interpreter.standard.session m₀ calls).1 ∧
      m.Same (Interpreter.anew.session m₀ calls).2) ∧
    (∀ i, m.log.tally (i + 1) = log.tally (i + 1) +
      if log.detail = .trace ∧ m.cache[i]?.isSome = true then 1 else 0) ∧
    ∀ s d, p.statements[m.counter]? = some s → m.phase = .running → tokenize s.text = .error d →
      d.cause.kind = .lexical ∧ m.step.1 = .error ((if isClosed s.text = true then d else
        ⟨.missingSemicolon, .single (s.text.utf8ByteSize - 1), none⟩).within
          ⟨m.counter + 1, s.text, s.offset⟩) := by
  intro m₀ m
  have hstart : m₀.Reachable p := .start input sink log
  obtain ⟨hprogram, hcoherent⟩ : m.program = p ∧ m.Coherent := (hstart.session calls).coherent
  refine ⟨fun i tokens hcache => hprogram ▸ hcoherent i tokens hcache, ?_, ?_, ?_⟩
  · exact (Same.refl m₀).session hstart.coherent.2 calls
  · exact ((told_start p input sink log).session hstart.coherent.2 calls).tally
  · intro s d hs hrunning hd
    exact ⟨(Lexer.placed_of_tokens_error hd).2.1,
      hcoherent.step_unread hrunning (hprogram ▸ hs) hd⟩

/-- A statement that cannot be read and is not closed either fails without a lexical fault. -/
theorem unread_unclosed_not_lexical : ∃ p d d', Program.load "@\nstop;" = .ok p ∧
    p.statements[0]?.map Statement.text = some "@" ∧ tokenize "@" = .error d ∧ d.cause.kind = .lexical ∧
    (start p [] .unlimited (.init .warn) : Machine).step.1 = .error d' ∧ d'.cause.kind = .syntactic := by
  have hread : tokenize "@" = .error ⟨.unrecognized "@", ⟨0, 1⟩, none⟩ := by decide +kernel
  have hload : (Program.load "@\nstop;").toOption.map (fun p => (p.statements[0]?.map Statement.text,
      (start p [] .unlimited (.init .warn) : Machine).step.1)) =
        some (some "@", .error ⟨.missingSemicolon, .single 0, some ⟨1, "@", 0⟩⟩) := by decide +kernel
  cases hp : Program.load "@\nstop;" with
  | error d =>
    rw [hp] at hload
    cases hload
  | ok p =>
    rw [hp] at hload
    obtain ⟨hs, hstep⟩ := Prod.mk.inj (Option.some.inj hload)
    exact ⟨p, _, _, rfl, hs, hread, rfl, hstep, rfl⟩

end Machine

end Primer
