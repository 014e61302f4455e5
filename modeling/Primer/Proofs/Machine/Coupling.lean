import Primer.Proofs.Expression.Terminated
import Primer.Proofs.Machine.Session
import Primer.Proofs.Token.Spans

/-!
# Executions side by side

What a statement does is settled by its tokens, by the store and by what the streams answer.  Two executions of
it are followed side by side, on machines whose streams are as a coupling asks, whatever their caches and logs,
and with texts of any length: where the tokens end in a semicolon, the end of the text is out of sight up to
the last thing that is read.  The executions do the same until they part, which is when the first one fails
and the second one goes on.

* `Coupling`: the streams that are near to each other, and those that have parted.
* `Coupling.Lawful c`: near streams answer alike or part, and what has parted stays so.
* `c.Near m m'`: machines that agree on all but streams, cache and log, with streams that are near.
* `c.Respects ρ σ a`: from works in the relation `ρ`, the action `a` leads to the same outcome and works in the
  relation `σ`, if it does not part them.
* `Coupling.Sound c`: the same of whole texts and numbers, which is all that statements ask.
* `Sound.step`, `Sound.run`: so it is for steps and runs.
-/

namespace Primer

variable {I O : Type}

/-! ### Streams -/

/-- What a machine reads from and writes to. -/
structure Streams (I O : Type) where
  input : I
  sink : O

namespace Streams

def write [Writer O] (text : String) (s : Streams I O) : Except Diagnostic Unit × Streams I O :=
  ((Writer.write s.sink text.toUTF8).1.mapError fun reason => ⟨.unwritable reason, .single 0, none⟩,
    { s with sink := (Writer.write s.sink text.toUTF8).2 })

def flush [Writer O] (s : Streams I O) : Except Diagnostic Unit × Streams I O :=
  ((Writer.flush s.sink).1.mapError fun reason => ⟨.unwritable reason, .single 0, none⟩,
    { s with sink := (Writer.flush s.sink).2 })

def entry [Reader I] (s : Streams I O) : Except Diagnostic Input.Entry × Streams I O :=
  (.ok (Input.entry s.input).1, { s with input := (Input.entry s.input).2 })

end Streams

def Machine.streams (m : Machine I O) : Streams I O := ⟨m.input, m.sink⟩

def Machine.withStreams (m : Machine I O) (s : Streams I O) : Machine I O :=
  { m with input := s.input, sink := s.sink }

namespace Action

/-- Uses the streams. -/
def stream {α : Type} (e : Streams I O → Except Diagnostic α × Streams I O) : Action I O α := fun w =>
  match e w.machine.streams with
  | (.ok x, s) => .ok x { w with machine := w.machine.withStreams s }
  | (.error d, s) => .error d { w with machine := w.machine.withStreams s }

theorem write_eq [Writer O] (text : String) :
    (write text : Action I O Unit) = stream (Streams.write text) := by
  funext w
  unfold write stream Streams.write Machine.streams
  obtain ⟨result, sink⟩ := Writer.write w.machine.sink text.toUTF8
  cases result <;> rfl

theorem flush_eq [Writer O] : (flush : Action I O Unit) = stream Streams.flush := by
  funext w
  unfold flush stream Streams.flush Machine.streams
  obtain ⟨result, sink⟩ := Writer.flush w.machine.sink
  cases result <;> rfl

theorem entry_eq [Reader I] : (entry : Action I O Input.Entry) = stream Streams.entry := rfl

/-- The work that an action leaves behind. -/
def behind {α : Type} : EStateM.Result Diagnostic (Work I O) α → Work I O
  | .ok _ w => w
  | .error _ w => w

theorem Within.behind {α : Type} {R : Machine I O → Machine I O → Prop} {a : Action I O α} (h : Within R a)
    (w : Work I O) : R w.machine (Action.behind (a w)).machine := by
  have hw := h w
  unfold Leads at hw
  generalize a w = r at hw ⊢
  cases r with
  | ok x v => exact hw
  | error d v => exact hw

theorem within_parse {α : Type} {R : Machine I O → Machine I O → Prop} (hR : Machine.Frame R) (p : Parse α) :
    Within R (parse p) :=
  fun w => (leads_parse p).mono (fun _ _ h => h ▸ hR.refl w.machine) fun _ _ h => h ▸ hR.refl w.machine

theorem within_evaluating {R : Machine I O → Machine I O → Prop} (hR : Machine.Frame R)
    (evaluation : Store → Cursor → Expression.Evaluation) : Within R (evaluating evaluation) := by
  intro w
  unfold Leads evaluating
  obtain ⟨value, rest, trace⟩ := evaluation w.machine.store w.cursor
  cases value with
  | ok x => exact hR.noteAll w.machine trace
  | error d => exact hR.noteAll w.machine trace

end Action

/-! ### Couplings -/

/-- Two results are the same and leave states that are near, or the first one is a fault that parts them. -/
def Joined {α S : Type} (near : S → S → Prop) (parted : Diagnostic → S → S → Prop)
    (r r' : Except Diagnostic α × S) : Prop :=
  (r'.1 = r.1 ∧ near r.2 r'.2) ∨ ∃ d, r.1 = .error d ∧ parted d r.2 r'.2

/-- Streams that are near to each other, and streams that have parted with a fault at the first ones. -/
structure Coupling (I O : Type) where
  near : Streams I O → Streams I O → Prop
  parted : Diagnostic → Streams I O → Streams I O → Prop

namespace Coupling

/-- Near streams answer alike or part, and streams that have parted stay so while the second ones are used. -/
structure Lawful [Reader I] [Writer O] (c : Coupling I O) : Prop where
  write {s s' : Streams I O} (text : String) : c.near s s' →
    Joined c.near c.parted (s.write text) (s'.write text)
  flush {s s' : Streams I O} : c.near s s' → Joined c.near c.parted s.flush s'.flush
  entry {s s' : Streams I O} : c.near s s' → Joined c.near c.parted s.entry s'.entry
  parted_write {d : Diagnostic} {s s' : Streams I O} (text : String) : c.parted d s s' →
    c.parted d s (s'.write text).2
  parted_flush {d : Diagnostic} {s s' : Streams I O} : c.parted d s s' → c.parted d s s'.flush.2
  parted_entry {d : Diagnostic} {s s' : Streams I O} : c.parted d s s' → c.parted d s s'.entry.2
  parted_within {d : Diagnostic} {s s' : Streams I O} (context : Context) : c.parted d s s' →
    c.parted (d.within context) s s'

variable (c : Coupling I O)

/-- The machines agree on all but streams, cache and log, and their streams are near. -/
structure Near (m m' : Machine I O) : Prop where
  program : m'.program = m.program
  store : m'.store = m.store
  phase : m'.phase = m.phase
  counter : m'.counter = m.counter
  streams : c.near m.streams m'.streams

/-- The machines have parted with a fault at the first one. -/
def Parted (d : Diagnostic) (m m' : Machine I O) : Prop := c.parted d m.streams m'.streams

/-- What has parted from the first machine has parted from the second one. -/
def Onward (m m' : Machine I O) : Prop := ∀ d s, c.parted d s m.streams → c.parted d s m'.streams

theorem frame_onward : Machine.Frame c.Onward where
  refl _ _ _ h := h
  trans h h' d s hs := h' d s (h d s hs)
  note _ _ _ _ _ h := h

variable {c}

theorem Near.same {m m' n n' : Machine I O} (h : c.Near m m') (hm : m.Same n) (hm' : m'.Same n') :
    c.Near n n' := by
  have hstreams : n.streams = m.streams := by simp [Machine.streams, hm.input, hm.sink]
  have hstreams' : n'.streams = m'.streams := by simp [Machine.streams, hm'.input, hm'.sink]
  refine ⟨?_, ?_, ?_, ?_, ?_⟩
  · rw [hm'.program, hm.program, h.program]
  · rw [hm'.store, hm.store, h.store]
  · rw [hm'.phase, hm.phase, h.phase]
  · rw [hm'.counter, hm.counter, h.counter]
  · rw [hstreams, hstreams']
    exact h.streams

theorem Near.withStore {m m' : Machine I O} (h : c.Near m m') (s : Store) :
    c.Near { m with store := s } { m' with store := s } :=
  ⟨h.program, rfl, h.phase, h.counter, h.streams⟩

theorem Near.note {m m' : Machine I O} (h : c.Near m m') (r r' : Record) : c.Near (m.note r) (m'.note r') :=
  ⟨h.program, h.store, h.phase, h.counter, h.streams⟩

theorem Near.follow {m m' : Machine I O} (h : c.Near m m') (flow : Flow) :
    (m'.follow flow).1 = (m.follow flow).1 ∧ c.Near (m.follow flow).2 (m'.follow flow).2 := by
  have hcounter : m'.counter + 1 = m.counter + 1 := congrArg (· + 1) h.counter
  cases flow with
  | next => exact ⟨rfl, h.program, h.store, h.phase, hcounter, h.streams⟩
  | jump target => exact ⟨rfl, h.program, h.store, h.phase, rfl, h.streams⟩
  | terminate => exact ⟨rfl, h.program, h.store, rfl, hcounter, h.streams⟩
  | stop => exact ⟨rfl, h⟩

end Coupling

/-! ### Actions -/

/-- Works on machines that are near. -/
def Work.Beside (c : Coupling I O) (w w' : Work I O) : Prop := c.Near w.machine w'.machine

/-- Works at the same place of a statement, with the end of the text at the same place or out of sight. -/
structure Work.Paired (c : Coupling I O) (w w' : Work I O) : Prop where
  tokens : w'.cursor.tokens = w.cursor.tokens
  rest : w'.cursor.rest = w.cursor.rest
  sight : w'.cursor.length = w.cursor.length ∨ Terminated w.cursor.rest
  beside : w.Beside c w'

theorem Cursor.ending_eq {c c' : Cursor} (htokens : c'.tokens = c.tokens) (hrest : c'.rest = c.rest)
    (h : c'.length = c.length ∨ c.rest ≠ []) : c'.ending = c.ending := by
  unfold Cursor.ending Cursor.peek?
  rw [hrest, htokens]
  rcases h with hlength | hne
  · rw [hlength]
  · obtain ⟨t, rest, hr⟩ := List.exists_cons_of_ne_nil hne
    rw [hr]
    rfl

namespace Work.Paired

variable {c : Coupling I O} {w w' : Work I O}

theorem here (h : w.Paired c w') : w'.cursor.here = w.cursor.here := by
  unfold Cursor.here
  rw [h.rest]
  rcases h.sight with hlength | hterminated
  · rw [hlength]
  · exact hterminated.spanAt _ _

theorem isAt (h : w.Paired c w') (mark : Punctuation) : w'.cursor.isAt mark = w.cursor.isAt mark := by
  simp only [Cursor.isAt, Cursor.peek?, h.rest]

theorem ahead (h : w.Paired c w') {t : Token} {rest : List Token} (hr : w.cursor.rest = t :: rest)
    (ht : t.kind ≠ .punctuation .semicolon) : (w.ahead rest).Paired c (w'.ahead rest) := by
  refine ⟨h.tokens, rfl, h.sight.imp_right fun hterminated => ?_, h.beside⟩
  rw [hr] at hterminated
  exact hterminated.tail ht

theorem evaluate (h : w.Paired c w') :
    evaluate w'.machine.store w'.cursor = evaluate w.machine.store w.cursor := by
  rw [h.beside.store]
  rcases h.sight with hlength | hterminated
  · unfold Primer.evaluate
    rw [h.here, h.rest, hlength]
  · exact (evaluate_terminated hterminated h.rest _).1

theorem evaluated (h : w.Paired c w') {x : Float}
    (hx : (Primer.evaluate w.machine.store w.cursor).value = .ok x) :
    (w.evaluated (Primer.evaluate w.machine.store w.cursor)).Paired c
      (w'.evaluated (Primer.evaluate w.machine.store w.cursor)) := by
  refine ⟨h.tokens, rfl, h.sight.imp_right fun hterminated => ?_, ?_⟩
  · exact (evaluate_terminated hterminated rfl _).2 x hx
  · exact ⟨h.beside.program, h.beside.store, h.beside.phase, h.beside.counter, h.beside.streams⟩

end Work.Paired

namespace Coupling

open Primer.Action

/-- The same result on works in the relation `σ`, or the same fault, or a fault of the first execution that
parts it from the second one. -/
inductive Coupled (c : Coupling I O) {α : Type} (σ : Work I O → Work I O → Prop) :
    EStateM.Result Diagnostic (Work I O) α → EStateM.Result Diagnostic (Work I O) α → Prop
  | ok (x : α) {w w' : Work I O} (h : σ w w') : Coupled c σ (.ok x w) (.ok x w')
  | error (d : Diagnostic) {w w' : Work I O} (h : w.Beside c w') : Coupled c σ (.error d w) (.error d w')
  | parted (d : Diagnostic) {w : Work I O} {r : EStateM.Result Diagnostic (Work I O) α}
    (h : c.Parted d w.machine (behind r).machine) : Coupled c σ (.error d w) r

/-- From works in the relation `ρ` the action does the same and leads to works in the relation `σ`, if it
does not part them; and what has parted stays so. -/
structure Respects (c : Coupling I O) {α : Type} (ρ σ : Work I O → Work I O → Prop)
    (a : Action I O α) : Prop where
  coupled (w w' : Work I O) : ρ w w' → c.Coupled σ (a w) (a w')
  onward : Within c.Onward a

section Rules

variable {c : Coupling I O} {α β : Type} {ρ σ τ : Work I O → Work I O → Prop} {a : Action I O α}
  {f : α → Action I O β}

theorem Coupled.mono {r r' : EStateM.Result Diagnostic (Work I O) α} (h : c.Coupled ρ r r')
    (hσ : ∀ w w', ρ w w' → σ w w') : c.Coupled σ r r' := by
  cases h with
  | ok x h => exact .ok x (hσ _ _ h)
  | error d h => exact .error d h
  | parted d h => exact .parted d h

theorem Respects.of_imp (h : c.Respects σ τ a) (hρ : ∀ w w', ρ w w' → σ w w') : c.Respects ρ τ a :=
  ⟨fun w w' hw => h.coupled w w' (hρ w w' hw), h.onward⟩

theorem respects_pure (x : α) : c.Respects σ σ (pure x : Action I O α) :=
  ⟨fun _ _ hw => .ok x hw, within_pure c.frame_onward x⟩

/-- Where the first execution fails alone, what follows is done by the second one alone. -/
theorem Respects.bind (ha : c.Respects ρ σ a) (hf : ∀ x, c.Respects σ τ (f x)) :
    c.Respects ρ τ (a >>= f) := by
  refine ⟨fun w w' hw => ?_, ha.onward.bind c.frame_onward fun x => (hf x).onward⟩
  have hstep := ha.coupled w w' hw
  rw [bind_apply, bind_apply]
  generalize a w = r at hstep
  generalize a w' = r' at hstep
  cases hstep with
  | ok x h => exact (hf x).coupled _ _ h
  | error d h => exact .error d h
  | parted d h =>
    refine .parted d ?_
    cases r' with
    | error d' v' => exact h
    | ok y v' => exact (hf y).onward.behind v' d _ h

theorem respects_get {f : Work I O → Action I O β} (h : ∀ w w', ρ w w' → c.Coupled σ (f w w) (f w' w'))
    (honward : ∀ w, Within c.Onward (f w)) : c.Respects ρ σ (get >>= f) :=
  ⟨h, fun w => honward w w⟩

theorem respects_ite {p : Prop} [Decidable p] {a' : Action I O α} (ha : c.Respects ρ σ a)
    (ha' : c.Respects ρ σ a') : c.Respects ρ σ (if p then a else a') := by
  split
  · exact ha
  · exact ha'

/-- What is done to the machines is the same wherever the statement is. -/
structure Uniform (c : Coupling I O) {α : Type} (a : Action I O α) : Prop where
  coupled (w w' : Work I O) : w.Beside c w' →
    c.Coupled (fun v v' => v.Beside c v' ∧ v.cursor = w.cursor ∧ v'.cursor = w'.cursor) (a w) (a w')
  onward : Within c.Onward a

theorem Uniform.beside (h : c.Uniform a) : c.Respects (Work.Beside c) (Work.Beside c) a :=
  ⟨fun w w' hw => (h.coupled w w' hw).mono fun _ _ hv => hv.1, h.onward⟩

theorem Uniform.paired (h : c.Uniform a) : c.Respects (Work.Paired c) (Work.Paired c) a := by
  refine ⟨fun w w' hw => (h.coupled w w' hw.beside).mono ?_, h.onward⟩
  rintro v v' ⟨hv, hc, hc'⟩
  refine ⟨?_, ?_, ?_, hv⟩
  · rw [hc, hc', hw.tokens]
  · rw [hc, hc', hw.rest]
  · rw [hc, hc']
    exact hw.sight

theorem uniform_pure (x : α) : c.Uniform (pure x : Action I O α) :=
  ⟨fun _ _ hw => .ok x ⟨hw, rfl, rfl⟩, within_pure c.frame_onward x⟩

theorem uniform_fail (cause : Cause) (span : Span) : c.Uniform (fail cause span : Action I O α) :=
  ⟨fun _ _ hw => .error _ hw, within_fail c.frame_onward cause span⟩

theorem Uniform.bind (ha : c.Uniform a) (hf : ∀ x, c.Uniform (f x)) : c.Uniform (a >>= f) := by
  refine ⟨fun w w' hw => ?_, ha.onward.bind c.frame_onward fun x => (hf x).onward⟩
  have hfirst : c.Respects (fun v v' => v = w ∧ v' = w')
      (fun v v' => v.Beside c v' ∧ v.cursor = w.cursor ∧ v'.cursor = w'.cursor) a := by
    refine ⟨?_, ha.onward⟩
    rintro v v' ⟨rfl, rfl⟩
    exact ha.coupled v v' hw
  refine (hfirst.bind fun x => ⟨?_, (hf x).onward⟩).coupled w w' ⟨rfl, rfl⟩
  rintro v v' ⟨hv, hc, hc'⟩
  refine ((hf x).coupled v v' hv).mono ?_
  rintro u u' ⟨hu, hcu, hcu'⟩
  exact ⟨hu, hcu.trans hc, hcu'.trans hc'⟩

end Rules

/-! ### Effects -/

section Effects

variable {c : Coupling I O}

/-- What near streams answer alike, actions do alike. -/
theorem uniform_stream {α : Type} {e : Streams I O → Except Diagnostic α × Streams I O}
    (he : ∀ s s', c.near s s' → Joined c.near c.parted (e s) (e s'))
    (honward : ∀ d s s', c.parted d s s' → c.parted d s (e s').2) : c.Uniform (stream e) := by
  constructor
  · intro w w' hw
    have hjoined := he _ _ hw.streams
    unfold stream
    generalize e w.machine.streams = r at hjoined
    generalize e w'.machine.streams = r' at hjoined
    obtain ⟨result, s⟩ := r
    obtain ⟨result', s'⟩ := r'
    rcases hjoined with ⟨hresult, hnear⟩ | ⟨d, hresult, hparted⟩
    · obtain rfl : result' = result := hresult
      have hbeside : Work.Beside c { w with machine := w.machine.withStreams s }
          { w' with machine := w'.machine.withStreams s' } :=
        ⟨hw.program, hw.store, hw.phase, hw.counter, hnear⟩
      cases result' with
      | ok x => exact .ok x ⟨hbeside, rfl, rfl⟩
      | error d => exact .error d hbeside
    · obtain rfl : result = .error d := hresult
      refine .parted d ?_
      cases result' with
      | ok x => exact hparted
      | error d' => exact hparted
  · intro w
    have hbehind := fun d s => honward d s w.machine.streams
    unfold Leads stream
    generalize e w.machine.streams = r at hbehind
    obtain ⟨result, s'⟩ := r
    cases result with
    | ok x => exact hbehind
    | error d => exact hbehind

theorem uniform_write [Reader I] [Writer O] (hc : c.Lawful) (text : String) :
    c.Uniform (write text) := by
  rw [write_eq]
  exact uniform_stream (fun _ _ => hc.write text) fun _ _ _ => hc.parted_write text

theorem uniform_flush [Reader I] [Writer O] (hc : c.Lawful) : c.Uniform flush := by
  rw [flush_eq]
  exact uniform_stream (fun _ _ => hc.flush) fun _ _ _ => hc.parted_flush

theorem uniform_entry [Reader I] [Writer O] (hc : c.Lawful) : c.Uniform entry := by
  rw [entry_eq]
  exact uniform_stream (fun _ _ => hc.entry) fun _ _ _ => hc.parted_entry

theorem uniform_note {r : Record} (hr : ∀ k tokens, r ≠ .tokenized k tokens) : c.Uniform (note r) :=
  ⟨fun _ _ hw => .ok () ⟨hw.note r r, rfl, rfl⟩, within_note c.frame_onward hr⟩

theorem uniform_store (name : Token) (index : Option Float) (value : Float) (span : Span) :
    c.Uniform (store name index value span) := by
  constructor
  · intro w w' hw
    cases index with
    | none =>
      have hstore : w'.machine.store.record name.lexeme value =
        w.machine.store.record name.lexeme value := congrArg (·.record name.lexeme value) hw.store
      exact .ok () ⟨⟨hw.program, hstore, hw.phase, hw.counter, hw.streams⟩, rfl, rfl⟩
    | some index =>
      simp only [store, assign]
      rw [hw.store]
      cases w.machine.store.assign name.lexeme index value with
      | ok s => exact .ok () ⟨hw.withStore s, rfl, rfl⟩
      | error e => exact .error _ hw
  · intro w
    cases index with
    | none => exact fun _ _ h => h
    | some index =>
      simp only [Leads, store, assign]
      cases w.machine.store.assign name.lexeme index value with
      | ok s => exact fun _ _ h => h
      | error e => exact fun _ _ h => h

theorem uniform_declare (name : Token) (size : Float) (span : Span) :
    c.Uniform (declare name size span) := by
  constructor
  · intro w w' hw
    unfold declare
    rw [hw.store]
    cases w.machine.store.declare name.lexeme size with
    | ok r => exact .ok r.1 ⟨hw.withStore r.2, rfl, rfl⟩
    | error e => exact .error _ hw
  · intro w
    unfold Leads declare
    cases w.machine.store.declare name.lexeme size with
    | ok r => exact fun _ _ h => h
    | error e => exact fun _ _ h => h

theorem uniform_target (label : Token) : c.Uniform (target label) := by
  refine ⟨fun w w' hw => ?_, within_target c.frame_onward label⟩
  have hprogram : w'.machine.program = w.machine.program := hw.program
  cases h : w.machine.program.location? label.lexeme with
  | some i =>
    rw [target_of_some h, target_of_some (by rw [hprogram, h])]
    exact (uniform_pure i).coupled w w' hw
  | none =>
    rw [target_of_none h, target_of_none (by rw [hprogram, h])]
    exact (uniform_fail _ _).coupled w w' hw

/-- Reading for a value is the same, if taking an entry and going on with it is: what follows the end of the
input is a fault. -/
theorem uniform_readNumber_of [Reader I] [Writer O] {name : Token} (hflush : c.Uniform flush)
    (hentry : ∀ f : Input.Entry → Action I O Float, (∀ entry, c.Uniform (f entry)) →
      f .ended = fail (.endOfInput name.lexeme) name.span → c.Uniform (entry >>= f)) :
    c.Uniform (readNumber name) := by
  refine hflush.bind fun _ => hentry _ (fun entry => ?_) rfl
  split
  · exact uniform_fail _ _
  · exact uniform_fail _ _
  · split
    · exact uniform_pure _
    · exact uniform_fail _ _

theorem uniform_readNumber [Reader I] [Writer O] (hc : c.Lawful) (name : Token) :
    c.Uniform (readNumber name) :=
  uniform_readNumber_of (uniform_flush hc) fun _ hf _ => (uniform_entry hc).bind hf

/-- What statements ask of a coupling: near streams take texts and give numbers alike or part, and a fault that
has parted them does so wherever it is pinned. -/
structure Sound [Reader I] [Writer O] (c : Coupling I O) : Prop where
  write (text : String) : c.Uniform (write text)
  number (name : Token) : c.Uniform (readNumber name)
  flush {s s' : Streams I O} : c.near s s' → Joined c.near c.parted s.flush s'.flush
  parted_flush {d : Diagnostic} {s s' : Streams I O} : c.parted d s s' → c.parted d s s'.flush.2
  parted_within {d : Diagnostic} {s s' : Streams I O} (context : Context) : c.parted d s s' →
    c.parted (d.within context) s s'

theorem Lawful.sound [Reader I] [Writer O] (hc : c.Lawful) : c.Sound :=
  ⟨uniform_write hc, uniform_readNumber hc, hc.flush, hc.parted_flush, hc.parted_within⟩

end Effects

/-! ### Reading tokens -/

section Tokens

variable {c : Coupling I O}

theorem respects_here : c.Respects (Work.Paired c) (Work.Paired c) here := by
  refine ⟨fun w w' hw => ?_, fun w => c.frame_onward.refl w.machine⟩
  show c.Coupled _ (.ok w.cursor.here w) (.ok w'.cursor.here w')
  rw [hw.here]
  exact .ok _ hw

/-- What has been looked at is still there. -/
theorem respects_peek? {β : Type} {σ : Work I O → Work I O → Prop} {f : Option Token → Action I O β}
    (h : ∀ o, c.Respects (fun w w' => w.Paired c w' ∧ w.cursor.rest.head? = o) σ (f o)) :
    c.Respects (Work.Paired c) σ (peek? >>= f) := by
  refine ⟨fun w w' hw => ?_, fun w => (h w.cursor.peek?).onward w⟩
  have hpeek : w'.cursor.peek? = w.cursor.peek? := congrArg List.head? hw.rest
  have hf := (h w.cursor.peek?).coupled w w' ⟨hw, rfl⟩
  show c.Coupled σ (f w.cursor.peek? w) (f w'.cursor.peek? w')
  rwa [hpeek]

/-- A token that is no semicolon can be passed. -/
theorem respects_advance : c.Respects
    (fun w w' => w.Paired c w' ∧ ∀ t ∈ w.cursor.rest.head?, t.kind ≠ .punctuation .semicolon)
    (Work.Paired c) (parse Parse.advance) := by
  refine ⟨?_, within_parse c.frame_onward _⟩
  rintro w w' ⟨hw, hhead⟩
  have hpeek : w'.cursor.peek? = w.cursor.peek? := congrArg List.head? hw.rest
  show c.Coupled _ (.ok w.cursor.peek? (w.ahead w.cursor.rest.tail))
    (.ok w'.cursor.peek? (w'.ahead w'.cursor.rest.tail))
  rw [hpeek, hw.rest]
  refine .ok _ ?_
  cases hr : w.cursor.rest with
  | nil =>
    refine ⟨hw.tokens, rfl, hw.sight.imp_right fun hterminated => ?_, hw.beside⟩
    rw [hr] at hterminated
    exact hterminated
  | cons t rest => exact hw.ahead hr (hhead t (by simp [hr]))

theorem respects_expect {p : Token → Bool} (hp : ∀ t, p t = true → t.kind ≠ .punctuation .semicolon)
    (cause : Cause) : c.Respects (Work.Paired c) (Work.Paired c) (parse (Parse.expect p cause)) := by
  refine ⟨fun w w' hw => ?_, within_parse c.frame_onward _⟩
  have hhere := hw.here
  unfold parse Parse.expect
  rw [hw.rest, hhere]
  cases hr : w.cursor.rest with
  | nil => exact .error _ hw.beside
  | cons t rest =>
    by_cases ht : p t = true
    · simp only [ht, if_true]
      exact .ok t (hw.ahead hr (hp t ht))
    · simp only [ht]
      exact .error _ hw.beside

theorem respects_punctuation {mark : Punctuation} (hmark : mark ≠ .semicolon) (cause : Cause) :
    c.Respects (Work.Paired c) (Work.Paired c) (parse (Parse.punctuation mark cause)) :=
  respects_expect (fun _ ht => Token.kind_ne_of_isPunctuation ht hmark) cause

theorem respects_keyword (word : Keyword) (cause : Cause) :
    c.Respects (Work.Paired c) (Work.Paired c) (parse (Parse.keyword word cause)) := by
  refine respects_expect (fun t ht => ?_) cause
  have hkind : t.kind = .keyword word := by simpa [Token.isKeyword] using ht
  simp [hkind]

theorem respects_identifier (cause : Cause) :
    c.Respects (Work.Paired c) (Work.Paired c) (parse (Parse.identifier cause)) := by
  refine respects_expect (fun t ht => ?_) cause
  have hkind : t.kind = .identifier := by simpa [Token.isIdentifier] using ht
  simp [hkind]

theorem respects_skip {mark : Punctuation} (hmark : mark ≠ .semicolon) :
    c.Respects (Work.Paired c) (Work.Paired c) (parse (Parse.skip mark)) := by
  refine ⟨fun w w' hw => ?_, within_parse c.frame_onward _⟩
  have hat := hw.isAt mark
  unfold parse Parse.skip
  rw [hat, hw.rest]
  by_cases h : w.cursor.isAt mark = true
  · simp only [h, if_true]
    cases hr : w.cursor.rest with
    | nil => simp [Cursor.isAt, Cursor.peek?, hr] at h
    | cons t rest =>
      have ht : t.isPunctuation mark = true := by simpa [Cursor.isAt, Cursor.peek?, hr] using h
      exact .ok true (hw.ahead hr (Token.kind_ne_of_isPunctuation ht hmark))
  · simp only [h]
    exact .ok false hw

/-- The last thing that is read of a statement. -/
theorem respects_finish (kind : StatementKind) :
    c.Respects (Work.Paired c) (Work.Beside c) (finish kind) := by
  refine ⟨fun w w' hw => ?_, within_parse c.frame_onward _⟩
  have hat := hw.isAt .semicolon
  rw [finish_apply, finish_apply, hat, hw.rest]
  by_cases h : w.cursor.isAt .semicolon = true
  · simp only [h, if_true]
    cases hr : w.cursor.rest.tail with
    | nil => exact .ok () hw.beside
    | cons t rest => exact .error _ hw.beside
  · have hending : w'.cursor.ending = w.cursor.ending := by
      refine Cursor.ending_eq hw.tokens hw.rest (hw.sight.imp_right fun hterminated hnil => ?_)
      obtain ⟨t, rest, hr⟩ := hterminated.exists_cons
      rw [hr] at hnil
      cases hnil
    simp only [h, hending]
    exact .error _ hw.beside

/-- The look-ahead of `if` sees the same. -/
theorem respects_checkGoto (o : Option (List Token)) :
    c.Respects (Work.Paired c) (Work.Paired c) (match o with
      | some (t :: _) => if !t.isKeyword .goto then fail .missingGoto t.span else pure ()
      | _ => pure () : Action I O Unit) := by
  split
  · exact respects_ite (uniform_fail _ _).paired (respects_pure ())
  · exact respects_pure ()

theorem respects_checkCondition : c.Respects (Work.Paired c) (Work.Paired c) checkCondition := by
  refine respects_get (fun w w' hw => ?_) fun w => ?_
  · simp only [hw.isAt, hw.rest, hw.here]
    split
    · exact .error _ hw.beside
    · exact (respects_checkGoto _).coupled w w' hw
  · simp only
    split
    · exact (within_fail c.frame_onward _ _).bind c.frame_onward fun _ => (respects_checkGoto _).onward
    · exact (respects_checkGoto _).onward

end Tokens

/-! ### Values -/

section Values

variable {c : Coupling I O}

theorem respects_expression : c.Respects (Work.Paired c) (Work.Paired c) expression := by
  refine ⟨fun w w' hw => ?_, within_evaluating c.frame_onward evaluate⟩
  have hevaluated := fun x => hw.evaluated (x := x)
  unfold expression evaluating
  simp only [hw.evaluate]
  generalize evaluate w.machine.store w.cursor = e at hevaluated
  obtain ⟨value, rest, trace⟩ := e
  cases value with
  | ok x => exact .ok x (hevaluated x rfl)
  | error d =>
    have hw := hw.beside
    exact .error d ⟨hw.program, hw.store, hw.phase, hw.counter, hw.streams⟩

theorem respects_subscript : c.Respects (Work.Paired c) (Work.Paired c) subscript := by
  rw [subscript_eq]
  refine respects_expression.bind fun x => ?_
  exact (respects_punctuation (by simp) _).bind fun _ => respects_pure x

theorem respects_index? : c.Respects (Work.Paired c) (Work.Paired c) index? := by
  refine (respects_skip (by simp)).bind fun opened => respects_ite ?_ (respects_pure none)
  exact respects_subscript.bind fun x => respects_pure (some x)

end Values

/-! ### Statements -/

section Statements

variable {c : Coupling I O}

theorem respects_separated {item : Action I O Unit} (h : c.Respects (Work.Paired c) (Work.Paired c) item)
    (fuel : Nat) : c.Respects (Work.Paired c) (Work.Paired c) (separated item fuel) := by
  induction fuel with
  | zero => exact respects_pure ()
  | succ fuel ih =>
    refine h.bind fun _ => (respects_skip (by simp)).bind fun more => ?_
    exact respects_ite ih (respects_pure ())

theorem respects_assignment : c.Respects (Work.Paired c) (Work.Beside c) assignment := by
  refine (respects_identifier _).bind fun name => respects_index?.bind fun index => ?_
  refine respects_here.bind fun here => (respects_punctuation (by simp) _).bind fun _ => ?_
  refine respects_expression.bind fun value => (respects_finish _).bind fun _ => ?_
  exact (uniform_store name index value _).beside.bind fun _ => respects_pure _

theorem respects_conditional : c.Respects (Work.Paired c) (Work.Beside c) conditional := by
  refine respects_checkCondition.bind fun _ => respects_expression.bind fun condition => ?_
  refine (respects_keyword _ _).bind fun _ => (respects_identifier _).bind fun label => ?_
  refine (respects_finish _).bind fun _ => respects_ite ?_ (respects_pure _)
  exact (uniform_target label).beside.bind fun i => respects_pure _

theorem respects_goto : c.Respects (Work.Paired c) (Work.Beside c) goto := by
  refine (respects_identifier _).bind fun label => (respects_finish _).bind fun _ => ?_
  exact (uniform_target label).beside.bind fun i => respects_pure _

theorem respects_arrayName : c.Respects (Work.Paired c) (Work.Paired c) arrayName := by
  refine respects_peek? fun o => Respects.of_imp ?_ fun w w' hw => hw.1
  split
  · exact respects_identifier _
  · exact respects_identifier _

theorem respects_dim : c.Respects (Work.Paired c) (Work.Beside c) dim := by
  refine respects_arrayName.bind fun name => (respects_punctuation (by simp) _).bind fun _ => ?_
  refine respects_expression.bind fun size => (respects_punctuation (by simp) _).bind fun _ => ?_
  refine respects_here.bind fun here => (respects_finish _).bind fun _ => ?_
  refine (uniform_declare name size _).beside.bind fun n => ?_
  exact (uniform_note (by simp)).beside.bind fun _ => respects_pure _

/-- A string is passed, as it is no semicolon. -/
theorem respects_string {α : Type} {σ : Work I O → Work I O → Prop} {t : Token}
    {f : Option Token → Action I O α}
    (ht : t.isString = true) (hf : ∀ o, c.Respects (Work.Paired c) σ (f o)) :
    c.Respects (fun w w' => w.Paired c w' ∧ w.cursor.rest.head? = some t) σ
      (parse Parse.advance >>= f) := by
  have hkind : t.kind = .string := by simpa [Token.isString] using ht
  refine (respects_advance.of_imp fun w w' hw => ⟨hw.1, fun t' ht' => ?_⟩).bind hf
  rw [hw.2] at ht'
  cases ht'
  simp [hkind]

theorem respects_printItem [Reader I] [Writer O] (hc : c.Sound) :
    c.Respects (Work.Paired c) (Work.Paired c) printItem := by
  have hinvalid : c.Respects (Work.Paired c) (Work.Paired c)
      (do fail .invalidPrint (← here) : Action I O Unit) :=
    respects_here.bind fun here => (uniform_fail _ here).paired
  refine respects_peek? fun o => ?_
  split
  · rename_i t
    split
    · rename_i ht
      exact respects_string ht fun _ => (hc.write _).paired
    · refine Respects.of_imp (respects_ite ?_ hinvalid) fun w w' hw => hw.1
      exact respects_expression.bind fun value => (hc.write _).paired
  · exact hinvalid.of_imp fun w w' hw => hw.1

theorem respects_print [Reader I] [Writer O] (hc : c.Sound) :
    c.Respects (Work.Paired c) (Work.Beside c) print := by
  have hitems : ∀ n, c.Respects (Work.Paired c) (Work.Beside c)
      (do printItems n; write "\n"; finish .print; return .next : Action I O Flow) := by
    intro n
    rw [printItems_eq]
    refine (respects_separated (respects_printItem hc) n).bind fun _ => ?_
    exact (hc.write _).paired.bind fun _ => (respects_finish _).bind fun _ => respects_pure _
  refine respects_get (fun w w' hw => ?_) fun w => (hitems _).onward
  rw [hw.rest]
  exact (hitems _).coupled w w' hw

theorem respects_readTarget [Reader I] [Writer O] (hc : c.Sound) :
    c.Respects (Work.Paired c) (Work.Paired c) readTarget := by
  refine (respects_identifier _).bind fun name => (hc.number name).paired.bind fun value => ?_
  refine respects_index?.bind fun index => respects_here.bind fun here => ?_
  exact (uniform_store name index value _).paired

theorem respects_prompt [Reader I] [Writer O] (hc : c.Sound) :
    c.Respects (Work.Paired c) (Work.Paired c) prompt := by
  refine respects_peek? fun o => ?_
  split
  · rename_i t
    split
    · rename_i ht
      refine respects_string ht fun _ => (hc.write _).paired.bind fun _ => ?_
      exact (respects_punctuation (by simp) _).bind fun _ => respects_pure _
    · exact (respects_pure _).of_imp fun w w' hw => hw.1
  · exact (respects_pure _).of_imp fun w w' hw => hw.1

theorem respects_read [Reader I] [Writer O] (hc : c.Sound) :
    c.Respects (Work.Paired c) (Work.Beside c) read := by
  have htargets : ∀ n, c.Respects (Work.Paired c) (Work.Beside c)
      (do readTargets n; finish .read; return .next : Action I O Flow) := by
    intro n
    rw [readTargets_eq]
    refine (respects_separated (respects_readTarget hc) n).bind fun _ => ?_
    exact (respects_finish _).bind fun _ => respects_pure _
  refine (respects_prompt hc).bind fun _ => respects_get (fun w w' hw => ?_) fun w => (htargets _).onward
  rw [hw.rest]
  exact (htargets _).coupled w w' hw

/-- The outcome of a statement. -/
theorem respects_statement [Reader I] [Writer O] (hc : c.Sound) (kind : StatementKind) :
    c.Respects (Work.Paired c) (Work.Beside c) (statement kind) := by
  cases kind with
  | assignment => exact respects_assignment
  | «if» => exact (respects_keyword _ _).bind fun _ => respects_conditional
  | goto => exact (respects_keyword _ _).bind fun _ => respects_goto
  | dim => exact (respects_keyword _ _).bind fun _ => respects_dim
  | print => exact (respects_keyword _ _).bind fun _ => respects_print hc
  | read => exact (respects_keyword _ _).bind fun _ => respects_read hc
  | stop => exact (respects_keyword _ _).bind fun _ => (respects_finish _).bind fun _ => respects_pure _
  | «end» => exact (respects_keyword _ _).bind fun _ => (respects_finish _).bind fun _ => respects_pure _

end Statements

end Coupling

/-! ### Steps -/

namespace Machine

/-- The tokens of a closed text end in a semicolon. -/
theorem terminated_of_isClosed {text : String} {tokens : List Token} (hclosed : isClosed text = true)
    (ht : tokenize text = .ok tokens) : Terminated tokens :=
  (lexed_of_tokenize ht).exists_semicolon (by simpa [isClosed] using hclosed)

theorem tokensOf_streams (m : Machine I O) (index : Nat) (text : String) :
    (m.tokensOf index text).2.streams = m.streams := by
  unfold tokensOf
  split
  · rfl
  · split <;> rfl

theorem follow_streams (m : Machine I O) (flow : Flow) : (m.follow flow).2.streams = m.streams := by
  cases flow <;> rfl

theorem conclude_eq [Writer O] (m : Machine I O) : m.conclude = match m.streams.flush with
    | (.ok (), s) => (.ok (), (m.withStreams s).note (.stopped (m.counter + 1)))
    | (.error d, s) => (.error d, m.withStreams s) := by
  unfold conclude Streams.flush streams
  obtain ⟨result, sink⟩ := Writer.flush m.sink
  cases result <;> rfl

end Machine

namespace Coupling

variable [Reader I] [Writer O] {c : Coupling I O} {m m' : Machine I O}

/-- Two executions of a closed statement. -/
theorem Sound.statement (hc : c.Sound) {text : String} {tokens : List Token}
    (hclosed : Machine.isClosed text = true) (ht : tokenize text = .ok tokens) (kind : StatementKind)
    (h : c.Near m m') (length length' : Nat) :
    c.Coupled (Work.Beside c) (Action.statement kind ⟨.ofTokens tokens length, m⟩)
      (Action.statement kind ⟨.ofTokens tokens length', m'⟩) := by
  exact (respects_statement hc kind).coupled _ _
    ⟨rfl, rfl, .inr (Machine.terminated_of_isClosed hclosed ht), h⟩

theorem Sound.executeTokens (hc : c.Sound) {s : Statement} {tokens : List Token}
    (hclosed : Machine.isClosed s.text = true) (ht : tokenize s.text = .ok tokens) (h : c.Near m m') :
    Joined c.Near c.Parted (m.executeTokens s tokens) (m'.executeTokens s tokens) := by
  unfold Machine.executeTokens
  cases hk : classify s.text tokens with
  | error d => exact .inl ⟨rfl, h⟩
  | ok kind =>
    have hcoupled := hc.statement hclosed ht kind (h.note (.executing (m.counter + 1) s.line kind s.text)
      (.executing (m'.counter + 1) s.line kind s.text)) s.text.utf8ByteSize s.text.utf8ByteSize
    simp only
    generalize Action.statement (I := I) (O := O) kind _ = r at hcoupled ⊢
    generalize Action.statement (I := I) (O := O) kind _ = r' at hcoupled ⊢
    cases hcoupled with
    | @ok flow w w' hw =>
      obtain ⟨hstep, hnear⟩ := Near.follow hw flow
      exact .inl ⟨congrArg Except.ok hstep, hnear⟩
    | error d hw => exact .inl ⟨rfl, hw⟩
    | parted d hw =>
      refine .inr ⟨d, rfl, ?_⟩
      cases r' with
      | error d' w' => exact hw
      | ok flow w' =>
        show c.parted d _ (w'.machine.follow flow).2.streams
        rw [Machine.follow_streams]
        exact hw

theorem Sound.execute (hc : c.Sound) (h : c.Near m m') (hm : m.Coherent) (hm' : m'.Coherent)
    {s : Statement} (hs : m.program.statements[m.counter]? = some s) :
    Joined c.Near c.Parted (m.execute s) (m'.execute s) := by
  have hs' : m'.program.statements[m'.counter]? = some s := by rw [h.program, h.counter, hs]
  by_cases hclosed : Machine.isClosed s.text = true
  · obtain ⟨htokens, hsame, -⟩ := hm.tokensOf hs
    obtain ⟨htokens', hsame', -⟩ := hm'.tokensOf hs'
    have hnear := h.same hsame hsame'
    rw [Machine.execute_of_isClosed hclosed, Machine.execute_of_isClosed hclosed, htokens, htokens']
    cases ht : tokenize s.text with
    | error d => exact .inl ⟨rfl, hnear⟩
    | ok tokens => exact hc.executeTokens hclosed ht hnear
  · have hclosed : Machine.isClosed s.text = false := by simpa using hclosed
    rw [Machine.execute_of_not_isClosed hclosed, Machine.execute_of_not_isClosed hclosed]
    exact .inl ⟨rfl, h⟩

/-- A step from near machines. -/
theorem Sound.step (hc : c.Sound) (h : c.Near m m') (hm : m.Coherent) (hm' : m'.Coherent) :
    Joined c.Near c.Parted m.step m'.step := by
  have hlookup : m'.program.statements[m'.counter]? = m.program.statements[m.counter]? := by
    rw [h.program, h.counter]
  cases hs : m.program.statements[m.counter]? with
  | none =>
    rw [hs] at hlookup
    rw [Machine.step_eq_of_none hs, Machine.step_eq_of_none hlookup]
    exact .inl ⟨rfl, h⟩
  | some s =>
    rw [hs] at hlookup
    cases hp : m.phase with
    | terminated =>
      rw [Machine.step_eq_of_terminated hs hp,
        Machine.step_eq_of_terminated hlookup (h.phase.trans hp), h.counter]
      exact .inl ⟨rfl, h⟩
    | running =>
      rw [Machine.step_eq_execute hs hp, Machine.step_eq_execute hlookup (h.phase.trans hp), h.counter]
      rcases hc.execute h hm hm' hs with ⟨hresult, hnear⟩ | ⟨d, hresult, hparted⟩
      · refine .inl ⟨?_, hnear⟩
        show Except.mapError _ (m'.execute s).1 = Except.mapError _ (m.execute s).1
        rw [hresult]
      · refine .inr ⟨d.within ⟨m.counter + 1, s.text, s.offset⟩, ?_, hc.parted_within _ hparted⟩
        show Except.mapError _ (m.execute s).1 = _
        rw [hresult]
        rfl

/-! ### Runs -/

/-- What has parted stays so while the second machine takes steps. -/
theorem Sound.onward_step (hc : c.Sound) (m : Machine I O) : c.Onward m m.step.2 := by
  refine Machine.step_preserves (c.frame_onward.refl m) fun s _ => ?_
  have hread : c.Onward m (m.tokensOf m.counter s.text).2 := by
    intro d streams h
    rwa [Machine.tokensOf_streams]
  refine Machine.execute_preserves (c.frame_onward.refl m) hread fun tokens _ => ?_
  refine c.frame_onward.trans hread ?_
  generalize (m.tokensOf m.counter s.text).2 = n
  unfold Machine.executeTokens
  split
  · exact c.frame_onward.refl n
  · rename_i kind _
    have hstatement := (respects_statement hc kind).onward
      ⟨.ofTokens tokens s.text.utf8ByteSize, n.note (.executing (n.counter + 1) s.line kind s.text)⟩
    simp only
    split
    · rename_i d w hw
      exact hstatement.error hw
    · rename_i flow w hw
      intro d streams h
      rw [Machine.follow_streams]
      exact hstatement.ok hw d streams h

theorem Sound.onward_conclude (hc : c.Sound) (m : Machine I O) : c.Onward m m.conclude.2 := by
  intro d streams h
  have hflush := hc.parted_flush h
  rw [Machine.conclude_eq]
  generalize m.streams.flush = r at hflush
  obtain ⟨result, s⟩ := r
  cases result with
  | ok u => exact hflush
  | error d' => exact hflush

theorem Sound.onward_run (hc : c.Sound) (m : Machine I O) (fuel : Nat) : c.Onward m (m.run fuel).2 :=
  Machine.run_preserves (fun n h => c.frame_onward.trans h (hc.onward_step n))
    (fun n h => c.frame_onward.trans h (hc.onward_conclude n)) (c.frame_onward.refl m) fuel

theorem Sound.conclude (hc : c.Sound) (h : c.Near m m') :
    Joined c.Near c.Parted m.conclude m'.conclude := by
  rw [Machine.conclude_eq, Machine.conclude_eq]
  have hjoined := hc.flush h.streams
  generalize m.streams.flush = r at hjoined
  generalize m'.streams.flush = r' at hjoined
  obtain ⟨result, s⟩ := r
  obtain ⟨result', s'⟩ := r'
  rcases hjoined with ⟨hresult, hnear⟩ | ⟨d, hresult, hparted⟩
  · obtain rfl : result' = result := hresult
    have hbehind : c.Near (m.withStreams s) (m'.withStreams s') :=
      ⟨h.program, h.store, h.phase, h.counter, hnear⟩
    cases result' with
    | ok u => exact .inl ⟨rfl, hbehind.note _ _⟩
    | error d => exact .inl ⟨rfl, hbehind⟩
  · obtain rfl : result = .error d := hresult
    refine .inr ⟨d, rfl, ?_⟩
    cases result' with
    | ok u => exact hparted
    | error d' => exact hparted

/-- Runs from near machines have the same result, or the first one fails where they part. -/
theorem Sound.run (hc : c.Sound) (h : c.Near m m') (hm : m.Coherent) (hm' : m'.Coherent)
    (fuel : Nat) :
    ((m'.run fuel).1 = (m.run fuel).1 ∧ c.Near (m.run fuel).2 (m'.run fuel).2) ∨
      ∃ d, (m.run fuel).1 = some (.error d) ∧ c.Parted d (m.run fuel).2 (m'.run fuel).2 := by
  induction fuel generalizing m m' with
  | zero => exact .inl ⟨rfl, h⟩
  | succ fuel ih =>
    have hnext := hm.step.2
    have hnext' := hm'.step.2
    have honward : c.Onward m'.step.2 (m'.run (fuel + 1)).2 := by
      rw [Machine.run]
      generalize m'.step = r'
      obtain ⟨result', n'⟩ := r'
      cases result' with
      | error d => exact c.frame_onward.refl n'
      | ok step =>
        cases step with
        | «continue» => exact hc.onward_run n' fuel
        | stopped => exact hc.onward_conclude n'
    rcases hc.step h hm hm' with ⟨hresult, hnear⟩ | ⟨d, hresult, hparted⟩
    · rw [Machine.run, Machine.run]
      generalize m.step = r at hresult hnear hnext
      generalize m'.step = r' at hresult hnear hnext'
      obtain ⟨result, n⟩ := r
      obtain ⟨result', n'⟩ := r'
      obtain rfl : result' = result := hresult
      cases result' with
      | error d => exact .inl ⟨rfl, hnear⟩
      | ok step =>
        cases step with
        | «continue» => exact ih hnear hnext hnext'
        | stopped =>
          rcases hc.conclude hnear with ⟨hend, hbehind⟩ | ⟨d, hend, hparted⟩
          · exact .inl ⟨congrArg some hend, hbehind⟩
          · exact .inr ⟨d, congrArg some hend, hparted⟩
    · rw [Machine.run_of_step_error hresult]
      exact .inr ⟨d, rfl, honward d _ hparted⟩

theorem Lawful.run (hc : c.Lawful) (h : c.Near m m') (hm : m.Coherent) (hm' : m'.Coherent)
    (fuel : Nat) :
    ((m'.run fuel).1 = (m.run fuel).1 ∧ c.Near (m.run fuel).2 (m'.run fuel).2) ∨
      ∃ d, (m.run fuel).1 = some (.error d) ∧ c.Parted d (m.run fuel).2 (m'.run fuel).2 :=
  hc.sound.run h hm hm' fuel

end Coupling

end Primer
