import Primer.Proofs.Machine.Coupling

/-!
# Twins

Machines that agree on all but the cache and the log do the same: their streams are coupled by equality and
never part.

* `Work.Twins w w'`: works on machines that agree.
* `statement_agrees`: the outcome of a statement depends on its tokens and on what the machine holds.
* `Same.step`: machines that agree take the same step.
-/

namespace Primer

variable {I O : Type}

namespace Machine.Same

variable {m m' m'' : Machine I O}

theorem refl (m : Machine I O) : m.Same m := ⟨rfl, rfl, rfl, rfl, rfl, rfl⟩

theorem trans (h : m.Same m') (h' : m'.Same m'') : m.Same m'' :=
  ⟨h'.program.trans h.program, h'.store.trans h.store, h'.phase.trans h.phase,
    h'.counter.trans h.counter, h'.input.trans h.input, h'.sink.trans h.sink⟩

end Machine.Same

/-- Works on machines that agree on all but the cache and the log. -/
def Work.Twins (w w' : Work I O) : Prop := w.machine.Same w'.machine

namespace Action

/-- The same result on works in the relation `σ`, or the same fault. -/
def Agrees {α : Type} (σ : Work I O → Work I O → Prop) :
    EStateM.Result Diagnostic (Work I O) α → EStateM.Result Diagnostic (Work I O) α → Prop
  | .ok x w, .ok y w' => x = y ∧ σ w w'
  | .error d w, .error d' w' => d = d' ∧ w.Twins w'
  | _, _ => False

end Action

/-- Streams that are the same never part. -/
def Coupling.equal : Coupling I O := ⟨fun s s' => s' = s, fun _ _ _ => False⟩

namespace Coupling

theorem lawful_equal [Reader I] [Writer O] : (equal : Coupling I O).Lawful where
  write _ h := .inl ⟨h ▸ rfl, h ▸ rfl⟩
  flush h := .inl ⟨h ▸ rfl, h ▸ rfl⟩
  entry h := .inl ⟨h ▸ rfl, h ▸ rfl⟩
  parted_write _ h := h
  parted_flush h := h
  parted_entry h := h
  parted_within _ h := h

theorem near_equal {m m' : Machine I O} : equal.Near m m' ↔ m.Same m' := by
  constructor
  · intro h
    have hstreams : m'.streams = m.streams := h.streams
    exact ⟨h.program, h.store, h.phase, h.counter, congrArg Streams.input hstreams,
      congrArg Streams.sink hstreams⟩
  · intro h
    refine ⟨h.program, h.store, h.phase, h.counter, ?_⟩
    show m'.streams = m.streams
    simp [Machine.streams, h.input, h.sink]

/-- Results that never part. -/
theorem joined_equal {α : Type} {r r' : Except Diagnostic α × Machine I O}
    (h : Joined equal.Near equal.Parted r r') : r'.1 = r.1 ∧ r.2.Same r'.2 := by
  rcases h with ⟨hresult, hnear⟩ | ⟨d, -, hparted⟩
  · exact ⟨hresult, near_equal.mp hnear⟩
  · exact hparted.elim

end Coupling

namespace Machine

open Coupling

theorem Same.note {m m' : Machine I O} (h : m.Same m') (r r' : Record) :
    (m.note r).Same (m'.note r') :=
  ⟨h.program, h.store, h.phase, h.counter, h.input, h.sink⟩

variable [Reader I] [Writer O]

/-- The outcome of a closed statement depends on its tokens and on what the machine holds, and neither on
the length of its text nor on the cache or the log. -/
theorem statement_agrees {text : String} {tokens : List Token} (hclosed : isClosed text = true)
    (ht : tokenize text = .ok tokens) (kind : StatementKind) {m m' : Machine I O} (hm : m.Same m')
    (length length' : Nat) :
    Action.Agrees Work.Twins (Action.statement kind ⟨.ofTokens tokens length, m⟩)
      (Action.statement kind ⟨.ofTokens tokens length', m'⟩) := by
  have hcoupled := lawful_equal.sound.statement hclosed ht kind (near_equal.mpr hm) length length'
  generalize Action.statement kind ⟨.ofTokens tokens length, m⟩ = r at hcoupled ⊢
  generalize Action.statement kind ⟨.ofTokens tokens length', m'⟩ = r' at hcoupled ⊢
  cases hcoupled with
  | ok flow hw => exact ⟨rfl, near_equal.mp hw⟩
  | error d hw => exact ⟨rfl, near_equal.mp hw⟩
  | parted d hw => exact hw.elim

/-- Machines that agree take the same step. -/
theorem Same.step {m m' : Machine I O} (h : m.Same m') (hc : m.Coherent) (hc' : m'.Coherent) :
    m'.step.1 = m.step.1 ∧ m.step.2.Same m'.step.2 :=
  joined_equal (lawful_equal.sound.step (near_equal.mpr h) hc hc')

end Machine

end Primer
