import Primer.Proofs.Machine.Failure

/-!
# Sessions call by call

A session calls for steps and runs in any order, whatever each of them returned.

* `Interpreter`: a way to take steps and to run; the standard one is that of the machine.
* `Interpreter.session i m calls`: what the calls return, one after the other, and the machine behind them.
* `Machine.passed m calls`: the machines at which the steps of a session are taken, those of its runs
  included.
-/

namespace Primer

variable {I O : Type}

/-- The calls of a session.  A run takes one step at least, and here at most `fuel + 1` of them. -/
inductive Call where
  | step
  | run (fuel : Nat)

/-- What a call returns; a run that is still going returns nothing. -/
inductive Answer where
  | stepped (result : Except Diagnostic Step)
  | ran (result : Option (Except Diagnostic Unit))

/-- The call returns a fault. -/
def Answer.Fails : Answer → Prop
  | .stepped result => ∃ d, result = .error d
  | .ran result => ∃ d, result = some (.error d)

/-- A way to take one step, and to take steps up to the end. -/
structure Interpreter (I O : Type) where
  step : Machine I O → Except Diagnostic Step × Machine I O
  run : Nat → Machine I O → Option (Except Diagnostic Unit) × Machine I O

namespace Interpreter

def standard [Reader I] [Writer O] : Interpreter I O := ⟨Machine.step, Machine.run⟩

def call (i : Interpreter I O) (m : Machine I O) : Call → Answer × Machine I O
  | .step => (.stepped (i.step m).1, (i.step m).2)
  | .run fuel => (.ran (i.run (fuel + 1) m).1, (i.run (fuel + 1) m).2)

/-- The answers of a session, and the machine behind its last call. -/
def session (i : Interpreter I O) : Machine I O → List Call → List Answer × Machine I O
  | m, [] => ([], m)
  | m, c :: calls =>
    ((i.call m c).1 :: (session i (i.call m c).2 calls).1, (session i (i.call m c).2 calls).2)

end Interpreter

namespace Machine

open Interpreter

variable [Reader I] [Writer O]

/-- What steps and the end of a run preserve, sessions preserve. -/
theorem session_preserves {P : Machine I O → Prop} (hstep : ∀ m, P m → P m.step.2)
    (hconclude : ∀ m, P m → P m.conclude.2) (calls : List Call) {m : Machine I O} (hm : P m) :
    P (standard.session m calls).2 := by
  induction calls generalizing m with
  | nil => exact hm
  | cons c calls ih =>
    refine ih ?_
    cases c with
    | step => exact hstep m hm
    | run fuel => exact run_preserves hstep hconclude hm (fuel + 1)

/-- The states of a session are reachable. -/
theorem Reachable.session {p : Program} {m : Machine I O} (hm : m.Reachable p) (calls : List Call) :
    (standard.session m calls).2.Reachable p := by
  induction calls generalizing m with
  | nil => exact hm
  | cons c calls ih =>
    refine ih ?_
    cases c with
    | step => exact hm.step
    | run fuel => exact hm.run (fuel + 1)

/-! ### The steps of a session -/

/-- The machines at which a run takes its steps. -/
def passedBy : Nat → Machine I O → List (Machine I O)
  | 0, _ => []
  | fuel + 1, m => m :: match m.step with
    | (.ok .continue, m') => passedBy fuel m'
    | _ => []

/-- The machines at which a session takes its steps. -/
def passed : Machine I O → List Call → List (Machine I O)
  | _, [] => []
  | m, .step :: calls => m :: passed m.step.2 calls
  | m, .run fuel :: calls => m.passedBy (fuel + 1) ++ passed (m.run (fuel + 1)).2 calls

end Machine

end Primer
