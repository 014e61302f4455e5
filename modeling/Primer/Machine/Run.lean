import Primer.Machine.Execute

/-!
# Runs

`run` takes steps until a program stops or fails, at most as many as it is given fuel for, and
`runSource` does so for a source from its loading on.
-/

namespace Primer

variable {I O : Type} [Reader I] [Writer O]

namespace Machine

/-- Ends a run that has reached `stop;`: what was written is flushed. -/
def conclude (m : Machine I O) : Except Diagnostic Unit × Machine I O :=
  let (result, sink) := Writer.flush m.sink
  let m := { m with sink }
  match result with
  | .ok () => (.ok (), m.note (.stopped (m.counter + 1)))
  | .error reason => (.error ⟨.unwritable reason, .single 0, none⟩, m)

/-- Takes steps up to `stop;` or the first fault; no result if `fuel` steps reach neither. -/
def run : Nat → Machine I O → Option (Except Diagnostic Unit) × Machine I O
  | 0, m => (none, m)
  | fuel + 1, m =>
    match m.step with
    | (.error d, m) => (some (.error d), m)
    | (.ok .continue, m) => run fuel m
    | (.ok .stopped, m) =>
      let (result, m) := m.conclude
      (some result, m)

end Machine

/-- What a run leaves behind. -/
structure Outcome (O : Type := Sink) where
  /-- No result if the fuel was spent. -/
  result : Option (Except Diagnostic Unit)
  sink : O
  log : Log

/-- Loads a program for a run, with the records of the loading. -/
def prepare (source : String) (detail : Detail) : Except Diagnostic (Program × Log) := do
  let program ← Program.load source
  let statements := program.statements.size
  let labels := program.labels.size
  let log := Log.init detail
  return (program, (log.note (.loaded statements labels)).note (.announced statements labels))

/-- Loads and runs a program. -/
def runSource (fuel : Nat) (source : String) (input : I) (sink : O) (detail : Detail) : Outcome O :=
  match prepare source detail with
  | .error d => ⟨some (.error d), sink, .init detail⟩
  | .ok (program, log) =>
    let (result, m) := (Machine.start program input sink log).run fuel
    ⟨result, m.sink, m.log⟩

end Primer
