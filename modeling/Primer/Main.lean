import Primer.CommandLine

/-!
# The program

Runs a file on the standard streams.  A step that runs out of input is taken again once another
line has come in, and what it had already shown is not shown twice.
-/

namespace Primer

def usage : String :=
  "Usage: primer [-v]... [--no-color] FILE\n\n" ++
  "  FILE           the program to execute\n" ++
  "  -v, --verbose  log what happens to the error stream (repeat for more detail)\n" ++
  "      --no-color no colors in reports\n" ++
  "  -h, --help     this text\n"

/-- The content of a file. -/
def contentOf (path : String) : IO (Except OpenFault ByteArray) := do
  try return .ok (← IO.FS.readBinFile path)
  catch
    | .noFileOrDirectory .. => return .error .missing
    | .inappropriateType .. => return .error .directory
    | .permissionDenied .. => return .error (.other "Permission denied (os error 13)")
    | e => return .error (.other (toString e))

/-- How much of a step has been shown: bytes of output and records. -/
structure Shown where
  bytes : Nat := 0
  records : Nat := 0

/-- Shows the rest of what a machine holds. -/
def emit (m : Machine) (shown : Shown) : IO Unit := do
  (← IO.getStdout).write (m.sink.written.extract shown.bytes m.sink.written.size)
  for r in m.log.records.toList.drop shown.records do
    IO.eprint (r.line ++ "\n")

/-- Forgets output and records that have been shown. -/
def Machine.drained (m : Machine) : Machine :=
  { m with sink := .unlimited, log := .init m.log.detail }

/-- The next line of the standard input, with its line feed; nothing at the end. -/
partial def inputLine (line : Array UInt8) : IO (Array UInt8) := do
  let byte ← (← IO.getStdin).read 1
  match byte.toList with
  | [] => return line
  | b :: _ => if b = 10 then return line.push b else inputLine (line.push b)

/-- Takes steps until the program stops or fails. -/
partial def drive (m : Machine) (shown : Shown) : IO (Except Diagnostic Unit) := do
  let (result, after) := m.step
  emit after shown
  match result with
  | .ok .continue => drive after.drained {}
  | .ok .stopped =>
    let (result, last) := after.drained.conclude
    emit last {}
    (← IO.getStdout).flush
    return result
  | .error d =>
    (← IO.getStdout).flush
    match d.cause with
    | .endOfInput _ =>
      let line ← inputLine #[]
      if line.isEmpty then return .error d
      drive { m with input := m.input ++ line.toList }
        ⟨after.sink.written.size, after.log.records.size⟩
    | _ => return .error d

/-- Runs the program in a file and gives the exit status. -/
def runFile (path : String) (detail : Detail) (color : Bool) : IO UInt32 := do
  match Reply.sourceOf (← contentOf path) with
  | .error fault =>
    IO.eprint (fault.report path)
    return 1
  | .ok source =>
    let result ← match prepare source detail with
      | .error d => pure (.error d)
      | .ok (program, log) => drive (Machine.start program [] .unlimited log) {}
    match result with
    | .ok () => return 0
    | .error d =>
      match d.report? source path color with
      | some report =>
        IO.eprint report
        return 1
      | none =>
        IO.eprint (d.headline ++ "\n")
        return 101

end Primer

open Primer in
def main (arguments : List String) : IO UInt32 := do
  match Request.ofArguments arguments with
  | .help =>
    IO.print usage
    return 0
  | .refused =>
    IO.eprint usage
    return 2
  | .run path detail color => runFile path detail color
