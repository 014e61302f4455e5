import Primer.Machine.Run
import Primer.Snippet
import Primer.Text.Utf8

/-!
# The command line

`Request.ofArguments` reads the arguments and `Reply.ofRequest` answers them: with a note on the
usage, or with the run of the program in a file, whose streams and exit status it gives.
-/

namespace Primer

/-- What the arguments ask for. -/
inductive Request where
  | help
  | refused
  | run (path : String) (detail : Detail) (color : Bool)
  deriving DecidableEq

namespace Request

/-- The options read so far. -/
structure Options where
  path : Option String := none
  verbosity : Nat := 0
  color : Bool := true

/-- More repetitions give more detail. -/
def detailOf : Nat → Detail
  | 0 => .warn
  | 1 => .info
  | 2 => .debug
  | _ => .trace

/-- The request of complete options; a file has to be named. -/
def ofOptions (o : Options) : Request :=
  match o.path with
  | some path => .run path (detailOf o.verbosity) o.color
  | none => .refused

/-- Reads arguments that all name files, of which there can be one. -/
def ofFiles (o : Options) : List String → Request
  | [] => ofOptions o
  | file :: rest => if o.path.isNone then ofFiles { o with path := some file } rest else .refused

/-- Reads letters behind one dash; the outcome is a final request or further options. -/
def letters (o : Options) : List Char → Except Request Options
  | [] => .ok o
  | 'v' :: rest => letters { o with verbosity := o.verbosity + 1 } rest
  | 'h' :: _ => .error .help
  | _ :: _ => .error .refused

/-- Reads one argument before any `--`. -/
def argument (o : Options) (text : String) : Except Request Options :=
  match text with
  | "--verbose" => .ok { o with verbosity := o.verbosity + 1 }
  | "--no-color" => if o.color then .ok { o with color := false } else .error .refused
  | "--help" => .error .help
  | _ =>
    match text.toList with
    | '-' :: '-' :: _ => .error .refused
    | '-' :: c :: cs => letters o (c :: cs)
    | _ => if o.path.isNone then .ok { o with path := some text } else .error .refused

/-- Reads arguments from left to right; the first that settles the matter does. -/
def ofArgumentsFrom (o : Options) : List String → Request
  | [] => ofOptions o
  | "--" :: files => ofFiles o files
  | text :: rest =>
    match argument o text with
    | .ok o => ofArgumentsFrom o rest
    | .error r => r

def ofArguments (arguments : List String) : Request := ofArgumentsFrom {} arguments

end Request

/-- Why a file cannot be read. -/
inductive OpenFault where
  | missing
  | directory
  | notText
  | other (reason : String)
  deriving DecidableEq

def OpenFault.message : OpenFault → String
  | .missing => "No such file or directory (os error 2)"
  | .directory => "Is a directory (os error 21)"
  | .notText => "stream did not contain valid UTF-8"
  | .other reason => reason

/-- The report on a file that cannot be read. -/
def OpenFault.report (fault : OpenFault) (path : String) : String :=
  s!"Error: Could not open the file: {path} ({fault.message})\n"

/-- The report on a failed run: the headline, and the snippet if there is one.  There is no report
if the snippet is torn. -/
def Diagnostic.report? (d : Diagnostic) (source filename : String) (color : Bool) :
    Option String :=
  match d.snippet? source filename color with
  | none => some (d.headline ++ "\n")
  | some (.drawn text) => some (d.headline ++ "\n" ++ text)
  | some .torn => none

/-- The exit status and the streams of a program that was run, the status after a usage note, or a
run that failed without a report. -/
inductive Reply where
  | usage (exit : Nat)
  | ran (exit : Nat) (output : ByteArray) (errors : String)
  | torn

namespace Reply

/-- The text of a file. -/
def sourceOf (content : Except OpenFault ByteArray) : Except OpenFault String := do
  match String.fromUTF8? (← content) with
  | some source => return source
  | none => throw .notText

/-- The lines of a log. -/
def logText (log : Log) : String :=
  String.join (log.records.toList.map fun r => r.line ++ "\n")

/-- Answers a request, with the contents of files and the input given; no answer if a run takes
more steps than `fuel`. -/
def ofRequest (fuel : Nat) (contentOf : String → Except OpenFault ByteArray) (input : List UInt8) :
    Request → Option Reply
  | .help => some (.usage 0)
  | .refused => some (.usage 2)
  | .run path detail color =>
    match sourceOf (contentOf path) with
    | .error fault => some (.ran 1 .empty (fault.report path))
    | .ok source =>
      let outcome := runSource fuel source input Sink.unlimited detail
      outcome.result.map fun
        | .ok () => .ran 0 outcome.sink.written (logText outcome.log)
        | .error d =>
          match d.report? source path color with
          | some report => .ran 1 outcome.sink.written (logText outcome.log ++ report)
          | none => .torn

end Reply

end Primer
