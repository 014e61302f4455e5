import Primer.Text.Basic

/-!
# Input and output

A program writes to a `Writer` and reads from a `Reader`, and either may fail at any time.  Input is
read line by line, and lines of white space are passed over.  The streams at hand are a `Sink`,
which takes bytes, perhaps only so many of them, and a list of bytes.
-/

namespace Primer

/-- An output.  It may take a text in part, or refuse it now and take it later. -/
class Writer (O : Type) where
  /-- Writes text; if it fails, for the reason that is given. -/
  write : O → ByteArray → Except String Unit × O
  /-- Passes on what has been written. -/
  flush : O → Except String Unit × O

/-- An input that comes to an end. -/
class Reader (I : Type) where
  /-- The next line, up to and with its line feed, or the reason why it cannot be read.  The line is
  empty at the end. -/
  line : I → Except String String × I
  /-- How much is left to read. -/
  size : I → Nat
  size_lt (i : I) {text : String} (h : (line i).1 = .ok text) (hne : text ≠ "") :
    size (line i).2 < size i

namespace Input

/-- What reading for a value finds. -/
inductive Entry where
  | text (entry : List Char)
  | failed (reason : String)
  | ended

/-- The first line that is not white space, trimmed, and the input behind it. -/
def entry {I : Type} [Reader I] (input : I) : Entry × I :=
  match _hline : Reader.line input with
  | (.error reason, rest) => (.failed reason, rest)
  | (.ok text, rest) =>
    if _hend : text = "" then (.ended, rest)
    else
      let trimmed := Text.trim Text.isWhite text.toList
      if trimmed.isEmpty then entry rest else (.text trimmed, rest)
termination_by Reader.size input
decreasing_by
  have hlt := Reader.size_lt input (congrArg Prod.fst _hline) _hend
  rwa [_hline] at hlt

/-! ### Bytes -/

/-- The bytes up to and with the first line feed. -/
def line : List UInt8 → List UInt8
  | [] => []
  | b :: bytes => if b = 10 then [b] else b :: line bytes

/-- The bytes behind the first line feed. -/
def behind : List UInt8 → List UInt8
  | [] => []
  | b :: bytes => if b = 10 then bytes else behind bytes

theorem line_append_behind (bytes : List UInt8) : line bytes ++ behind bytes = bytes := by
  induction bytes with
  | nil => rfl
  | cons b bytes ih => by_cases h : b = 10 <;> simp [line, behind, h, ih]

theorem length_behind_lt (b : UInt8) (bytes : List UInt8) :
    (behind (b :: bytes)).length < (b :: bytes).length := by
  induction bytes generalizing b with
  | nil => by_cases h : b = 10 <;> simp [behind, h]
  | cons c bytes ih =>
    by_cases h : b = 10
    · simp [behind, h]
    · have := ih c
      simp only [behind, h, ↓reduceIte, List.length_cons] at *
      omega

/-- The text of a line of bytes. -/
def decode (bytes : List UInt8) : Except String String :=
  match String.fromUTF8? ⟨bytes.toArray⟩ with
  | some text => .ok text
  | none => .error "stream did not contain valid UTF-8"

instance : Reader (List UInt8) where
  line bytes := (decode (line bytes), behind bytes)
  size := List.length
  size_lt bytes text h hne := by
    cases bytes with
    | nil =>
      refine absurd ?_ hne
      cases h
      rfl
    | cons b bytes => exact length_behind_lt b bytes

end Input

/-- An output that holds what it is given: its bytes, how much it can hold, and whether it can be
flushed. -/
structure Sink where
  written : ByteArray
  capacity : Option Nat
  flushes : Bool

namespace Sink

/-- An empty output without limits. -/
def unlimited : Sink := ⟨.empty, none, true⟩

/-- Writes all of `bytes`, or as many as there is room for and fails. -/
def write (s : Sink) (bytes : ByteArray) : Except String Unit × Sink :=
  match s.capacity with
  | none => (.ok (), { s with written := s.written ++ bytes })
  | some n =>
    let room := n - s.written.size
    if bytes.size ≤ room then (.ok (), { s with written := s.written ++ bytes })
    else (.error "sink full", { s with written := s.written ++ bytes.extract 0 room })

def flush (s : Sink) : Except String Unit :=
  if s.flushes then .ok () else .error "flush failed"

instance : Writer Sink where
  write := write
  flush s := (s.flush, s)

@[simp] theorem writer_write (s : Sink) (bytes : ByteArray) : Writer.write s bytes = s.write bytes := rfl

@[simp] theorem writer_flush (s : Sink) : Writer.flush s = (s.flush, s) := rfl

end Sink

end Primer
