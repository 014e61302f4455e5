import Primer.Proofs.Machine.Coupling

/-!
# Framing of the input

What a run reads are the lines of its input that are not white space, one for each value that it asks for.
Lines of white space between them are not seen, and neither is what stands behind the lines that are read.

* `Input.IsLines bytes`: nothing, or bytes that end in a line feed.
* `Input.Spacing`: a line of white space is put between whole lines.
* `Input.entry_append`: whole lines hold an entry, whatever follows, or leave it to what follows.
* `Coupling.spaced`: inputs that are spaced out are never told apart.
* `Coupling.followed more`: an input of whole lines beside the same with `more` behind it.  They part where the
  lines are used up.
* `input_framing`: so it is for runs.
-/

namespace Primer

variable {I O : Type}

namespace Input

/-- Nothing, or whole lines: what ends at a boundary between lines. -/
def IsLines (bytes : List UInt8) : Prop := bytes = [] ∨ bytes.getLast? = some 10

/-- A line of white space, with the line feed that ends it. -/
structure IsWhiteLine (bytes : List UInt8) : Prop where
  line : ∃ body, bytes = body ++ [10] ∧ 10 ∉ body
  white : ∃ text, String.fromUTF8? ⟨bytes.toArray⟩ = some text ∧
    ∀ c ∈ text.toList, Text.isWhite c = true

/-- A line of white space is put at the start or right behind a line feed. -/
inductive Spacing : List UInt8 → List UInt8 → Prop
  | insert {before white : List UInt8} (after : List UInt8) (hbefore : IsLines before)
    (hwhite : IsWhiteLine white) : Spacing (before ++ after) (before ++ white ++ after)

theorem isLines_of_cons {b : UInt8} {bytes : List UInt8} (h : IsLines (b :: bytes)) : IsLines bytes := by
  cases bytes with
  | nil => exact .inl rfl
  | cons c bytes => exact .inr (by simpa [IsLines] using h)

/-- The first of several lines is where it was, whatever follows them. -/
theorem line_append {before : List UInt8} (h : IsLines before) (hne : before ≠ []) (after : List UInt8) :
    line (before ++ after) = line before ∧ behind (before ++ after) = behind before ++ after ∧
      IsLines (behind before) := by
  induction before with
  | nil => exact absurd rfl hne
  | cons b bytes ih =>
    have hbytes := isLines_of_cons h
    by_cases hb : b = 10
    · simpa [line, behind, hb] using hbytes
    · have hmore : bytes ≠ [] := by
        rintro rfl
        simp [IsLines, hb] at h
      obtain ⟨hline, hbehind, hlines⟩ := ih hbytes hmore
      simp only [List.cons_append, line, behind, hb, if_false, hline, hbehind]
      exact ⟨trivial, trivial, hlines⟩

theorem line_ne_nil {input : List UInt8} (hne : input ≠ []) : line input ≠ [] := by
  obtain ⟨b, bytes, rfl⟩ := List.exists_cons_of_ne_nil hne
  unfold line
  split <;> exact List.cons_ne_nil _ _

/-- The empty text has no bytes. -/
theorem ne_empty_of_decode {bytes : List UInt8} {text : String} (h : decode bytes = .ok text)
    (hne : bytes ≠ []) : text ≠ "" := by
  rintro rfl
  unfold decode String.fromUTF8? at h
  split at h
  · rename_i text htext
    split at htext
    · cases h
      have hbytes : bytes.toArray = #[] :=
        congrArg (fun text : String => text.toByteArray.data) (Option.some.inj htext)
      exact hne (by simpa using hbytes)
    · cases htext
  · cases h

/-- What a line holds, if it is not white space. -/
def found? (line : List UInt8) : Option Entry :=
  match decode line with
  | .error reason => some (.failed reason)
  | .ok text =>
    if (Text.trim Text.isWhite text.toList).isEmpty then none
    else some (.text (Text.trim Text.isWhite text.toList))

/-- The entry is in the first line or behind it. -/
theorem entry_eq {input : List UInt8} (hne : input ≠ []) :
    entry input = match found? (line input) with
      | some found => (found, behind input)
      | none => entry (behind input) := by
  rw [entry, found?]
  split
  · rename_i reason rest hline
    have hdecode : decode (line input) = .error reason := congrArg Prod.fst hline
    have hrest : behind input = rest := congrArg Prod.snd hline
    rw [hdecode, hrest]
  · rename_i text rest hline
    have hdecode : decode (line input) = .ok text := congrArg Prod.fst hline
    have hrest : behind input = rest := congrArg Prod.snd hline
    rw [dif_neg (ne_empty_of_decode hdecode (line_ne_nil hne)), hdecode, hrest]
    dsimp only
    split <;> rfl

theorem entry_nil : entry ([] : List UInt8) = (.ended, []) := by
  rw [entry]
  rfl

theorem entry_lines {before : List UInt8} (h : IsLines before) (hne : before ≠ []) (after : List UInt8) :
    entry (before ++ after) = match found? (line before) with
      | some found => (found, behind before ++ after)
      | none => entry (behind before ++ after) := by
  obtain ⟨hline, hbehind, -⟩ := line_append h hne after
  rw [entry_eq (List.append_ne_nil_of_left_ne_nil hne after), hline, hbehind]

/-- Whole lines hold the next entry, whatever follows them, or they are passed over. -/
theorem entry_append {before : List UInt8} (h : IsLines before) :
    (∀ after, entry (before ++ after) = entry after) ∨
      ∃ found rest, IsLines rest ∧ ∀ after, entry (before ++ after) = (found, rest ++ after) := by
  -- each line that is passed over leaves fewer of them
  induction hn : before.length using Nat.strongRecOn generalizing before with
  | ind n ih =>
    cases before with
    | nil => exact .inl fun _ => rfl
    | cons b bytes =>
      have hne := List.cons_ne_nil b bytes
      have hlines := (line_append h hne []).2.2
      have hentry := entry_lines h hne
      cases hfound : found? (line (b :: bytes)) with
      | some found =>
        simp only [hfound] at hentry
        exact .inr ⟨found, _, hlines, hentry⟩
      | none =>
        simp only [hfound] at hentry
        simp only [hentry]
        exact ih _ (hn ▸ length_behind_lt b bytes) hlines rfl

theorem line_eq_self {body : List UInt8} (h : 10 ∉ body) :
    line (body ++ [10]) = body ++ [10] ∧ behind (body ++ [10]) = [] := by
  induction body with
  | nil => exact ⟨rfl, rfl⟩
  | cons b body ih =>
    have hb : b ≠ 10 := fun hb => h (hb ▸ List.mem_cons_self)
    obtain ⟨hline, hbehind⟩ := ih fun hbody => h (List.mem_cons_of_mem b hbody)
    simp [line, behind, hb, hline, hbehind]

theorem IsWhiteLine.found? {white : List UInt8} (h : IsWhiteLine white) : found? white = none := by
  obtain ⟨text, htext, hwhite⟩ := h.white
  have htrim : Text.trim Text.isWhite text.toList = [] := by
    unfold Text.trim
    rw [List.dropWhile_eq_nil_iff.mpr hwhite]
    rfl
  simp [Input.found?, decode, htext, htrim]

/-- A line of white space is passed over. -/
theorem IsWhiteLine.entry {white : List UInt8} (h : IsWhiteLine white) (after : List UInt8) :
    entry (white ++ after) = entry after := by
  have hfound := h.found?
  obtain ⟨body, rfl, hfree⟩ := h.line
  obtain ⟨hline, hbehind⟩ := line_eq_self hfree
  rw [entry_lines (.inr (by simp)) (by simp), hline, hfound, hbehind]
  rfl

theorem Spacing.entry {input input' : List UInt8} (h : Spacing input input') :
    (entry input').1 = (entry input).1 ∧
      Relation.ReflTransGen Spacing (entry input).2 (entry input').2 := by
  obtain ⟨after, hbefore, hwhite⟩ := h
  rw [List.append_assoc]
  rcases entry_append hbefore with hpassed | ⟨found, rest, hrest, hfound⟩
  · rw [hpassed, hpassed, hwhite.entry]
    exact ⟨rfl, .refl⟩
  · rw [hfound, hfound, ← List.append_assoc]
    exact ⟨rfl, .single (.insert after hrest hwhite)⟩

/-- Inputs that are spaced out hold the same entry, and what is behind it is spaced out. -/
theorem entry_of_spaced {input input' : List UInt8} (h : Relation.ReflTransGen Spacing input input') :
    (entry input').1 = (entry input).1 ∧
      Relation.ReflTransGen Spacing (entry input).2 (entry input').2 := by
  induction h with
  | refl => exact ⟨rfl, .refl⟩
  | tail _ hstep ih =>
    obtain ⟨hfound, hrest⟩ := hstep.entry
    exact ⟨hfound.trans ih.1, ih.2.trans hrest⟩

end Input

/-! ### Streams that differ in their inputs -/

namespace Streams

variable [Writer O] {s s' : Streams I O}

theorem write_of_sink (h : s'.sink = s.sink) (text : String) :
    (s'.write text).1 = (s.write text).1 ∧ (s'.write text).2.sink = (s.write text).2.sink := by
  unfold write
  rw [h]
  exact ⟨rfl, rfl⟩

theorem flush_of_sink (h : s'.sink = s.sink) :
    s'.flush.1 = s.flush.1 ∧ s'.flush.2.sink = s.flush.2.sink := by
  unfold flush
  rw [h]
  exact ⟨rfl, rfl⟩

end Streams

namespace Coupling

open Primer.Action Primer.Input

/-- The same output, and an input that is spaced out. -/
def spaced : Coupling (List UInt8) O where
  near s s' := s'.sink = s.sink ∧ Relation.ReflTransGen Spacing s.input s'.input
  parted _ _ _ := False

theorem lawful_spaced [Writer O] : (spaced : Coupling (List UInt8) O).Lawful where
  write := by
    rintro s s' text ⟨hsink, hinput⟩
    obtain ⟨hresult, hafter⟩ := Streams.write_of_sink hsink text
    exact .inl ⟨hresult, hafter, hinput⟩
  flush := by
    rintro s s' ⟨hsink, hinput⟩
    obtain ⟨hresult, hafter⟩ := Streams.flush_of_sink hsink
    exact .inl ⟨hresult, hafter, hinput⟩
  entry := by
    rintro s s' ⟨hsink, hinput⟩
    obtain ⟨hfound, hrest⟩ := entry_of_spaced hinput
    exact .inl ⟨congrArg Except.ok hfound, hsink, hrest⟩
  parted_write _ h := h
  parted_flush h := h
  parted_entry h := h
  parted_within _ h := h

/-- The same output, and an input of whole lines with `more` behind it; where the lines have ended while a value
is read, anything may follow. -/
def followed (more : List UInt8) : Coupling (List UInt8) O where
  near s s' := s'.sink = s.sink ∧ IsLines s.input ∧ s'.input = s.input ++ more
  parted d _ _ := ∃ name, d.cause = .endOfInput name

variable {more : List UInt8}

theorem within_followed {α : Type} (a : Action (List UInt8) O α) :
    Within (followed more).Onward a := by
  intro w
  unfold Leads
  split
  · exact fun _ _ h => h
  · exact fun _ _ h => h

/-- The next entry is in the lines that both inputs have, or the end of the first one is a fault. -/
theorem uniform_followed_entry {name : String} {span : Span} {f : Entry → Action (List UInt8) O Float}
    (hf : ∀ entry, (followed more).Uniform (f entry)) (hended : f .ended = fail (.endOfInput name) span) :
    (followed more).Uniform (entry >>= f) := by
  refine ⟨fun w w' hw => ?_, within_followed _⟩
  obtain ⟨hsink, hlines, hinput⟩ := hw.streams
  have hinput : w'.machine.input = w.machine.input ++ more := hinput
  show (followed more).Coupled _
    (f (Input.entry w.machine.input).1
      { w with machine := { w.machine with input := (Input.entry w.machine.input).2 } })
    (f (Input.entry w'.machine.input).1
      { w' with machine := { w'.machine with input := (Input.entry w'.machine.input).2 } })
  rw [hinput]
  rcases entry_append hlines with hpassed | ⟨found, rest, hrest, hfound⟩
  · have hend : Input.entry w.machine.input = (.ended, []) := by
      rw [← List.append_nil w.machine.input]
      exact (hpassed []).trans entry_nil
    rw [hend, hended]
    exact .parted _ ⟨name, rfl⟩
  · have hfirst : Input.entry w.machine.input = (found, rest) := by
      rw [← List.append_nil w.machine.input, ← List.append_nil rest]
      exact hfound []
    have hsecond : Input.entry (w.machine.input ++ more) = (found, rest ++ more) := hfound more
    rw [hfirst, hsecond]
    exact (hf found).coupled { w with machine := { w.machine with input := rest } }
      { w' with machine := { w'.machine with input := rest ++ more } }
      ⟨hw.program, hw.store, hw.phase, hw.counter, hsink, hrest, rfl⟩

theorem followed_flush [Writer O] {s s' : Streams (List UInt8) O} (h : (followed more).near s s') :
    Joined (followed more).near (followed more).parted s.flush s'.flush := by
  obtain ⟨hresult, hafter⟩ := Streams.flush_of_sink h.1
  exact .inl ⟨hresult, hafter, h.2⟩

theorem sound_followed [Writer O] (more : List UInt8) :
    (followed more : Coupling (List UInt8) O).Sound where
  write text := by
    rw [write_eq]
    refine uniform_stream (fun s s' h => ?_) fun _ _ _ h => h
    obtain ⟨hresult, hafter⟩ := Streams.write_of_sink h.1 text
    exact .inl ⟨hresult, hafter, h.2⟩
  number name := by
    refine uniform_readNumber_of ?_ fun f hf hended => uniform_followed_entry hf hended
    rw [flush_eq]
    exact uniform_stream (fun s s' => followed_flush) fun _ _ _ h => h
  flush := followed_flush
  parted_flush h := h
  parted_within _ h := h

/-! ### Runs -/

/-- Runs of a source on near streams. -/
theorem Sound.runSource [Reader I] [Writer O] {c : Coupling I O} (hc : c.Sound) {s s' : Streams I O}
    (h : c.near s s') (fuel : Nat) (source : String) (detail : Detail) :
    let outcome := runSource fuel source s.input s.sink detail
    let outcome' := runSource fuel source s'.input s'.sink detail
    (outcome'.result = outcome.result ∧
        ∃ rest rest', c.near ⟨rest, outcome.sink⟩ ⟨rest', outcome'.sink⟩) ∨
      ∃ d, outcome.result = some (.error d) ∧
        ∃ rest rest', c.parted d ⟨rest, outcome.sink⟩ ⟨rest', outcome'.sink⟩ := by
  dsimp only
  unfold Primer.runSource
  cases prepare source detail with
  | error d => exact .inl ⟨rfl, s.input, s'.input, h⟩
  | ok loaded =>
    obtain ⟨p, log⟩ := loaded
    have hnear : c.Near (.start p s.input s.sink log) (.start p s'.input s'.sink log) :=
      ⟨rfl, rfl, rfl, rfl, h⟩
    have hrun := hc.run hnear (Machine.Reachable.start s.input s.sink log).coherent.2
      (Machine.Reachable.start s'.input s'.sink log).coherent.2 fuel
    rcases hrun with ⟨hresult, hafter⟩ | ⟨d, hresult, hparted⟩
    · exact .inl ⟨hresult, _, _, hafter.streams⟩
    · exact .inr ⟨d, hresult, _, _, hparted⟩

end Coupling

/-- **The framing of the input is not seen.**  A run ends in the same way and writes the same where lines of
white space are put between the lines of its input; and so it does whatever follows an input of whole lines,
unless it has asked for more than they hold. -/
theorem input_framing [Writer O] (fuel : Nat) (source : String) (input : List UInt8) (sink : O)
    (detail : Detail) :
    (∀ input', Relation.ReflTransGen Input.Spacing input input' →
      (runSource fuel source input' sink detail).result = (runSource fuel source input sink detail).result ∧
      (runSource fuel source input' sink detail).sink = (runSource fuel source input sink detail).sink) ∧
    (Input.IsLines input →
      (∀ d name, (runSource fuel source input sink detail).result = some (.error d) →
        d.cause ≠ .endOfInput name) →
      ∀ more,
        (runSource fuel source (input ++ more) sink detail).result =
          (runSource fuel source input sink detail).result ∧
        (runSource fuel source (input ++ more) sink detail).sink =
          (runSource fuel source input sink detail).sink) := by
  constructor
  · intro input' hspaced
    have hnear : Coupling.spaced.near ⟨input, sink⟩ ⟨input', sink⟩ := ⟨rfl, hspaced⟩
    rcases Coupling.lawful_spaced.sound.runSource hnear fuel source detail with
      ⟨hresult, rest, rest', hsink, -⟩ | ⟨d, -, rest, rest', hparted⟩
    · exact ⟨hresult, hsink⟩
    · exact hparted.elim
  · intro hlines hunended more
    have hnear : (Coupling.followed more).near ⟨input, sink⟩ ⟨input ++ more, sink⟩ := ⟨rfl, hlines, rfl⟩
    rcases (Coupling.sound_followed more).runSource hnear fuel source detail with
      ⟨hresult, rest, rest', hsink, -⟩ | ⟨d, hd, rest, rest', name, hname⟩
    · exact ⟨hresult, hsink⟩
    · exact absurd hname (hunended d name hd)

/-- A value between a line with an ideographic space and bytes that are no text. -/
theorem input_framing_wide :
    Relation.ReflTransGen Input.Spacing [49, 10] [0xe3, 0x80, 0x80, 10, 49, 10] ∧
    (runSource 2 "read x;\nstop;" ([0xe3, 0x80, 0x80, 10, 49, 10] : List UInt8) Sink.unlimited .warn).result =
      some (.ok ()) ∧
    (runSource 2 "read x;\nstop;" ([49, 10] ++ [0xff] : List UInt8) Sink.unlimited .warn).result =
        some (.ok ()) := by
  have hresult : (runSource 2 "read x;\nstop;" ([49, 10] : List UInt8) Sink.unlimited .warn).result =
      some (.ok ()) := by
    decide +kernel
  have hspaced : Relation.ReflTransGen Input.Spacing [49, 10] [0xe3, 0x80, 0x80, 10, 49, 10] := by
    have hwhite : Input.IsWhiteLine [0xe3, 0x80, 0x80, 10] :=
      ⟨⟨[0xe3, 0x80, 0x80], rfl, by decide⟩, "\u3000\n", by decide, List.all_eq_true.mp rfl⟩
    exact .single (@Input.Spacing.insert [] _ [49, 10] (.inl rfl) hwhite)
  obtain ⟨hspacing, hmore⟩ := input_framing 2 "read x;\nstop;" [49, 10] Sink.unlimited .warn
  refine ⟨hspaced, (hspacing _ hspaced).1.trans hresult, ?_⟩
  refine (hmore (.inr rfl) (fun d name hd => ?_) [0xff]).1.trans hresult
  rw [hresult] at hd
  cases hd

end Primer
