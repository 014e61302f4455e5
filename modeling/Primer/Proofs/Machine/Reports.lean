import Primer.Proofs.Machine.Session
import Primer.Proofs.Program.Offsets
import Primer.Proofs.Token.Spans
import Primer.Snippet

/-!
# Where reports point

A report shows a range of the source.  What is shown of a statement starts and ends between characters
of it, but for one case: a statement without a semicolon is blamed at its last byte, and this byte can
lie inside of a character.  In the source the range lies as far from there as the statement stands from
its offset.

* `Diagnostic.Tears text d`: the case in which what is shown starts inside of a character.
* `Diagnostic.Shown text d`: what holds of the faults of a statement with that text.
* `Coherent.shown_of_step`: so it is for all faults of a step.
* `range_of_runSource_error`: the range of the report on a run.
-/

namespace Primer

variable {I O : Type}

open Text Source

/-- A semicolon is missing behind a character of several bytes. -/
def Diagnostic.Tears (text : String) (d : Diagnostic) : Prop :=
  d.cause = .missingSemicolon ∧ ∃ c ∈ text.toList.getLast?, 1 < c.utf8Size

/-- What is shown of the text ends between characters, and starts there unless the fault tears one. -/
structure Diagnostic.Shown (text : String) (d : Diagnostic) : Prop where
  start : Boundary text.toList (d.span.shown text.toList).start ↔ ¬d.Tears text
  stop : Boundary text.toList (d.span.shown text.toList).stop

/-- The range of a report is what it shows of the text, counted from the offset. -/
theorem Context.range_eq {c : Context} (hne : c.text.toList ≠ []) (span : Span) :
    c.range span = ⟨c.offset + (span.shown c.text.toList).start,
      c.offset + (span.shown c.text.toList).stop⟩ := by
  have hpos := byteLength_pos hne
  have hlength : max c.text.utf8ByteSize 1 = byteLength c.text.toList := by
    rw [← byteLength_toList]
    omega
  simp only [Context.range, Span.shown, hlength]

/-! ### Statements -/

namespace Machine

/-- A closed statement ends with its semicolon or with a blank. -/
theorem exists_last_of_isClosed {text : String} (h : isClosed text = true) :
    ∃ front c, text.toList = front ++ [c] ∧ c.utf8Size = 1 := by
  have hlast : (trimEnd isBlank text.toList).getLast? = some ';' := by simpa [isClosed] using h
  obtain ⟨front, hfront⟩ := List.getLast?_eq_some_iff.mp hlast
  obtain ⟨tail, htail, hblank⟩ := trimEnd_append isBlank text.toList
  rw [hfront] at htail
  rcases List.eq_nil_or_concat tail with rfl | ⟨tail, c, rfl⟩
  · exact ⟨front, ';', by rw [htail]; simp, rfl⟩
  · exact ⟨front ++ [';'] ++ tail, c, by rw [htail]; simp, utf8Size_of_isBlank (hblank c (by simp))⟩

/-- The faults of a closed statement tear nothing. -/
theorem shown_of_isClosed {text : String} {d : Diagnostic} (hclosed : isClosed text = true)
    (h : d.span.Shows text.toList) : d.Shown text := by
  obtain ⟨front, c, htext, hc⟩ := exists_last_of_isClosed hclosed
  refine ⟨iff_of_true h.1 ?_, h.2⟩
  rintro ⟨-, c', hc', hlt⟩
  obtain rfl : c = c' := by simpa [htext] using hc'
  omega

/-- A missing semicolon is blamed on the last byte. -/
theorem shown_unclosed (text : String) :
    Diagnostic.Shown text ⟨.missingSemicolon, .single (text.utf8ByteSize - 1), none⟩ := by
  have hstart : ((Span.single (text.utf8ByteSize - 1)).shown text.toList).start =
      byteLength text.toList - 1 := by
    rw [← byteLength_toList]
    simp only [Span.shown, Span.single, Nat.min_self]
  have hstop : ((Span.single (text.utf8ByteSize - 1)).shown text.toList).stop =
      byteLength text.toList := by
    rw [← byteLength_toList]
    simp only [Span.shown, Span.single]
    omega
  constructor
  · simp only [hstart, boundary_pred_iff, Diagnostic.Tears, true_and]
    constructor
    · rintro hone ⟨c, hc, hlt⟩
      have hc := hone c hc
      omega
    · intro htears c hc
      have hpos := Char.utf8Size_pos c
      have hle : ¬1 < c.utf8Size := fun hlt => htears ⟨c, hc, hlt⟩
      omega
  · simp only [hstop]
    exact Boundary.length _

/-- The tokens of a statement of known kind are a good place to start from. -/
theorem placed_fits {text : String} {tokens : List Token} {kind : StatementKind}
    (hclosed : isClosed text = true) (ht : tokenize text = .ok tokens)
    (hk : classify text tokens = .ok kind) (m : Machine I O) :
    Work.Placed (Span.Fits text.toList) ⟨.ofTokens tokens text.utf8ByteSize, m⟩ := by
  have hlexed : Lexed 0 text.toList tokens := lexed_of_tokenize ht
  obtain ⟨t, rest, rfl, hword⟩ := word_of_classify hk
  obtain ⟨front, c, htext, hc⟩ := exists_last_of_isClosed hclosed
  refine ⟨hlexed.fits, isIdentifier_of_tokenize ht, hlexed.fits_first hword, ?_, List.suffix_refl _⟩
  have hlength : text.utf8ByteSize = byteLength (front ++ [c]) := by
    rw [← byteLength_toList, htext]
  simp only [Cursor.ofTokens, hlength, htext]
  exact fits_behind hc

variable [Reader I] [Writer O]

/-- The faults of a statement, one way of its execution after the other. -/
theorem Executes.shown {m : Machine I O} {s : Statement} {r : Except Diagnostic Step × Machine I O}
    (h : m.Executes s r) {d : Diagnostic} (hd : r.1 = .error d) :
    d.context = none ∧ d.Shown s.text := by
  cases h with
  | unclosed =>
    cases hd
    exact ⟨rfl, shown_unclosed s.text⟩
  | unread hclosed ht =>
    cases hd
    obtain ⟨hcontext, hshows⟩ := shows_of_tokenize_error ht
    exact ⟨hcontext, shown_of_isClosed hclosed hshows⟩
  | unknown hclosed ht _ _ hk =>
    cases hd
    obtain ⟨hcontext, hshows⟩ := shows_of_classify_error (lexed_of_tokenize ht) hk
    exact ⟨hcontext, shown_of_isClosed hclosed hshows⟩
  | @failed tokens kind _ m' w hclosed ht _ _ hk hw =>
    cases hd
    have hkeeps := Action.keeps_statement (joins_fits s.text.toList) frame_alike kind _
      (placed_fits hclosed ht hk m')
    obtain ⟨-, hfits, hcontext⟩ := hkeeps.error hw
    exact ⟨hcontext, shown_of_isClosed hclosed hfits.shows⟩
  | executed => cases hd

/-! ### Steps -/

/-- The faults of a step are pinned to the statement under the counter, if there is one. -/
theorem Coherent.shown_of_step {m : Machine I O} (hm : m.Coherent) {d : Diagnostic}
    (hd : m.step.1 = .error d) {c : Context} (hc : d.context = some c) :
    ∃ s, m.program.statements[m.counter]? = some s ∧ c = ⟨m.counter + 1, s.text, s.offset⟩ ∧
      d.Shown s.text := by
  cases hs : m.program.statements[m.counter]? with
  | none =>
    rw [step_eq_of_none hs] at hd
    cases hd
    cases hc
  | some s =>
    refine ⟨s, rfl, ?_⟩
    cases hp : m.phase with
    | terminated =>
      rw [step_eq_of_terminated hs hp] at hd
      cases hd
      cases hc
      have hshows := shows_whole s.text.toList
      rw [byteLength_toList] at hshows
      refine ⟨rfl, iff_of_true hshows.1 ?_, hshows.2⟩
      rintro ⟨hcause, -⟩
      cases hcause
    | running =>
      rw [step_eq_execute hs hp] at hd
      cases he : (m.execute s).1 with
      | ok step =>
        rw [he] at hd
        cases hd
      | error d' =>
        rw [he] at hd
        cases hd
        obtain ⟨hcontext, hshown⟩ := (hm.executes hs).shown he
        have hc : (d'.context <|> some ⟨m.counter + 1, s.text, s.offset⟩) = some c := hc
        rw [hcontext] at hc
        cases hc
        exact ⟨rfl, hshown.start, hshown.stop⟩

end Machine

/-! ### Loading -/

/-- The front of a text up to a boundary of it. -/
theorem shows_front {cs : List Char} {span : Span} (hstart : span.start = 0) (hpos : 0 < span.stop)
    (hstop : Boundary cs span.stop) : span.Shows cs := by
  have hle := hstop.le
  have hmin : min span.start (byteLength cs - 1) = 0 := by omega
  have hmax : min (max span.stop 1) (byteLength cs) = span.stop := by omega
  constructor
  · simp only [Span.shown, hmin]
    exact Boundary.zero cs
  · simp only [Span.shown, hmin, Nat.zero_add, hmax]
    exact hstop

theorem shown_of_load {source : String} {d : Diagnostic} {c : Context}
    (h : Program.load source = .error d) (hc : d.context = some c) :
    c.text.toList ≠ [] ∧ d.Shown c.text := by
  obtain ⟨-, hcause, hstart, hpos, hstop⟩ := Program.fault_located h hc
  have hshows := shows_front hstart hpos hstop
  have hle := hstop.le
  refine ⟨fun hnil => ?_, iff_of_true hshows.1 fun htears => hcause htears.1, hshows.2⟩
  rw [hnil, byteLength_nil] at hle
  omega

/-! ### Ranges in the source -/

/-- From the offset on, the source has the gap and then the text. -/
theorem Source.Located.boundary_iff {source gap text : List Char} {number offset : Nat}
    (h : Located source number offset gap text) {k : Nat} (hk : k ≤ byteLength text) :
    Boundary source (offset + k) ↔ Boundary (gap ++ text) k := by
  obtain ⟨pre, post, hsource, hoffset, -⟩ := h
  have hstands : StandsAt source offset (gap ++ text) := ⟨pre, post, by rw [hsource]; simp, hoffset⟩
  have hle : k ≤ byteLength (gap ++ text) := by
    rw [byteLength_append]
    omega
  exact hstands.boundary_iff hle

/-- Where the text of a context stands says where the range of its report lies. -/
theorem Source.Located.range {source : List Char} {number : Nat} {gap : List Char} {c : Context}
    (h : Located source number c.offset gap c.text.toList) (hne : c.text.toList ≠ [])
    {d : Diagnostic} (hd : d.Shown c.text) :
    (c.range d.span).start < (c.range d.span).stop ∧ (c.range d.span).stop ≤ byteLength source ∧
    (gap = [] → (Boundary source (c.range d.span).start ↔ ¬d.Tears c.text) ∧
      Boundary source (c.range d.span).stop) ∧
    (Boundary source (c.range d.span).start ↔
      Boundary (gap ++ c.text.toList) (d.span.shown c.text.toList).start) ∧
    (Boundary source (c.range d.span).stop ↔
      Boundary (gap ++ c.text.toList) (d.span.shown c.text.toList).stop) := by
  obtain ⟨hlt, hle⟩ := Span.shown_proper hne d.span
  have hstart := h.boundary_iff (Nat.le_of_lt (Nat.lt_of_lt_of_le hlt hle))
  have hstop := h.boundary_iff hle
  have hinside := h.standsAt.le
  rw [Context.range_eq hne]
  refine ⟨by simp only; omega, by simp only; omega, ?_, hstart, hstop⟩
  rintro rfl
  exact ⟨hstart.trans hd.start, hstop.mpr hd.stop⟩

/-- The range of the report on a run that failed in a statement. -/
theorem range_of_runSource_error [Reader I] [Writer O] {fuel : Nat} {source : String} {input : I}
    {sink : O} {detail : Detail} {d : Diagnostic} {c : Context}
    (h : (runSource fuel source input sink detail).result = some (.error d))
    (hc : d.context = some c) :
    ∃ number line gap, (lines source.toList)[number - 1]? = some line ∧
      Located source.toList number c.offset gap c.text.toList ∧
      (gap = [] ↔ match Program.load source with
        | .ok _ => Clean line
        | .error _ => '\r' ∉ lead (content line)) ∧
      (c.range d.span).start < (c.range d.span).stop ∧
      (c.range d.span).stop ≤ source.utf8ByteSize ∧
      (gap = [] → (Boundary source.toList (c.range d.span).start ↔ ¬d.Tears c.text) ∧
        Boundary source.toList (c.range d.span).stop) ∧
      (Boundary source.toList (c.range d.span).start ↔
        Boundary (gap ++ c.text.toList) (d.span.shown c.text.toList).start) ∧
      (Boundary source.toList (c.range d.span).stop ↔
        Boundary (gap ++ c.text.toList) (d.span.shown c.text.toList).stop) := by
  rw [← byteLength_toList]
  rcases runSource_error h with hload | ⟨p, hload, ⟨m, hm, hd⟩ | ⟨reason, rfl⟩⟩
  · obtain ⟨⟨number, line, gap, hline, hlocated, hgap, -⟩, -⟩ := Program.fault_located hload hc
    obtain ⟨hne, hshown⟩ := shown_of_load hload hc
    refine ⟨number, line, gap, hline, hlocated, ?_, hlocated.range hne hshown⟩
    rw [hload]
    exact hgap
  · obtain ⟨rfl, hcoherent⟩ := hm.coherent
    obtain ⟨s, hs, hcontext, hshown⟩ := hcoherent.shown_of_step hd hc
    obtain ⟨line, gap, hline, hlocated, hgap, -⟩ := Program.statement_located hload hs
    have hne := Program.text_ne_nil hload hs
    have htext : s.text = c.text := by rw [hcontext]
    have hoffset : s.offset = c.offset := by rw [hcontext]
    rw [htext] at hlocated hne hshown
    rw [hoffset] at hlocated
    refine ⟨s.line, line, gap, hline, hlocated, ?_, hlocated.range hne hshown⟩
    rw [hload]
    exact hgap
  · cases hc

/-- A character of two bytes behind a label is shown as a whole. -/
theorem range_of_runSource_error_labelled :
    (runSource 1 "a: é;\nstop;" ([] : List UInt8) Sink.unlimited .warn).result =
      some (.error ⟨.unrecognized "é", ⟨0, 2⟩, some ⟨1, "é;", 3⟩⟩) ∧
    ∃ number gap, Located "a: é;\nstop;".toList number 3 gap "é;".toList ∧
      (gap = [] → Boundary "a: é;\nstop;".toList 5) := by
  have hrun : (runSource 1 "a: é;\nstop;" ([] : List UInt8) Sink.unlimited .warn).result =
      some (.error ⟨.unrecognized "é", ⟨0, 2⟩, some ⟨1, "é;", 3⟩⟩) := by decide +kernel
  have hrange : Context.range ⟨1, "é;", 3⟩ ⟨0, 2⟩ = ⟨3, 5⟩ := by decide +kernel
  obtain ⟨number, line, gap, -, hlocated, -, -, -, hends, -⟩ := range_of_runSource_error hrun rfl
  rw [hrange] at hends
  exact ⟨hrun, number, gap, hlocated, fun hgap => (hends hgap).2⟩

/-- The last byte of a statement without a semicolon can lie inside of a character, and then there is
no snippet. -/
theorem range_torn_unclosed : ∃ d c,
    (runSource 1 "é\nstop;" ([] : List UInt8) Sink.unlimited .warn).result = some (.error d) ∧
      d.context = some c ∧
      ¬Boundary "é\nstop;".toList (c.range d.span).start ∧
      d.snippet? "é\nstop;" "<program>" false = some .torn := by
  have hrun : (runSource 1 "é\nstop;" ([] : List UInt8) Sink.unlimited .warn).result =
      some (.error ⟨.missingSemicolon, ⟨1, 2⟩, some ⟨1, "é", 0⟩⟩) := by decide +kernel
  have hrange : Context.range ⟨1, "é", 0⟩ ⟨1, 2⟩ = ⟨1, 2⟩ := by decide +kernel
  refine ⟨_, ⟨1, "é", 0⟩, hrun, rfl, ?_, by decide +kernel⟩
  rw [hrange]
  rintro ⟨pre, post, hsplit, hpre⟩
  have hpre : byteLength pre = 1 := hpre
  cases pre with
  | nil => cases hpre
  | cons c pre =>
    have hc : 'é' = c := (List.cons.inj hsplit).1
    have hsize : c.utf8Size = 2 := by rw [← hc]; rfl
    rw [byteLength_cons] at hpre
    omega

end Primer
