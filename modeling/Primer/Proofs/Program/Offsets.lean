import Mathlib.Data.List.Forall2
import Primer.Proofs.Program.Lines

/-!
# Offsets of statements

Where the loader says that a statement stands, and where it stands.  The loader strips carriage returns
from code as it strips blanks, but counts the blanks alone: with a carriage return among what it strips
in front, the offset falls short of the text.

* `Located source number offset gap text`: `text` stands `gap` behind the byte position `offset`, in the
  line of that number.
* `load_offsets`: the gap of every statement and of every fault, and when it is empty.
-/

namespace Primer

open Text

namespace Source

/-- In the line of the given number, `gap` stands at the byte position `offset` and `text` behind it. -/
def Located (source : List Char) (number offset : Nat) (gap text : List Char) : Prop :=
  ∃ pre post, source = pre ++ (gap ++ (text ++ post)) ∧ byteLength pre = offset ∧
    pre.count '\n' + 1 = number ∧ '\n' ∉ gap ++ text

namespace Located

variable {source gap text : List Char} {number offset : Nat}

/-- Where the gap is, the text is not. -/
theorem standsAt (h : Located source number offset gap text) :
    StandsAt source (offset + byteLength gap) text := by
  obtain ⟨pre, post, rfl, rfl, -, -⟩ := h
  exact ⟨pre ++ gap, post, by simp, by simp⟩

theorem prefix_or_prefix {pre pre' post post' : List Char} (h : pre ++ post = pre' ++ post') :
    pre <+: pre' ∨ pre' <+: pre :=
  List.prefix_or_prefix_of_prefix ⟨post, h⟩ ⟨post', rfl⟩

/-- Offsets grow with the lines. -/
theorem offset_lt {gap' text' : List Char} {number' offset' : Nat}
    (h : Located source number offset gap text) (h' : Located source number' offset' gap' text')
    (hlt : number < number') : offset < offset' := by
  obtain ⟨pre, post, hs, rfl, rfl, -⟩ := h
  obtain ⟨pre', post', hs', rfl, rfl, -⟩ := h'
  rcases prefix_or_prefix (hs.symm.trans hs') with ⟨tail, rfl⟩ | ⟨tail, rfl⟩
  · have hne : tail ≠ [] := by
      rintro rfl
      simp at hlt
    have hpos := byteLength_pos hne
    rw [byteLength_append]
    omega
  · rw [List.count_append] at hlt
    omega

/-- At the offset itself the text stands only by chance, or if there is no gap. -/
theorem standsAt_iff (h : Located source number offset gap text) :
    StandsAt source offset text ↔ text <+: gap ++ text := by
  obtain ⟨pre, post, hs, hpre, -, -⟩ := h
  constructor
  · rintro ⟨pre', post', hs', hpre'⟩
    obtain ⟨-, htail⟩ := append_inj_of_byteLength (hs'.symm.trans hs) (hpre'.trans hpre.symm)
    rw [← List.append_assoc] at htail
    have htext : text <+: text ++ post' := List.prefix_append text post'
    have hboth : gap ++ text <+: text ++ post' := by
      rw [htail]
      exact List.prefix_append (gap ++ text) post
    refine List.prefix_of_prefix_length_le htext hboth ?_
    rw [List.length_append]
    omega
  · rintro ⟨tail, htail⟩
    refine ⟨pre, tail ++ post, ?_, hpre⟩
    calc source = pre ++ ((gap ++ text) ++ post) := by rw [hs]; simp
      _ = pre ++ (text ++ (tail ++ post)) := by rw [← htail]; simp

/-- What starts with a carriage return is no start of a trimmed text. -/
theorem standsAt_iff_of_return (h : Located source number offset gap text) (htext : text ≠ [])
    (hlead : lead text = [])
    (hgap : ∀ c ∈ gap.head?, c = '\r') : StandsAt source offset text ↔ gap = [] := by
  rw [h.standsAt_iff]
  constructor
  · rintro ⟨tail, htail⟩
    cases gap with
    | nil => rfl
    | cons c gap =>
      obtain ⟨c', text', rfl⟩ := List.exists_cons_of_ne_nil htext
      have hc : c' = c := (List.cons.inj htail).1
      have htrimmed := (lead_eq_nil_iff _).mp hlead c' rfl
      rw [hc, hgap c rfl] at htrimmed
      cases htrimmed
  · rintro rfl
    exact List.prefix_refl text

end Located

/-- A piece of the content of a line is found in the source behind the lines before it. -/
theorem located_of_content {cs : List Char} {before after : List (List Char)} {line : List Char}
    (hlines : lines cs = before ++ line :: after) {front gap text tail : List Char}
    (hcontent : content line = front ++ (gap ++ (text ++ tail))) :
    Located cs (before.length + 1) (byteLength before.flatten + byteLength front) gap text := by
  obtain ⟨body, hbody, hline⟩ := lines_line hlines
  have hline : line = body ++ ['\n'] ∨ line = body := hline.imp_right And.left
  obtain ⟨hfeed, comment, hcomment⟩ := content_append hbody hline
  have hcs : cs = before.flatten ++ (line ++ after.flatten) := by
    rw [← flatten_lines cs, hlines]
    simp
  rw [hcontent] at hfeed hcomment
  have hfront : '\n' ∉ front := fun hmem => hfeed (List.mem_append_left _ hmem)
  refine ⟨before.flatten ++ front, tail ++ comment ++ after.flatten, ?_, ?_, ?_, ?_⟩
  · rw [hcs, hcomment]
    simp
  · rw [byteLength_append]
  · rw [List.count_append, count_flatten_lines hlines, List.count_eq_zero_of_not_mem hfront]
  · intro hmem
    refine hfeed (List.mem_append_right _ ?_)
    rw [← List.append_assoc]
    exact List.mem_append_left _ hmem

theorem getElem?_number {cs : List Char} {before after : List (List Char)} {line : List Char}
    (h : lines cs = before ++ line :: after) : (lines cs)[before.length + 1 - 1]? = some line := by
  rw [h, Nat.add_sub_cancel]
  simp

/-! ### Code and statements -/

variable {cs : List Char} {before after : List (List Char)} {line : List Char} {l : CodeLine}

/-- Code stands behind the part of its lead that lags. -/
theorem CodeLine.Of.located (h : l.Of before line) (hlines : lines cs = before ++ line :: after) :
    Located cs l.number l.offset (lag (content line)) l.code := by
  obtain ⟨tail, hcontent, -⟩ := trimBlanks_append (content line)
  rw [lead_eq, List.append_assoc, ← h.code] at hcontent
  rw [h.number, h.offset]
  exact located_of_content hlines hcontent

theorem utf8Size_of_isTrimmed {c : Char} (h : isTrimmed c = true) : c.utf8Size = 1 := by
  have hc : isBlank c = true ∨ c = '\r' := by simpa [isTrimmed] using h
  rcases hc with hc | rfl
  · exact utf8Size_of_isBlank hc
  · rfl

theorem utf8Size_of_mem_lead {cs : List Char} : ∀ c ∈ lead cs, c.utf8Size = 1 :=
  fun _ hc => utf8Size_of_isTrimmed (List.mem_takeWhile_imp hc)

/-- A label has characters of one byte alone, and so has what is trimmed around it. -/
theorem utf8Size_of_mem_label {front : List Char} (h : Word.isIdentifier (trimBlanks front) = true) :
    ∀ c ∈ front, c.utf8Size = 1 :=
  forall_mem_of_trimBlanks (fun _ => utf8Size_of_isTrimmed) (utf8Size_of_isIdentifier h)

/-- The content of a line with a label: what stands before the statement, and the statement. -/
theorem CodeLine.Of.content_eq (h : l.Of before line) {front behind : List Char}
    (hcode : l.code = front ++ ':' :: behind) : ∃ tail,
      content line = (lead (content line) ++ (front ++ ':' :: lead behind)) ++ (trimBlanks behind ++ tail) := by
  obtain ⟨tail, hcontent, -⟩ := trimBlanks_append (content line)
  obtain ⟨tail', hbehind, -⟩ := trimBlanks_append behind
  refine ⟨tail' ++ tail, ?_⟩
  calc content line
      = lead (content line) ++ (front ++ ':' :: (lead behind ++ (trimBlanks behind ++ tail')) ++ tail) := by
        rw [← hbehind, ← hcode, h.code, ← hcontent]
    _ = (lead (content line) ++ (front ++ ':' :: lead behind)) ++ (trimBlanks behind ++ (tail' ++ tail)) := by
        simp

/-- No carriage return is trimmed in front of the code of a line or behind its label. -/
def Clean (line : List Char) : Prop :=
  '\r' ∉ lead (content line) ∧
    ∀ behind ∈ behindLabel? (trimBlanks (content line)), '\r' ∉ lead behind

/-- The statement that a line of code becomes. -/
def Yields (l : CodeLine) (s : Statement) : Prop :=
  ∃ parts, splitLabel l.code = .ok parts ∧ parts.text ≠ [] ∧
    s = ⟨String.ofList parts.text, l.number, l.offset + parts.offset⟩

/-- What stands before a labelled statement has characters of one byte alone, so the offset cuts it,
and as much is left behind the cut as lags in the two leads. -/
theorem exists_gap {front : List Char} (h : Word.isIdentifier (trimBlanks front) = true)
    (whole behind : List Char) :
    ∃ a gap, lead whole ++ (front ++ ':' :: lead behind) = a ++ gap ∧
      byteLength a = byteLength (whole.takeWhile isBlank) +
        (byteLength front + 1 + byteLength (behind.takeWhile isBlank)) ∧
      byteLength gap = byteLength (lag whole) + byteLength (lag behind) := by
  have hascii : ∀ c ∈ lead whole ++ (front ++ ':' :: lead behind), c.utf8Size = 1 := by
    intro c hc
    rcases List.mem_append.mp hc with hc | hc
    · exact utf8Size_of_mem_lead c hc
    rcases List.mem_append.mp hc with hc | hc
    · exact utf8Size_of_mem_label h c hc
    rcases List.mem_cons.mp hc with rfl | hc
    · rfl
    · exact utf8Size_of_mem_lead c hc
  have hlength : byteLength (lead whole ++ (front ++ ':' :: lead behind)) =
      byteLength (whole.takeWhile isBlank) +
        (byteLength front + 1 + byteLength (behind.takeWhile isBlank)) +
        (byteLength (lag whole) + byteLength (lag behind)) := by
    have hcolon : ':'.utf8Size = 1 := rfl
    simp only [lead_eq, byteLength_append, byteLength_cons, hcolon]
    omega
  have hle : byteLength (whole.takeWhile isBlank) +
      (byteLength front + 1 + byteLength (behind.takeWhile isBlank)) ≤
      byteLength (lead whole ++ (front ++ ':' :: lead behind)) := by omega
  obtain ⟨a, gap, hsplit, ha⟩ := exists_append_of_ascii hascii hle
  refine ⟨a, gap, hsplit, ha, ?_⟩
  rw [hsplit, byteLength_append] at hlength
  omega

/-- If nothing lags before the label, the gap is what lags behind it. -/
theorem gap_eq_lag {whole front behind a gap : List Char}
    (hsplit : lead whole ++ (front ++ ':' :: lead behind) = a ++ gap)
    (hgap : byteLength gap = byteLength (lag behind)) : gap = lag behind := by
  have hend : a ++ gap =
      (lead whole ++ (front ++ ':' :: behind.takeWhile isBlank)) ++ lag behind := by
    rw [← hsplit, lead_eq behind]
    simp
  have htotal := congrArg byteLength hend
  rw [byteLength_append, byteLength_append] at htotal
  exact (append_inj_of_byteLength hend (by omega)).2

/-- A statement stands behind the parts of the two leads that lag.  Behind one lead alone, what lags
starts with a carriage return. -/
theorem Yields.located {s : Statement} (hs : Yields l s) (h : l.Of before line)
    (hlines : lines cs = before ++ line :: after) :
    ∃ gap, Located cs s.line s.offset gap s.text.toList ∧ (gap = [] ↔ Clean line) ∧
      (behindLabel? (trimBlanks (content line)) = none ∨ '\r' ∉ lead (content line) →
        ∀ c ∈ gap.head?, c = '\r') := by
  obtain ⟨parts, hparts, -, rfl⟩ := hs
  rcases splitLabel_eq_ok hparts with ⟨rfl, hnone⟩ | ⟨front, behind, hcode, hlabel, hsome, rfl⟩
  · refine ⟨lag (content line), ?_, ?_, fun _ => head_lag _⟩
    · simpa using h.located hlines
    · rw [lag_eq_nil_iff, Clean, ← h.code, hnone]
      simp
  · obtain ⟨tail, hcontent⟩ := h.content_eq hcode
    obtain ⟨a, gap, hsplit, ha, hgap⟩ := exists_gap hlabel (content line) behind
    refine ⟨gap, ?_, ?_, ?_⟩
    · have hplace : content line = a ++ (gap ++ (trimBlanks behind ++ tail)) := by
        rw [hsplit, List.append_assoc] at hcontent
        exact hcontent
      have hlocated := located_of_content hlines hplace
      rw [ha] at hlocated
      simpa [h.number, h.offset, Nat.add_assoc] using hlocated
    · have hnil : ∀ cs : List Char, cs = [] ↔ byteLength cs = 0 :=
        fun cs => ⟨fun hcs => by rw [hcs]; rfl, byteLength_eq_zero⟩
      rw [Clean, ← h.code, hsome, hnil, hgap, Nat.add_eq_zero_iff, ← hnil, ← hnil, lag_eq_nil_iff,
        lag_eq_nil_iff]
      simp
    · rw [← h.code, hsome]
      rintro (hnone | hclean)
      · cases hnone
      · rw [(lag_eq_nil_iff _).mpr hclean, byteLength_nil, Nat.zero_add] at hgap
        rw [gap_eq_lag hsplit hgap]
        exact head_lag behind

theorem lead_text_of_yields {s : Statement} (hs : Yields l s) (hcode : lead l.code = []) :
    lead s.text.toList = [] ∧ s.text.toList ≠ [] := by
  obtain ⟨parts, hparts, hne, rfl⟩ := hs
  refine ⟨?_, by simpa using hne⟩
  rcases splitLabel_eq_ok hparts with ⟨rfl, -⟩ | ⟨front, behind, -, -, -, rfl⟩
  · simpa using hcode
  · simpa using lead_trimBlanks behind

/-! ### Loading -/

end Source

open Source

namespace Program

theorem statements_of_addLabel {p p' : Program} {label : Option (List Char)}
    (h : p.addLabel label = .ok p') : p'.statements = p.statements := by
  unfold addLabel at h
  split at h
  · cases h
    rfl
  · split at h <;> cases h
    rfl

/-- What the addition of a line of code can do. -/
theorem addCode_eq (p : Program) (l : CodeLine) : p.addCode l = match splitLabel l.code with
    | .error d => .error d
    | .ok parts =>
      if parts.text.isEmpty then .error ⟨.bareLabel, ⟨0, byteLength l.code⟩, none⟩
      else match p.addLabel parts.label with
        | .error d => .error d
        | .ok p =>
          let s : Statement := ⟨String.ofList parts.text, l.number, l.offset + parts.offset⟩
          .ok { p with statements := p.statements.push s } := by
  unfold addCode
  cases splitLabel l.code with
  | error d => rfl
  | ok parts =>
    simp only [bind, Except.bind]
    split
    · rfl
    · cases p.addLabel parts.label <;> rfl

theorem yields_of_addCode {p p' : Program} {l : CodeLine} (h : p.addCode l = .ok p') :
    ∃ s, Yields l s ∧ p'.statements = p.statements.push s := by
  rw [addCode_eq] at h
  split at h
  · cases h
  · rename_i parts hparts
    split at h
    · cases h
    · rename_i htext
      split at h
      · cases h
      · rename_i p'' hlabel
        cases h
        refine ⟨_, ⟨parts, hparts, by simpa using htext, rfl⟩, ?_⟩
        rw [← statements_of_addLabel hlabel]

theorem span_of_addLabel_error {p : Program} {label : Option (List Char)} {d : Diagnostic}
    (h : p.addLabel label = .error d) :
    ∃ name, label = some name ∧ d.context = none ∧ d.cause ≠ .missingSemicolon ∧
      d.span = ⟨0, byteLength name⟩ := by
  unfold addLabel at h
  split at h
  · cases h
  · split at h <;> cases h
    exact ⟨_, rfl, rfl, by simp, rfl⟩

/-- A fault in a line of code is blamed on its front. -/
theorem span_of_addCode_error {p : Program} {l : CodeLine} (hne : l.code ≠ [])
    (hlead : lead l.code = []) {d : Diagnostic} (h : p.addCode l = .error d) :
    d.context = none ∧ d.cause ≠ .missingSemicolon ∧
      d.span.start = 0 ∧ 0 < d.span.stop ∧ Boundary l.code d.span.stop := by
  rw [addCode_eq] at h
  split at h
  · rename_i d' hparts
    cases h
    exact splitLabel_eq_error hparts
  · rename_i parts hparts
    split at h
    · cases h
      exact ⟨rfl, by simp, rfl, byteLength_pos hne, Boundary.length _⟩
    · split at h
      · rename_i d' hlabel
        cases h
        obtain ⟨name, hname, hcontext, hcause, hspan⟩ := span_of_addLabel_error hlabel
        rcases splitLabel_eq_ok hparts with ⟨rfl, -⟩ | ⟨front, behind, hcode, hid, -, rfl⟩
        · cases hname
        · cases hname
          have hname : trimBlanks front ≠ [] := by
            intro hnil
            rw [hnil] at hid
            cases hid
          -- nothing is trimmed before the label, as nothing is before the code
          obtain ⟨tail, hfront, -⟩ := trimBlanks_append front
          have hlead' : lead front = [] := by
            rw [lead_eq_nil_iff] at hlead ⊢
            intro c hc
            refine hlead c ?_
            rw [hcode, List.head?_append, hc]
            rfl
          rw [hlead', List.nil_append] at hfront
          rw [hspan]
          refine ⟨hcontext, hcause, rfl, byteLength_pos hname, trimBlanks front,
            tail ++ ':' :: behind, ?_, rfl⟩
          calc l.code = (trimBlanks front ++ tail) ++ ':' :: behind := by rw [← hfront, hcode]
            _ = trimBlanks front ++ (tail ++ ':' :: behind) := List.append_assoc ..
      · cases h

theorem addLine_eq_ok {p p' : Program} {l : CodeLine} (h : p.addLine l = .ok p') :
    p.addCode l = .ok p' := by
  unfold addLine at h
  cases hc : p.addCode l with
  | error d =>
    rw [hc] at h
    cases h
  | ok p₁ =>
    rw [hc] at h
    exact h

theorem addLine_eq_error {p : Program} {l : CodeLine} {d : Diagnostic} (h : p.addLine l = .error d) :
    ∃ d', p.addCode l = .error d' ∧
      d = d'.within ⟨p.statements.size + 1, String.ofList l.code, l.offset⟩ := by
  unfold addLine at h
  cases hc : p.addCode l with
  | error d' =>
    rw [hc] at h
    cases h
    exact ⟨d', rfl, rfl⟩
  | ok p₁ =>
    rw [hc] at h
    cases h

theorem addCode_of_foldlM {l : CodeLine} {ls : List CodeLine} {p p' : Program}
    (h : (l :: ls).foldlM addLine p = .ok p') :
    ∃ p₁, p.addCode l = .ok p₁ ∧ ls.foldlM addLine p₁ = .ok p' := by
  rw [List.foldlM_cons] at h
  cases hl : p.addLine l with
  | error d =>
    rw [hl] at h
    cases h
  | ok p₁ =>
    rw [hl] at h
    exact ⟨p₁, addLine_eq_ok hl, h⟩

/-- Every line of code becomes one statement. -/
theorem forall₂_of_foldlM {ls : List CodeLine} {p p' : Program} (h : ls.foldlM addLine p = .ok p') :
    ∃ new, p'.statements.toList = p.statements.toList ++ new ∧ List.Forall₂ Yields ls new := by
  induction ls generalizing p with
  | nil =>
    cases h
    exact ⟨[], by simp, .nil⟩
  | cons l ls ih =>
    obtain ⟨p₁, hcode, hrest⟩ := addCode_of_foldlM h
    obtain ⟨s, hs, hstatements⟩ := yields_of_addCode hcode
    obtain ⟨new, hnew, hall⟩ := ih hrest
    refine ⟨s :: new, ?_, .cons hs hall⟩
    rw [hnew, hstatements]
    simp

/-- A fault comes from the first line that cannot be added to what the lines before it make up. -/
theorem exists_of_foldlM_error {ls : List CodeLine} {p : Program} {d : Diagnostic}
    (h : ls.foldlM addLine p = .error d) :
    ∃ before l after p', ∃ d', ls = before ++ l :: after ∧ before.foldlM addLine p = .ok p' ∧
      p'.addCode l = .error d' ∧
      d = d'.within ⟨p'.statements.size + 1, String.ofList l.code, l.offset⟩ := by
  induction ls generalizing p with
  | nil => cases h
  | cons l ls ih =>
    rw [List.foldlM_cons] at h
    cases hl : p.addLine l with
    | ok p₁ =>
      rw [hl] at h
      obtain ⟨before, l', after, p', d', rfl, hbefore, hfault⟩ := ih h
      refine ⟨l :: before, l', after, p', d', rfl, ?_, hfault⟩
      rw [List.foldlM_cons, hl]
      exact hbefore
    | error d₁ =>
      rw [hl] at h
      cases h
      obtain ⟨d', hd', rfl⟩ := addLine_eq_error hl
      exact ⟨[], l, ls, p, d', rfl, rfl, hd', rfl⟩

theorem foldlM_of_load {source : String} {p : Program} (h : load source = .ok p) :
    (codeLines source).foldlM addLine empty = .ok p := by
  unfold load at h
  cases hf : (codeLines source).foldlM addLine empty with
  | error d =>
    rw [hf] at h
    cases h
  | ok p' =>
    rw [hf] at h
    simp only [bind, Except.bind] at h
    split at h <;> cases h
    rfl

theorem load_eq_ok {source : String} {p : Program} (h : load source = .ok p) :
    List.Forall₂ Yields (codeLines source) p.statements.toList := by
  obtain ⟨new, hnew, hall⟩ := forall₂_of_foldlM (foldlM_of_load h)
  have hnew : p.statements.toList = new := by simpa [empty] using hnew
  rwa [hnew]

/-- The number of statements counts the lines of code. -/
theorem size_of_foldlM {ls : List CodeLine} {p : Program} (h : ls.foldlM addLine empty = .ok p) :
    p.statements.size = ls.length := by
  obtain ⟨new, hnew, hall⟩ := forall₂_of_foldlM h
  have hlength := congrArg List.length hnew
  have hsame := hall.length_eq
  simp only [Array.length_toList, empty, List.nil_append] at hlength
  omega

theorem load_eq_error {source : String} {d : Diagnostic} (h : load source = .error d) :
    d = ⟨.missingStop, .single 0, none⟩ ∨
      ∃ before l after p, ∃ d', codeLines source = before ++ l :: after ∧
        before.foldlM addLine empty = .ok p ∧ p.addCode l = .error d' ∧
        d = d'.within ⟨before.length + 1, String.ofList l.code, l.offset⟩ := by
  unfold load at h
  cases hf : (codeLines source).foldlM addLine empty with
  | error d' =>
    rw [hf] at h
    cases h
    obtain ⟨before, l, after, p, d₁, hlines, hbefore, hfault, hd⟩ := exists_of_foldlM_error hf
    rw [size_of_foldlM hbefore] at hd
    exact .inr ⟨before, l, after, p, d₁, hlines, hbefore, hfault, hd⟩
  | ok p =>
    rw [hf] at h
    simp only [bind, Except.bind] at h
    split at h <;> cases h
    exact .inl rfl

/-! ### Statements and faults in the source -/

theorem exists_of_statements {source : String} {statements : Array Statement}
    (h : (load source).toOption.map Program.statements = some statements) :
    ∃ p, load source = .ok p ∧ p.statements = statements := by
  cases hload : load source with
  | error d =>
    rw [hload] at h
    cases h
  | ok p =>
    rw [hload] at h
    exact ⟨p, rfl, Option.some.inj h⟩

theorem exists_line_of_statement {source : String} {p : Program} (h : load source = .ok p) {i : Nat}
    {s : Statement} (hs : p.statements[i]? = some s) :
    ∃ l before line after, (codeLines source)[i]? = some l ∧ Yields l s ∧
      lines source.toList = before ++ line :: after ∧ l.Of before line := by
  have hall := load_eq_ok h
  have hs : p.statements.toList[i]? = some s := by rw [Array.getElem?_toList, hs]
  obtain ⟨hi, rfl⟩ := List.getElem?_eq_some_iff.mp hs
  have hi' : i < (codeLines source).length := by rw [hall.length_eq]; exact hi
  have hyields : Yields (codeLines source)[i] p.statements.toList[i] :=
    (List.forall₂_iff_get.mp hall).2 i hi' hi
  obtain ⟨before, line, after, hlines, hof⟩ :=
    exists_line_of_mem_codeLines (List.getElem_mem hi')
  exact ⟨_, before, line, after, List.getElem?_eq_getElem hi', hyields, hlines, hof⟩

theorem text_ne_nil {source : String} {p : Program} (h : load source = .ok p) {i : Nat}
    {s : Statement} (hs : p.statements[i]? = some s) : s.text.toList ≠ [] := by
  obtain ⟨l, -, -, -, -, ⟨parts, -, hne, rfl⟩, -⟩ := exists_line_of_statement h hs
  simpa using hne

/-- Lines of statements grow. -/
theorem line_lt_line {source : String} {p : Program} (h : load source = .ok p) {i j : Nat}
    {s t : Statement} (hij : i < j) (hs : p.statements[i]? = some s)
    (ht : p.statements[j]? = some t) : s.line < t.line := by
  obtain ⟨l, -, -, -, hl, ⟨parts, -, -, rfl⟩, -⟩ := exists_line_of_statement h hs
  obtain ⟨l', -, -, -, hl', ⟨parts', -, -, rfl⟩, -⟩ := exists_line_of_statement h ht
  obtain ⟨hi, rfl⟩ := List.getElem?_eq_some_iff.mp hl
  obtain ⟨hj, rfl⟩ := List.getElem?_eq_some_iff.mp hl'
  exact List.pairwise_iff_getElem.mp (pairwise_codeLinesFrom 1 0 (lines source.toList)) i j hi hj hij

/-- Where a statement stands. -/
theorem statement_located {source : String} {p : Program} (h : load source = .ok p) {i : Nat}
    {s : Statement} (hs : p.statements[i]? = some s) :
    ∃ line gap, (lines source.toList)[s.line - 1]? = some line ∧
      Located source.toList s.line s.offset gap s.text.toList ∧ (gap = [] ↔ Clean line) ∧
      (StandsAt source.toList s.offset s.text.toList ↔ s.text.toList <+: gap ++ s.text.toList) ∧
      (behindLabel? (trimBlanks (content line)) = none ∨ '\r' ∉ lead (content line) →
        (StandsAt source.toList s.offset s.text.toList ↔ Clean line)) := by
  obtain ⟨l, before, line, after, -, hyields, hlines, hof⟩ := exists_line_of_statement h hs
  obtain ⟨gap, hlocated, hgap, hreturn⟩ := hyields.located hof hlines
  have hlead : lead l.code = [] := by rw [hof.code]; exact lead_trimBlanks _
  obtain ⟨htext, hne⟩ := lead_text_of_yields hyields hlead
  have hline : s.line = before.length + 1 := by
    obtain ⟨parts, -, -, rfl⟩ := hyields
    exact hof.number
  refine ⟨line, gap, ?_, hlocated, hgap, hlocated.standsAt_iff, fun hone => ?_⟩
  · rw [hline]
    exact getElem?_number hlines
  · rw [← hgap]
    exact hlocated.standsAt_iff_of_return hne htext (hreturn hone)

/-- Where the code stands that a fault is pinned to, and how the fault lies in it. -/
theorem fault_located {source : String} {d : Diagnostic} {c : Context} (h : load source = .error d)
    (hc : d.context = some c) :
    (∃ number line gap, (lines source.toList)[number - 1]? = some line ∧
      Located source.toList number c.offset gap c.text.toList ∧
      (gap = [] ↔ '\r' ∉ lead (content line)) ∧
      (StandsAt source.toList c.offset c.text.toList ↔ '\r' ∉ lead (content line))) ∧
    d.cause ≠ .missingSemicolon ∧
      d.span.start = 0 ∧ 0 < d.span.stop ∧ Boundary c.text.toList d.span.stop := by
  rcases load_eq_error h with rfl | ⟨_, l, _, p, d', hcodes, -, hd', rfl⟩
  · cases hc
  · have hl : l ∈ codeLines source := by simp [hcodes]
    obtain ⟨before, line, after, hlines, hof⟩ := exists_line_of_mem_codeLines hl
    have hlead : lead l.code = [] := by rw [hof.code]; exact lead_trimBlanks _
    obtain ⟨hcontext, hspan⟩ := span_of_addCode_error hof.nonempty hlead hd'
    have hlocated := hof.located hlines
    rw [Diagnostic.within, hcontext] at hc
    cases hc
    simp only [String.toList_ofList]
    refine ⟨⟨l.number, line, lag (content line), ?_, hlocated, lag_eq_nil_iff _, ?_⟩, hspan⟩
    · rw [hof.number]
      exact getElem?_number hlines
    · rw [← lag_eq_nil_iff]
      exact hlocated.standsAt_iff_of_return hof.nonempty hlead (head_lag _)

/-- **The offsets that loading records.**  Each statement stands in its line behind its offset, at a
distance that is nothing just if no carriage return was trimmed in front of it or behind its label.
With a carriage return at one of these places the offset is wrong, unless the two lead to the same text
by chance.  The same goes for the code of a line that a fault is pinned to, and offsets and lines grow
from statement to statement in any case. -/
theorem load_offsets (source : String) :
    match load source with
    | .ok p =>
      (∀ (i : Nat) (s : Statement), p.statements[i]? = some s → ∃ line gap,
        (lines source.toList)[s.line - 1]? = some line ∧
        Located source.toList s.line s.offset gap s.text.toList ∧ (gap = [] ↔ Clean line) ∧
        (StandsAt source.toList s.offset s.text.toList ↔ s.text.toList <+: gap ++ s.text.toList) ∧
        (behindLabel? (trimBlanks (content line)) = none ∨ '\r' ∉ lead (content line) →
          (StandsAt source.toList s.offset s.text.toList ↔ Clean line))) ∧
      ∀ (i j : Nat) (s t : Statement), i < j → p.statements[i]? = some s →
        p.statements[j]? = some t → s.offset < t.offset ∧ s.line < t.line
    | .error d => ∀ c ∈ d.context, ∃ number line gap,
        (lines source.toList)[number - 1]? = some line ∧
        Located source.toList number c.offset gap c.text.toList ∧
        (gap = [] ↔ '\r' ∉ lead (content line)) ∧
        (StandsAt source.toList c.offset c.text.toList ↔ '\r' ∉ lead (content line)) := by
  split
  · rename_i p hp
    refine ⟨fun i s hs => statement_located hp hs, fun i j s t hij hs ht => ?_⟩
    have hline := line_lt_line hp hij hs ht
    obtain ⟨_, _, _, hs', _⟩ := statement_located hp hs
    obtain ⟨_, _, _, ht', _⟩ := statement_located hp ht
    exact ⟨hs'.offset_lt ht' hline, hline⟩
  · rename_i d hd
    exact fun c hc => (fault_located hd hc).1

/-- With a carriage return in front, `stop;` stands at byte 1 and is recorded at byte 0. -/
theorem load_offset_return : ∃ p s, load "\rstop;" = .ok p ∧ p.statements[0]? = some s ∧
    ¬StandsAt "\rstop;".toList s.offset s.text.toList := by
  have hload : (load "\rstop;").toOption.map (·.statements) = some #[⟨"stop;", 1, 0⟩] := by
    decide +kernel
  cases hp : load "\rstop;" with
  | error d =>
    rw [hp] at hload
    cases hload
  | ok p =>
    rw [hp] at hload
    have hp : p.statements = #[⟨"stop;", 1, 0⟩] := Option.some.inj hload
    refine ⟨p, ⟨"stop;", 1, 0⟩, rfl, by rw [hp]; rfl, ?_⟩
    rintro ⟨pre, post, hs, hpre⟩
    obtain rfl := byteLength_eq_zero hpre
    simp at hs

end Program

end Primer
