import Mathlib.Logic.Relation
import Primer.Proofs.Program.Codes
import Primer.Proofs.Program.Offsets

/-!
# The layout of a source

How a source is laid out: lines without code, line feeds with and without a carriage return, blanks at either
end of a line, comments.  Changes of the layout leave the code of the lines as it is, and so all that is loaded
but the places of the statements in the source.

* `Edit source source'`: one change of the layout.
* `Edit.codes_eq`: it keeps the lines of code.
* `Diagnostic.unplaced`, `Program.unplaced`: all but the places in the source.
* `load_unplaced`: what is loaded from the same lines of code, up to places.
-/

namespace Primer

open Text

namespace Source

/-! ### Blanks around code -/

theorem trimBlanks_append_left {blanks : List Char} (h : ∀ c ∈ blanks, isTrimmed c = true)
    (cs : List Char) : trimBlanks (blanks ++ cs) = trimBlanks cs := by
  show trimEnd isTrimmed ((blanks ++ cs).dropWhile isTrimmed) = _
  rw [List.dropWhile_append_of_pos h]
  rfl

theorem trimEnd_append_right {blanks : List Char} (h : ∀ c ∈ blanks, isTrimmed c = true)
    (cs : List Char) : trimEnd isTrimmed (cs ++ blanks) = trimEnd isTrimmed cs := by
  have hreverse : ∀ c ∈ blanks.reverse, isTrimmed c = true := fun c hc => h c (List.mem_reverse.mp hc)
  rw [trimEnd, List.reverse_append, List.dropWhile_append_of_pos hreverse, trimEnd]

theorem trimBlanks_append_right {blanks : List Char} (h : ∀ c ∈ blanks, isTrimmed c = true)
    (cs : List Char) : trimBlanks (cs ++ blanks) = trimBlanks cs := by
  show trimEnd isTrimmed ((cs ++ blanks).dropWhile isTrimmed) = trimEnd isTrimmed (cs.dropWhile isTrimmed)
  rw [List.dropWhile_append]
  split
  · rename_i hnil
    have hall : blanks.dropWhile isTrimmed = [] := List.dropWhile_eq_nil_iff.mpr h
    rw [hall, List.isEmpty_iff.mp hnil]
  · exact trimEnd_append_right h _

/-- A character that is neither a slash nor a quote is passed over. -/
theorem cutComment_cons {c : Char} (hslash : c ≠ '/') (hquote : c ≠ '"') (quotes : Nat)
    (rest : List Char) : cutComment quotes (c :: rest) = c :: cutComment quotes rest := by
  rw [cutComment, if_neg hquote]
  rintro tail rfl -
  exact hslash rfl

theorem cutComment_blanks {blanks : List Char} (h : ∀ c ∈ blanks, isTrimmed c = true) (quotes : Nat)
    (rest : List Char) : cutComment quotes (blanks ++ rest) = blanks ++ cutComment quotes rest := by
  induction blanks with
  | nil => rfl
  | cons c blanks ih =>
    obtain ⟨hc, hblanks⟩ := List.forall_mem_cons.mp h
    obtain ⟨hslash, hquote⟩ := not_syntax_of_isTrimmed hc
    rw [List.cons_append, cutComment_cons hslash hquote, ih hblanks]
    rfl

/-- A cut is made before a character that no comment begins with, or all up to it is passed over. -/
theorem cutComment_append (quotes : Nat) (line : List Char) {c : Char} (hslash : c ≠ '/')
    (hquote : c ≠ '"') (rest : List Char) :
    cutComment quotes (line ++ c :: rest) = cutComment quotes line ∨
      cutComment quotes line = line ∧ cutComment quotes (line ++ c :: rest) =
        line ++ c :: cutComment (quotes + line.count '"') rest := by
  fun_induction cutComment quotes line with
  | case1 quotes => exact .inr ⟨rfl, cutComment_cons hslash hquote quotes rest⟩
  | case2 quotes line heven =>
    left
    rw [List.cons_append, List.cons_append, cutComment, if_pos heven]
  | case3 quotes line hodd ih =>
    have hstep : cutComment quotes ('/' :: '/' :: line ++ c :: rest) =
        '/' :: '/' :: cutComment quotes (line ++ c :: rest) := by
      rw [List.cons_append, List.cons_append, cutComment, if_neg hodd]
    rw [hstep]
    rcases ih with hcut | ⟨hline, hcut⟩
    · exact .inl (by rw [hcut])
    · exact .inr ⟨by rw [hline], by rw [hcut]; simp⟩
  | case4 quotes c' line hslashes ih =>
    have hstep : cutComment quotes (c' :: line ++ c :: rest) =
        c' :: cutComment (if c' = '"' then quotes + 1 else quotes) (line ++ c :: rest) := by
      rw [List.cons_append, cutComment]
      rintro tail rfl htail
      cases line with
      | nil => exact hslash (List.cons.inj htail).1
      | cons d line =>
        obtain ⟨rfl, -⟩ := List.cons.inj htail
        exact hslashes line rfl rfl
    rw [hstep]
    rcases ih with hcut | ⟨hline, hcut⟩
    · exact .inl (by rw [hcut])
    · refine .inr ⟨by rw [hline], ?_⟩
      rw [hcut]
      by_cases hc' : c' = '"'
      · subst hc'
        simp [Nat.add_assoc, Nat.add_comm 1]
      · simp [hc']

/-! ### The code of a line -/

theorem code_pad {blanks : List Char} (h : ∀ c ∈ blanks, isTrimmed c = true) (line : List Char) :
    trimBlanks (cutComment 0 (line ++ blanks)) = trimBlanks (cutComment 0 line) := by
  cases blanks with
  | nil => rw [List.append_nil]
  | cons c blanks =>
    obtain ⟨hc, hblanks⟩ := List.forall_mem_cons.mp h
    obtain ⟨hslash, hquote⟩ := not_syntax_of_isTrimmed hc
    have hall := cutComment_blanks hblanks (0 + line.count '"') []
    rw [List.append_nil] at hall
    rcases cutComment_append 0 line hslash hquote blanks with hcut | ⟨hline, hcut⟩
    · rw [hcut]
    · rw [hcut, hline, hall, cutComment, List.append_nil]
      exact trimBlanks_append_right h line

/-- Inside a line, the carriage returns at its end are trimmed as all others are. -/
theorem codeOf_eq_trimBlanks {line : List Char} (h : '\n' ∉ line) :
    codeOf line = trimBlanks (cutComment 0 line) := by
  obtain ⟨tail, htail, hall⟩ := trimEnd_append (fun c => c = '\n' || c = '\r') line
  have hreturns : ∀ c ∈ tail, isTrimmed c = true := by
    intro c hc
    have hline : c ∈ line := by
      rw [htail]
      exact List.mem_append_right _ hc
    have hc' : c = '\n' ∨ c = '\r' := by simpa using hall c hc
    rcases hc' with rfl | rfl
    · exact absurd hline h
    · rfl
  rw [codeOf_eq, content]
  conv_rhs => rw [htail]
  exact (code_pad hreturns _).symm

theorem codeOf_pad {line blanks : List Char} (hline : '\n' ∉ line)
    (h : ∀ c ∈ blanks, isTrimmed c = true) : codeOf (line ++ blanks) = codeOf line := by
  have hboth : '\n' ∉ line ++ blanks := by
    rw [List.mem_append]
    rintro (hmem | hmem)
    · exact hline hmem
    · exact absurd (h _ hmem) (by decide)
  rw [codeOf_eq_trimBlanks hboth, codeOf_eq_trimBlanks hline, code_pad h]

theorem codeOf_indent {line blanks : List Char} (hline : '\n' ∉ line)
    (h : ∀ c ∈ blanks, isTrimmed c = true) : codeOf (blanks ++ line) = codeOf line := by
  have hboth : '\n' ∉ blanks ++ line := by
    rw [List.mem_append]
    rintro (hmem | hmem)
    · exact absurd (h _ hmem) (by decide)
    · exact hline hmem
  rw [codeOf_eq_trimBlanks hboth, codeOf_eq_trimBlanks hline, cutComment_blanks h,
    trimBlanks_append_left h]

/-- A comment outside quotes is no code. -/
theorem codeOf_comment {line text : List Char} (hline : '\n' ∉ line) (htext : '\n' ∉ text)
    (heven : line.count '"' % 2 = 0) : codeOf (line ++ ' ' :: '/' :: '/' :: text) = codeOf line := by
  have hboth : '\n' ∉ line ++ ' ' :: '/' :: '/' :: text := by simp [hline, htext]
  have hspace : ∀ c ∈ [' '], isTrimmed c = true := List.forall_mem_singleton.mpr rfl
  rw [codeOf_eq_trimBlanks hboth, codeOf_eq_trimBlanks hline]
  rcases cutComment_append 0 line (c := ' ') (by decide) (by decide) ('/' :: '/' :: text) with
    hcut | ⟨hline, hcut⟩
  · rw [hcut]
  · rw [hcut, hline, Nat.zero_add, cutComment, if_pos heven]
    exact trimBlanks_append_right hspace line

/-! ### Edits -/

/-- `before` ends where a line starts. -/
def AtStart (before : List Char) : Prop := before = [] ∨ ∃ earlier, before = earlier ++ ['\n']

/-- `behind` begins where a line ends: with its carriage returns, if there are any, and its line feed. -/
def AtEnd (behind : List Char) : Prop :=
  ∃ returns rest, behind = returns ++ rest ∧ (∀ c ∈ returns, c = '\r') ∧
    (rest = [] ∨ ∃ later, rest = '\n' :: later)

/-- One change of the layout of a source. -/
inductive Edit : List Char → List Char → Prop
  /-- A line of blanks comes in, perhaps with a comment. -/
  | insert {before behind blanks comment : List Char} (hbefore : AtStart before)
    (hblanks : ∀ c ∈ blanks, isBlank c = true)
    (hcomment : comment = [] ∨ ∃ text, '\n' ∉ text ∧ comment = '/' :: '/' :: text) :
    Edit (before ++ behind) (before ++ (blanks ++ comment ++ '\n' :: behind))
  /-- All line feeds get carriage returns. -/
  | returns (source : List Char) :
    Edit source (source.flatMap fun c => if c = '\n' then ['\r', '\n'] else [c])
  /-- Blanks come in at the start of a line. -/
  | indent {before behind blanks : List Char} (hbefore : AtStart before)
    (hblanks : ∀ c ∈ blanks, isBlank c = true) :
    Edit (before ++ behind) (before ++ (blanks ++ behind))
  /-- Blanks come in at the end of a line. -/
  | pad {before behind blanks : List Char} (hbehind : AtEnd behind)
    (hblanks : ∀ c ∈ blanks, isBlank c = true) :
    Edit (before ++ behind) (before ++ (blanks ++ behind))
  /-- A comment comes in at the end of a line with an even number of quotes. -/
  | comment {before line behind text : List Char} (hbefore : AtStart before) (hline : '\n' ∉ line)
    (hbehind : AtEnd behind) (heven : line.count '"' % 2 = 0) (htext : '\n' ∉ text) :
    Edit (before ++ (line ++ behind)) (before ++ (line ++ (' ' :: '/' :: '/' :: text) ++ behind))

/-- The code before the start of a line and the code behind it. -/
theorem codes_append {before : List Char} (h : AtStart before) (behind : List Char) :
    codes (before ++ behind) = codes before ++ codes behind := by
  rcases h with rfl | ⟨earlier, rfl⟩
  · rw [codes_nil]
    rfl
  · have hfeed : ∀ rest, codes (earlier ++ '\n' :: rest) = codes earlier ++ codes rest := by
      intro rest
      rw [codes, List.splitOn_append_cons_self, List.map_append, List.filter_append]
      rfl
    rw [List.append_assoc, List.singleton_append, hfeed, hfeed, codes_nil, List.append_nil]

/-- Lines with the same code can stand for each other. -/
theorem codes_replace {before line line' behind : List Char} (hbefore : AtStart before)
    (hbehind : AtEnd behind) (hline : '\n' ∉ line) (hline' : '\n' ∉ line')
    (h : codeOf line' = codeOf line) :
    codes (before ++ (line' ++ behind)) = codes (before ++ (line ++ behind)) := by
  obtain ⟨returns, rest, rfl, hreturns, hrest⟩ := hbehind
  have htail : ∀ c ∈ returns, isTrimmed c = true := by
    intro c hc
    rw [hreturns c hc]
    rfl
  have hfeed : '\n' ∉ returns := fun hmem => absurd (htail _ hmem) (by decide)
  have hwhole : '\n' ∉ line ++ returns := by simp [hline, hfeed]
  have hwhole' : '\n' ∉ line' ++ returns := by simp [hline', hfeed]
  have hcode : codeOf (line' ++ returns) = codeOf (line ++ returns) := by
    rw [codeOf_pad hline' htail, codeOf_pad hline htail, h]
  rw [codes_append hbefore, codes_append hbefore, ← List.append_assoc, ← List.append_assoc]
  rcases hrest with rfl | ⟨later, rfl⟩
  · rw [List.append_nil, List.append_nil, codes_last hwhole, codes_last hwhole', hcode]
  · rw [codes_next hwhole, codes_next hwhole', codes_last hwhole, codes_last hwhole', hcode]

theorem isTrimmed_of_isBlank {c : Char} (h : isBlank c = true) : isTrimmed c = true := by
  simp [isTrimmed, h]

theorem not_mem_of_isBlank {blanks : List Char} (h : ∀ c ∈ blanks, isBlank c = true) : '\n' ∉ blanks :=
  fun hmem => absurd (h _ hmem) (by decide)

/-- Every place in a text is in a line that starts before it. -/
theorem exists_line_before (cs : List Char) :
    ∃ before line, cs = before ++ line ∧ AtStart before ∧ '\n' ∉ line := by
  induction cs using induction_on_lines with
  | last line hline => exact ⟨[], line, rfl, .inl rfl, hline⟩
  | next first rest hfirst ih =>
    obtain ⟨before, line, rfl, hbefore, hline⟩ := ih
    refine ⟨first ++ '\n' :: before, line, by simp, .inr ?_, hline⟩
    rcases hbefore with rfl | ⟨earlier, rfl⟩
    · exact ⟨first, rfl⟩
    · exact ⟨first ++ '\n' :: earlier, by simp⟩

/-- Every place in a text is in a line that ends behind it. -/
theorem exists_line_behind (cs : List Char) :
    ∃ line behind, cs = line ++ behind ∧ '\n' ∉ line ∧ AtEnd behind := by
  by_cases hfeed : '\n' ∈ cs
  · obtain ⟨line, rest, rfl, hline⟩ := List.eq_append_cons_of_mem hfeed
    exact ⟨line, '\n' :: rest, rfl, hline, [], _, rfl, by simp, .inr ⟨rest, rfl⟩⟩
  · exact ⟨cs, [], by simp, hfeed, [], [], rfl, by simp, .inl rfl⟩

theorem codes_returns (source : List Char) :
    codes (source.flatMap fun c => if c = '\n' then ['\r', '\n'] else [c]) = codes source := by
  have hsame : ∀ line : List Char, '\n' ∉ line →
      line.flatMap (fun c => if c = '\n' then ['\r', '\n'] else [c]) = line := by
    intro line hline
    induction line with
    | nil => rfl
    | cons c line ih =>
      obtain ⟨hc, hrest⟩ : '\n' ≠ c ∧ '\n' ∉ line := by simpa using hline
      rw [List.flatMap_cons, if_neg (Ne.symm hc), ih hrest]
      rfl
  induction source using induction_on_lines with
  | last line hline => rw [hsame line hline]
  | next line rest hline ih =>
    have hreturn : '\n' ∉ line ++ ['\r'] := by simp [hline]
    have hcode : codeOf (line ++ ['\r']) = codeOf line := codeOf_pad hline (List.forall_mem_singleton.mpr rfl)
    rw [List.flatMap_append, hsame line hline, List.flatMap_cons, if_pos rfl, List.cons_append,
      List.singleton_append, List.append_cons, codes_next hreturn, codes_next hline, codes_last hreturn,
      codes_last hline, hcode, ih]

/-- A change of the layout keeps the lines of code. -/
theorem Edit.codes_eq {source source' : List Char} (h : Edit source source') :
    codes source' = codes source := by
  cases h with
  | @insert before behind blanks comment hbefore hblanks hcomment =>
    have htrimmed : ∀ c ∈ blanks, isTrimmed c = true := fun c hc => isTrimmed_of_isBlank (hblanks c hc)
    have hfeed : '\n' ∉ comment := by
      rcases hcomment with rfl | ⟨text, htext, rfl⟩
      · simp
      · simp [htext]
    have hnone : codeOf comment = [] := by
      rw [codeOf_eq_trimBlanks hfeed]
      rcases hcomment with rfl | ⟨text, htext, rfl⟩
      · rfl
      · rw [cutComment, if_pos rfl]
        rfl
    have hline : '\n' ∉ blanks ++ comment := by simp [not_mem_of_isBlank hblanks, hfeed]
    rw [codes_append hbefore, codes_append hbefore, codes_next hline, codes_last hline,
      codeOf_indent hfeed htrimmed, hnone]
    rfl
  | returns => exact codes_returns source
  | @indent before behind blanks hbefore hblanks =>
    obtain ⟨line, rest, rfl, hline, hrest⟩ := exists_line_behind behind
    have htrimmed : ∀ c ∈ blanks, isTrimmed c = true := fun c hc => isTrimmed_of_isBlank (hblanks c hc)
    have hboth : '\n' ∉ blanks ++ line := by simp [not_mem_of_isBlank hblanks, hline]
    rw [← List.append_assoc blanks]
    exact codes_replace hbefore hrest hline hboth (codeOf_indent hline htrimmed)
  | @pad before behind blanks hbehind hblanks =>
    obtain ⟨earlier, line, rfl, hearlier, hline⟩ := exists_line_before before
    have htrimmed : ∀ c ∈ blanks, isTrimmed c = true := fun c hc => isTrimmed_of_isBlank (hblanks c hc)
    have hboth : '\n' ∉ line ++ blanks := by simp [not_mem_of_isBlank hblanks, hline]
    rw [List.append_assoc, List.append_assoc, ← List.append_assoc line]
    exact codes_replace hearlier hbehind hline hboth (codeOf_pad hline htrimmed)
  | @comment before line behind text hbefore hline hbehind heven htext =>
    have hboth : '\n' ∉ line ++ ' ' :: '/' :: '/' :: text := by simp [hline, htext]
    exact codes_replace hbefore hbehind hline hboth (codeOf_comment hline htext heven)

theorem codes_eq_of_edits {source source' : List Char} (h : Relation.ReflTransGen Edit source source') :
    codes source' = codes source := by
  induction h with
  | refl => rfl
  | tail _ hedit ih => rw [hedit.codes_eq, ih]

end Source

/-! ### Places -/

/-- The diagnostic without the place of its statement in the source. -/
def Diagnostic.unplaced (d : Diagnostic) : Diagnostic :=
  { d with context := d.context.map fun c => { c with offset := 0 } }

theorem Diagnostic.unplaced_within {d d' : Diagnostic} (h : d'.unplaced = d.unplaced) {c c' : Context}
    (hnumber : c'.number = c.number) (htext : c'.text = c.text) :
    (d'.within c').unplaced = (d.within c).unplaced := by
  obtain ⟨cause, span, context⟩ := d
  obtain ⟨cause', span', context'⟩ := d'
  simp only [unplaced, mk.injEq] at h
  obtain ⟨rfl, rfl, hcontext⟩ := h
  cases context <;> cases context' <;> simp_all [unplaced, within]

namespace Program

open Source

/-- The program without the places of its statements in the source. -/
def unplaced (p : Program) : Program :=
  { p with statements := p.statements.map fun s => ⟨s.text, 0, 0⟩ }

/-- What is loaded, without places. -/
def unplacedResult (r : Except Diagnostic Program) : Except Diagnostic Program :=
  (r.map unplaced).mapError Diagnostic.unplaced

theorem unplaced_eq_iff {p p' : Program} : p'.unplaced = p.unplaced ↔
    p'.statements.map Statement.text = p.statements.map Statement.text ∧ p'.labels = p.labels := by
  have htexts : ∀ q : Program, q.unplaced.statements.map Statement.text = q.statements.map Statement.text :=
    fun q => by simp [unplaced, Function.comp_def]
  constructor
  · intro h
    exact ⟨by rw [← htexts p', h, htexts p], (congrArg labels h :)⟩
  · rintro ⟨hstatements, hlabels⟩
    have hunplaced : ∀ q : Program, q.statements.map (fun s => (⟨s.text, 0, 0⟩ : Statement)) =
        (q.statements.map Statement.text).map fun text => ⟨text, 0, 0⟩ :=
      fun q => by simp [Function.comp_def]
    rw [unplaced, unplaced, hunplaced, hunplaced, hstatements, hlabels]

variable {p p' : Program} {l l' : CodeLine}

theorem addLabel_unplaced (h : p'.unplaced = p.unplaced) (label : Option (List Char)) :
    unplacedResult (p'.addLabel label) = unplacedResult (p.addLabel label) := by
  obtain ⟨htexts, hlabels⟩ := unplaced_eq_iff.mp h
  have hsize : p'.statements.size = p.statements.size := by
    simpa using congrArg Array.size htexts
  cases label with
  | none => exact congrArg Except.ok h
  | some name =>
    have hlocation : p'.location? (String.ofList name) = p.location? (String.ofList name) := by
      rw [location?, location?, hlabels]
    unfold addLabel
    simp only [hlocation]
    cases p.location? (String.ofList name) with
    | some previous => rfl
    | none =>
      refine congrArg Except.ok (unplaced_eq_iff.mpr ⟨htexts, ?_⟩)
      rw [hlabels, hsize]

/-- What has been loaded without places, is equal in the two ways it can be. -/
theorem unplacedResult_eq_iff {r r' : Except Diagnostic Program} :
    unplacedResult r' = unplacedResult r ↔
      (∃ p p', r = .ok p ∧ r' = .ok p' ∧ p'.unplaced = p.unplaced) ∨
      ∃ d d', r = .error d ∧ r' = .error d' ∧ d'.unplaced = d.unplaced := by
  cases r <;> cases r' <;> simp [unplacedResult, Except.map, Except.mapError]

/-- The same code added to the same program, up to places. -/
theorem addCode_unplaced (h : p'.unplaced = p.unplaced) (hl : l'.code = l.code) :
    unplacedResult (p'.addCode l') = unplacedResult (p.addCode l) := by
  rw [addCode_eq, addCode_eq, hl]
  cases splitLabel l.code with
  | error d => rfl
  | ok parts =>
    simp only
    split
    · rfl
    · rcases unplacedResult_eq_iff.mp (addLabel_unplaced h parts.label) with
        ⟨p₁, p₁', hadd, hadd', hsame⟩ | ⟨d, d', hadd, hadd', hsame⟩
      · obtain ⟨htexts, hlabels⟩ := unplaced_eq_iff.mp hsame
        rw [hadd, hadd']
        refine congrArg Except.ok (unplaced_eq_iff.mpr ⟨?_, hlabels⟩)
        rw [Array.map_push, Array.map_push, htexts]
      · rw [hadd, hadd']
        exact congrArg Except.error hsame

theorem addLine_unplaced (h : p'.unplaced = p.unplaced) (hl : l'.code = l.code) :
    unplacedResult (p'.addLine l') = unplacedResult (p.addLine l) := by
  have hsize : p'.statements.size = p.statements.size := by
    simpa using congrArg Array.size (unplaced_eq_iff.mp h).1
  unfold addLine
  rcases unplacedResult_eq_iff.mp (addCode_unplaced h hl) with
    ⟨p₁, p₁', hadd, hadd', hsame⟩ | ⟨d, d', hadd, hadd', hsame⟩
  · rw [hadd, hadd']
    exact congrArg Except.ok hsame
  · rw [hadd, hadd']
    refine congrArg Except.error (Diagnostic.unplaced_within hsame ?_ ?_)
    · exact congrArg (· + 1) hsize
    · exact congrArg String.ofList hl

/-- Lines of the same code make up the same program, up to places. -/
theorem foldlM_unplaced {ls ls' : List CodeLine} (hls : ls'.map CodeLine.code = ls.map CodeLine.code)
    (h : p'.unplaced = p.unplaced) :
    unplacedResult (ls'.foldlM addLine p') = unplacedResult (ls.foldlM addLine p) := by
  induction ls generalizing ls' p p' with
  | nil =>
    obtain rfl : ls' = [] := by simpa using hls
    exact congrArg Except.ok h
  | cons l ls ih =>
    obtain ⟨l', ls', rfl, hl, hls⟩ := List.map_eq_cons_iff.mp hls
    rw [List.foldlM_cons, List.foldlM_cons]
    rcases unplacedResult_eq_iff.mp (addLine_unplaced h hl) with
      ⟨p₁, p₁', hadd, hadd', hsame⟩ | ⟨d, d', hadd, hadd', hsame⟩
    · rw [hadd, hadd']
      exact ih hls hsame
    · rw [hadd, hadd']
      exact congrArg Except.error hsame

theorem hasStop_unplaced (h : p'.unplaced = p.unplaced) : p'.hasStop = p.hasStop := by
  have htexts : ∀ q : Program, q.hasStop = (q.statements.map Statement.text).any fun text =>
      Word.leading text.toList = Keyword.stop.word.toList := by
    intro q
    simp only [hasStop, Array.any_map]
    rfl
  rw [htexts, htexts, (unplaced_eq_iff.mp h).1]

/-- What is loaded depends on the lines of code, up to places. -/
theorem load_unplaced {source source' : String} (h : codes source'.toList = codes source.toList) :
    unplacedResult (load source') = unplacedResult (load source) := by
  rw [← map_code_codeLines, ← map_code_codeLines] at h
  unfold load
  rcases unplacedResult_eq_iff.mp (foldlM_unplaced h (p := empty) rfl) with
    ⟨p, p', hfold, hfold', hsame⟩ | ⟨d, d', hfold, hfold', hsame⟩
  · rw [hfold, hfold']
    simp only [bind, Except.bind, hasStop_unplaced hsame]
    split
    · exact congrArg Except.ok hsame
    · rfl
  · rw [hfold, hfold']
    exact congrArg Except.error hsame

end Program

end Primer
