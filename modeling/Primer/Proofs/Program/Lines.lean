import Mathlib.Data.List.TakeWhile
import Primer.Program
import Primer.Proofs.Text.Boundary

/-!
# Lines of a source

How a source falls into lines, and each line into blanks, code and comment.

* `lines_line`, `count_flatten_lines`: lines are what line feeds delimit.
* `exists_line_of_mem_codeLines`: a line of code is one of the lines, and its number and offset are
  counted over the lines before it.
* `lead`, `lag`: the blanks that are trimmed in front, and the part of them that an offset leaves out.
-/

namespace Primer

open Text

namespace Source

/-! ### Cutting a source -/

theorem flatten_lines (cs : List Char) : (lines cs).flatten = cs := by
  induction cs with
  | nil => rfl
  | cons c cs ih =>
    rw [lines]
    by_cases hc : c = '\n'
    · rw [if_pos hc, List.flatten_cons, ih]
      rfl
    · rw [if_neg hc]
      cases hl : lines cs with
      | nil =>
        rw [hl] at ih
        rw [← ih]
        rfl
      | cons line rest =>
        rw [hl] at ih
        rw [← ih]
        rfl

/-- A line has its line feed at the end, and is the last one if it has none. -/
theorem lines_line {cs : List Char} {before after : List (List Char)} {line : List Char}
    (h : lines cs = before ++ line :: after) :
    ∃ body, '\n' ∉ body ∧ (line = body ++ ['\n'] ∨ line = body ∧ after = []) := by
  induction cs generalizing before line after with
  | nil => simp [lines] at h
  | cons c cs ih =>
    rw [lines] at h
    by_cases hc : c = '\n'
    · rw [if_pos hc] at h
      rcases List.cons_eq_append_iff.mp h with ⟨rfl, hline⟩ | ⟨before', rfl, hcs⟩
      · cases hline
        exact ⟨[], by simp, .inl (by rw [hc]; rfl)⟩
      · exact ih hcs
    · rw [if_neg hc] at h
      cases hl : lines cs with
      | nil =>
        rw [hl] at h
        rcases List.cons_eq_append_iff.mp h with ⟨rfl, hline⟩ | ⟨before', rfl, hcs⟩
        · cases hline
          exact ⟨[c], by simpa using Ne.symm hc, .inr ⟨rfl, rfl⟩⟩
        · simp at hcs
      | cons line' rest =>
        rw [hl] at h
        rcases List.cons_eq_append_iff.mp h with ⟨rfl, hline⟩ | ⟨before', rfl, hcs⟩
        · cases hline
          have hl' : lines cs = [] ++ line' :: after := hl
          obtain ⟨body, hbody, hend⟩ := ih hl'
          refine ⟨c :: body, by simpa using ⟨Ne.symm hc, hbody⟩, ?_⟩
          rcases hend with rfl | ⟨rfl, rfl⟩
          · exact .inl rfl
          · exact .inr ⟨rfl, rfl⟩
        · have hl' : lines cs = (line' :: before') ++ line :: after := by rw [hl, hcs]; rfl
          exact ih hl'

/-- As many line feeds stand before a line as lines do. -/
theorem count_flatten_lines {cs : List Char} {before after : List (List Char)} {line : List Char}
    (h : lines cs = before ++ line :: after) : before.flatten.count '\n' = before.length := by
  have hone : ∀ l ∈ before, l.count '\n' = 1 := by
    intro l hl
    obtain ⟨first, second, rfl⟩ := List.append_of_mem hl
    have h' : lines cs = first ++ l :: (second ++ line :: after) := by rw [h]; simp
    obtain ⟨body, hbody, rfl | ⟨-, hnil⟩⟩ := lines_line h'
    · rw [List.count_append, List.count_eq_zero_of_not_mem hbody]
      rfl
    · simp at hnil
  rw [List.count_flatten, List.map_congr_left hone, List.map_const', List.sum_replicate_nat,
    Nat.mul_one]

/-! ### Lines of code -/

/-- The code of the line `line`, which has the lines `before` in front of it. -/
structure CodeLine.Of (l : CodeLine) (before : List (List Char)) (line : List Char) : Prop where
  number : l.number = before.length + 1
  offset : l.offset = byteLength before.flatten + byteLength ((content line).takeWhile isBlank)
  code : l.code = trimBlanks (content line)
  nonempty : l.code ≠ []

theorem exists_line_of_mem_codeLinesFrom {l : CodeLine} {ls : List (List Char)} :
    ∀ {past : List (List Char)},
      l ∈ codeLinesFrom (past.length + 1) (byteLength past.flatten) ls →
      ∃ before line after, past ++ ls = before ++ line :: after ∧ l.Of before line ∧
        past.length ≤ before.length := by
  induction ls with
  | nil =>
    intro past h
    simp [codeLinesFrom] at h
  | cons line ls ih =>
    intro past h
    have hlater : ∀ {l : CodeLine}, l ∈ codeLinesFrom (past.length + 1 + 1)
        (byteLength past.flatten + byteLength line) ls → l ∈ codeLinesFrom
          ((past ++ [line]).length + 1) (byteLength (past ++ [line]).flatten) ls := by
      intro l hl
      simpa using hl
    rw [codeLinesFrom] at h
    by_cases hcode : (trimBlanks (content line)).isEmpty = true
    · rw [if_pos hcode] at h
      obtain ⟨before, line', after, heq, hof, hle⟩ := ih (hlater h)
      rw [List.length_append, List.length_singleton] at hle
      exact ⟨before, line', after, by simpa using heq, hof, by omega⟩
    · rw [if_neg hcode] at h
      rcases List.mem_cons.mp h with rfl | h
      · exact ⟨past, line, ls, rfl, ⟨rfl, rfl, rfl, by simpa using hcode⟩, Nat.le_refl _⟩
      · obtain ⟨before, line', after, heq, hof, hle⟩ := ih (hlater h)
        rw [List.length_append, List.length_singleton] at hle
        exact ⟨before, line', after, by simpa using heq, hof, by omega⟩

theorem exists_line_of_mem_codeLines {source : String} {l : CodeLine} (h : l ∈ codeLines source) :
    ∃ before line after, lines source.toList = before ++ line :: after ∧ l.Of before line := by
  have hstart : l ∈ codeLinesFrom (([] : List (List Char)).length + 1)
    (byteLength ([] : List (List Char)).flatten) (lines source.toList) := h
  obtain ⟨before, line, after, heq, hof, -⟩ := exists_line_of_mem_codeLinesFrom hstart
  exact ⟨before, line, after, heq, hof⟩

theorem le_number_of_mem {n offset : Nat} {ls : List (List Char)} {l : CodeLine}
    (h : l ∈ codeLinesFrom n offset ls) : n ≤ l.number := by
  induction ls generalizing n offset with
  | nil => simp [codeLinesFrom] at h
  | cons line ls ih =>
    rw [codeLinesFrom] at h
    split at h
    · have hle := ih h
      omega
    · rcases List.mem_cons.mp h with rfl | h
      · exact Nat.le_refl _
      · have hle := ih h
        omega

/-- Lines of code come in the order of their numbers. -/
theorem pairwise_codeLinesFrom (n offset : Nat) (ls : List (List Char)) :
    (codeLinesFrom n offset ls).Pairwise (·.number < ·.number) := by
  induction ls generalizing n offset with
  | nil => exact .nil
  | cons line ls ih =>
    rw [codeLinesFrom]
    split
    · exact ih _ _
    · exact .cons (fun l hl => le_number_of_mem hl) (ih _ _)

/-! ### Trimming -/

/-- What is trimmed around code. -/
def isTrimmed (c : Char) : Bool := isBlank c || c = '\r'

/-- The characters that are trimmed in front. -/
def lead (cs : List Char) : List Char := cs.takeWhile isTrimmed

/-- The part of the lead that blanks do not cover: all from the first carriage return on. -/
def lag (cs : List Char) : List Char := (cs.dropWhile isBlank).takeWhile isTrimmed

theorem lead_eq (cs : List Char) : lead cs = cs.takeWhile isBlank ++ lag cs := by
  have hblank : ∀ c ∈ cs.takeWhile isBlank, isTrimmed c = true := fun c hc => by
    simp [isTrimmed, List.mem_takeWhile_imp hc]
  calc lead cs = (cs.takeWhile isBlank ++ cs.dropWhile isBlank).takeWhile isTrimmed := by
        rw [List.takeWhile_append_dropWhile, lead]
    _ = cs.takeWhile isBlank ++ lag cs := List.takeWhile_append_of_pos hblank

/-- What lags starts with a carriage return. -/
theorem head_lag (cs : List Char) : ∀ c ∈ (lag cs).head?, c = '\r' := by
  intro c hc
  have hhead := List.head?_dropWhile_not isBlank cs
  unfold lag at hc
  cases hd : cs.dropWhile isBlank with
  | nil => simp [hd] at hc
  | cons d ds =>
    rw [hd] at hc hhead
    rw [List.takeWhile_cons] at hc
    split at hc
    · rename_i htrimmed
      cases hc
      have hblank : isBlank c = false := hhead
      simpa [isTrimmed, hblank] using htrimmed
    · cases hc

/-- Nothing lags behind just if no carriage return is trimmed in front. -/
theorem lag_eq_nil_iff (cs : List Char) : lag cs = [] ↔ '\r' ∉ lead cs := by
  rw [lead_eq]
  constructor
  · intro h hmem
    rw [h, List.append_nil] at hmem
    exact absurd (List.mem_takeWhile_imp hmem) (by decide)
  · intro h
    cases hlag : lag cs with
    | nil => rfl
    | cons c tail =>
      have hc : c = '\r' := head_lag cs c (by rw [hlag]; rfl)
      exact absurd (List.mem_append_right _ (by rw [hlag, hc]; exact List.mem_cons_self)) h

theorem trimEnd_append (p : Char → Bool) (cs : List Char) :
    ∃ tail, cs = trimEnd p cs ++ tail ∧ ∀ c ∈ tail, p c = true := by
  refine ⟨(cs.reverse.takeWhile p).reverse, ?_, fun c hc => ?_⟩
  · rw [trimEnd, ← List.reverse_append, List.takeWhile_append_dropWhile, List.reverse_reverse]
  · exact List.mem_takeWhile_imp (List.mem_reverse.mp hc)

/-- A text falls into its lead, what is left of it, and what is trimmed behind. -/
theorem trimBlanks_append (cs : List Char) :
    ∃ tail, cs = lead cs ++ (trimBlanks cs ++ tail) ∧ ∀ c ∈ tail, isTrimmed c = true := by
  obtain ⟨tail, htail, htrimmed⟩ := trimEnd_append isTrimmed (cs.dropWhile isTrimmed)
  refine ⟨tail, ?_, htrimmed⟩
  have htrim : trimBlanks cs = trimEnd isTrimmed (cs.dropWhile isTrimmed) := rfl
  rw [htrim, ← htail, lead, List.takeWhile_append_dropWhile]

theorem not_syntax_of_isTrimmed {c : Char} (h : isTrimmed c = true) : c ≠ '/' ∧ c ≠ '"' := by
  constructor
  · rintro rfl
    cases h
  · rintro rfl
    cases h

/-- What is so of all that is trimmed and of what is left, is so of the whole text. -/
theorem forall_mem_of_trimBlanks {P : Char → Prop} {cs : List Char}
    (htrimmed : ∀ c, isTrimmed c = true → P c) (hleft : ∀ c ∈ trimBlanks cs, P c) : ∀ c ∈ cs, P c := by
  obtain ⟨tail, hcs, htail⟩ := trimBlanks_append cs
  intro c hc
  rw [hcs] at hc
  rcases List.mem_append.mp hc with hc | hc
  · exact htrimmed c (List.mem_takeWhile_imp hc)
  rcases List.mem_append.mp hc with hc | hc
  · exact hleft c hc
  · exact htrimmed c (htail c hc)

theorem lead_eq_nil_iff (cs : List Char) : lead cs = [] ↔ ∀ c ∈ cs.head?, isTrimmed c = false := by
  cases cs with
  | nil => simp [lead]
  | cons c cs =>
    rw [lead, List.takeWhile_cons]
    cases hc : isTrimmed c <;> simp [hc]

/-- What is left has nothing to trim in front. -/
theorem lead_trimBlanks (cs : List Char) : lead (trimBlanks cs) = [] := by
  rw [lead_eq_nil_iff]
  intro c hc
  obtain ⟨tail, htail, -⟩ := trimEnd_append isTrimmed (cs.dropWhile isTrimmed)
  have htrim : trimBlanks cs = trimEnd isTrimmed (cs.dropWhile isTrimmed) := rfl
  have hhead := List.head?_dropWhile_not isTrimmed cs
  rw [htrim] at hc
  rw [htail, List.head?_append, hc] at hhead
  exact hhead

theorem cutComment_isPrefix (quotes : Nat) (cs : List Char) : cutComment quotes cs <+: cs := by
  fun_induction cutComment quotes cs with
  | case1 => exact List.nil_prefix
  | case2 quotes rest h => exact List.nil_prefix
  | case3 quotes rest h ih => simpa using ih
  | case4 quotes c rest h ih => simpa using ih

/-- The content of a line is its front, without a line feed. -/
theorem content_append {body line : List Char} (hbody : '\n' ∉ body)
    (hline : line = body ++ ['\n'] ∨ line = body) :
    '\n' ∉ content line ∧ ∃ comment, line = content line ++ comment := by
  have htrim : trimEnd (fun c => c = '\n' || c = '\r') line =
      trimEnd (fun c => c = '\n' || c = '\r') body := by
    rcases hline with rfl | rfl
    · simp [trimEnd]
    · rfl
  have hbefore : content line <+: body := by
    obtain ⟨tail, htail, -⟩ := trimEnd_append (fun c => c = '\n' || c = '\r') body
    have hcut := cutComment_isPrefix 0 (trimEnd (fun c => c = '\n' || c = '\r') body)
    rw [content, htrim]
    exact hcut.trans ⟨tail, htail.symm⟩
  refine ⟨fun hmem => hbody (hbefore.subset hmem), ?_⟩
  obtain ⟨comment, hcomment⟩ := hbefore
  rcases hline with rfl | rfl
  · exact ⟨comment ++ ['\n'], by rw [← List.append_assoc, hcomment]⟩
  · exact ⟨comment, hcomment.symm⟩

/-! ### Labels -/

/-- What stands behind the colon of a label. -/
def behindLabel? (code : List Char) : Option (List Char) :=
  match code.dropWhile (· ≠ ':') with
  | [] => none
  | _ :: behind => if (code.takeWhile (· ≠ ':')).contains '"' then none else some behind

/-- A line of code is one statement, or a label, a colon and a statement. -/
theorem splitLabel_eq_ok {code : List Char} {parts : Parts} (h : splitLabel code = .ok parts) :
    (parts = ⟨none, code, 0⟩ ∧ behindLabel? code = none) ∨
      ∃ front behind, code = front ++ ':' :: behind ∧ Word.isIdentifier (trimBlanks front) = true ∧
        behindLabel? code = some behind ∧ parts = ⟨some (trimBlanks front), trimBlanks behind,
          byteLength front + 1 + byteLength (behind.takeWhile isBlank)⟩ := by
  have hsplit : code.takeWhile (· ≠ ':') ++ code.dropWhile (· ≠ ':') = code :=
    List.takeWhile_append_dropWhile
  have hcolon := List.head?_dropWhile_not (· ≠ ':') code
  unfold splitLabel at h
  split at h
  · rename_i hd
    cases h
    exact .inl ⟨rfl, by rw [behindLabel?, hd]⟩
  · rename_i colon behind hd
    rw [hd] at hsplit hcolon
    have hcolon : colon = ':' := by simpa using hcolon
    have hbehind : behindLabel? code =
        if (code.takeWhile (· ≠ ':')).contains '"' then none else some behind := by
      rw [behindLabel?, hd]
    simp only at h
    split at h
    · rename_i hquote
      cases h
      exact .inl ⟨rfl, by rw [hbehind, if_pos hquote]⟩
    · rename_i hquote
      split at h
      · rename_i hlabel
        cases h
        refine .inr ⟨code.takeWhile (· ≠ ':'), behind, ?_, hlabel, ?_, rfl⟩
        · exact (hcolon ▸ hsplit).symm
        · rw [hbehind, if_neg hquote]
      · cases h

/-- A label that is no identifier is blamed, with the colon if there is nothing else. -/
theorem splitLabel_eq_error {code : List Char} {d : Diagnostic} (h : splitLabel code = .error d) :
    d.context = none ∧ d.cause ≠ .missingSemicolon ∧
      d.span.start = 0 ∧ 0 < d.span.stop ∧ Boundary code d.span.stop := by
  have hsplit : code.takeWhile (· ≠ ':') ++ code.dropWhile (· ≠ ':') = code :=
    List.takeWhile_append_dropWhile
  have hcolon := List.head?_dropWhile_not (· ≠ ':') code
  unfold splitLabel at h
  split at h
  · cases h
  · rename_i colon behind hd
    rw [hd] at hsplit hcolon
    have hcolon : colon = ':' := by simpa using hcolon
    simp only at h
    split at h
    · cases h
    · split at h
      · cases h
      · cases h
        refine ⟨rfl, by simp, rfl, Nat.lt_of_lt_of_le Nat.one_pos (Nat.le_max_right _ _), ?_⟩
        cases hfront : code.takeWhile (· ≠ ':') with
        | nil =>
          rw [hfront, hcolon] at hsplit
          exact ⟨[':'], behind, hsplit.symm, rfl⟩
        | cons c front =>
          have hpos := byteLength_pos (List.cons_ne_nil c front)
          rw [hfront] at hsplit
          exact ⟨c :: front, _, hsplit.symm, (Nat.max_eq_left hpos).symm⟩

end Source

end Primer
