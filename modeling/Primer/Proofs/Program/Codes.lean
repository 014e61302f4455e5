import Primer.Proofs.Program.Lines

/-!
# The code of a source

Which lines of a source hold code, and which code, said by positions: a comment starts at the first `//` that
has an even number of quotes before it, and lines are what is left between line feeds.

* `codeOf line`: the code of a line.
* `codes source`: the code of all lines that hold some.
* `map_code_codeLines`: the loader goes through these and no others.
* `codes_last`, `codes_next`: a source is taken line by line.
-/

namespace Primer.Source

open Text

/-! ### Comments -/

/-- A comment starts at position `k` of a line, with `quotes` quotes before the line. -/
def Opens (quotes : Nat) (line : List Char) (k : Nat) : Prop :=
  ['/', '/'] <+: line.drop k ∧ (quotes + (line.take k).count '"') % 2 = 0

instance (quotes : Nat) (line : List Char) : DecidablePred (Opens quotes line) :=
  fun _ => inferInstanceAs (Decidable (_ ∧ _))

/-- Where the comment of a line starts. -/
def comment? (line : List Char) : Option Nat := (List.range line.length).find? (Opens 0 line)

theorem opens_zero {quotes : Nat} {line : List Char} :
    Opens quotes line 0 ↔ ['/', '/'] <+: line ∧ quotes % 2 = 0 := by
  simp [Opens]

theorem opens_succ {quotes k : Nat} {c : Char} {line : List Char} :
    Opens quotes (c :: line) (k + 1) ↔ Opens (if c = '"' then quotes + 1 else quotes) line k := by
  by_cases hc : c = '"'
  · subst hc
    simp [Opens, Nat.add_assoc, Nat.add_comm 1]
  · simp [Opens, hc]

theorem Opens.lt_length {quotes k : Nat} {line : List Char} (h : Opens quotes line k) :
    k < line.length := by
  have hlength := h.1.length_le
  rw [List.length_drop, List.length_cons, List.length_singleton] at hlength
  omega

/-- The cut is made where a comment starts first. -/
theorem cutComment_cases (quotes : Nat) (line : List Char) :
    (∃ k, Opens quotes line k ∧ (∀ j < k, ¬Opens quotes line j) ∧
      cutComment quotes line = line.take k) ∨
    (∀ k, ¬Opens quotes line k) ∧ cutComment quotes line = line := by
  fun_induction cutComment quotes line with
  | case1 quotes => exact .inr ⟨fun k h => absurd h.lt_length (Nat.not_lt_zero k), rfl⟩
  | case2 quotes rest heven =>
    exact .inl ⟨0, opens_zero.mpr ⟨⟨rest, rfl⟩, heven⟩, fun j hj => absurd hj (Nat.not_lt_zero j), rfl⟩
  | case3 quotes rest hodd ih =>
    -- inside quotes neither of the two slashes starts a comment
    have hzero : ¬Opens quotes ('/' :: '/' :: rest) 0 := fun h => hodd (opens_zero.mp h).2
    have hone : ¬Opens quotes ('/' :: '/' :: rest) 1 := fun h =>
      hodd (opens_zero.mp (opens_succ.mp h)).2
    have hlater : ∀ k, Opens quotes ('/' :: '/' :: rest) (k + 2) ↔ Opens quotes rest k := fun k =>
      opens_succ.trans opens_succ
    rcases ih with ⟨k, hk, hfirst, hcut⟩ | ⟨hnone, hcut⟩
    · refine .inl ⟨k + 2, (hlater k).mpr hk, fun j hj => ?_, by rw [hcut]; rfl⟩
      rcases j with _ | _ | j
      · exact hzero
      · exact hone
      · exact fun h => hfirst j (by omega) ((hlater j).mp h)
    · refine .inr ⟨fun k => ?_, by rw [hcut]⟩
      rcases k with _ | _ | k
      · exact hzero
      · exact hone
      · exact fun h => hnone k ((hlater k).mp h)
  | case4 quotes c rest hslashes ih =>
    have hzero : ¬Opens quotes (c :: rest) 0 := by
      intro h
      obtain ⟨tail, htail⟩ := (opens_zero.mp h).1
      obtain ⟨rfl, rfl⟩ := List.cons.inj htail
      exact hslashes tail rfl rfl
    rcases ih with ⟨k, hk, hfirst, hcut⟩ | ⟨hnone, hcut⟩
    · refine .inl ⟨k + 1, opens_succ.mpr hk, fun j hj => ?_, by rw [hcut]; rfl⟩
      cases j with
      | zero => exact hzero
      | succ j => exact fun h => hfirst j (by omega) (opens_succ.mp h)
    · refine .inr ⟨fun k => ?_, by rw [hcut]⟩
      cases k with
      | zero => exact hzero
      | succ k => exact fun h => hnone k (opens_succ.mp h)

theorem cutComment_eq (line : List Char) :
    cutComment 0 line = line.take ((comment? line).getD line.length) := by
  rcases cutComment_cases 0 line with ⟨k, hk, hfirst, hcut⟩ | ⟨hnone, hcut⟩
  · have hcomment : comment? line = some k := by
      rw [comment?, List.find?_range_eq_some]
      exact ⟨by simpa using hk, List.mem_range.mpr hk.lt_length, fun j hj => by simpa using hfirst j hj⟩
    rw [hcut, hcomment, Option.getD_some]
  · have hcomment : comment? line = none := by
      rw [comment?, List.find?_range_eq_none]
      exact fun k _ => by simpa using hnone k
    rw [hcut, hcomment, Option.getD_none, List.take_length]

/-! ### Code -/

/-- The code of a line: carriage returns at its end go, then its comment, then what is trimmed around it. -/
def codeOf (line : List Char) : List Char :=
  let line := trimEnd (fun c => c = '\n' || c = '\r') line
  trimBlanks (line.take ((comment? line).getD line.length))

/-- The lines of code of a source, in order. -/
def codes (source : List Char) : List (List Char) :=
  ((source.splitOn '\n').map codeOf).filter (· ≠ [])

theorem codeOf_eq (line : List Char) : codeOf line = trimBlanks (content line) := by
  rw [codeOf, content, cutComment_eq]

theorem codeOf_line_feed (line : List Char) : codeOf (line ++ ['\n']) = codeOf line := by
  have htrim : trimEnd (fun c => c = '\n' || c = '\r') (line ++ ['\n']) =
      trimEnd (fun c => c = '\n' || c = '\r') line := by simp [trimEnd]
  rw [codeOf_eq, codeOf_eq, content, content, htrim]

/-! ### Line by line -/

/-- Texts are put together from lines. -/
theorem induction_on_lines {P : List Char → Prop} (last : ∀ line, '\n' ∉ line → P line)
    (next : ∀ line rest, '\n' ∉ line → P rest → P (line ++ '\n' :: rest)) (cs : List Char) : P cs := by
  induction hn : cs.length using Nat.strong_induction_on generalizing cs with
  | h n ih =>
    by_cases h : '\n' ∈ cs
    · obtain ⟨line, rest, rfl, hline⟩ := List.eq_append_cons_of_mem h
      rw [List.length_append, List.length_cons] at hn
      exact next line rest hline (ih rest.length (by omega) rest rfl)
    · exact last cs h

theorem lines_last {line : List Char} (h : '\n' ∉ line) : lines line = if line = [] then [] else [line] := by
  induction line with
  | nil => rfl
  | cons c line ih =>
    obtain ⟨hc, hline⟩ : '\n' ≠ c ∧ '\n' ∉ line := by simpa using h
    rw [lines, if_neg (Ne.symm hc), ih hline]
    by_cases hnil : line = [] <;> simp [hnil]

theorem lines_next {line : List Char} (h : '\n' ∉ line) (rest : List Char) :
    lines (line ++ '\n' :: rest) = (line ++ ['\n']) :: lines rest := by
  induction line with
  | nil => simp [lines]
  | cons c line ih =>
    obtain ⟨hc, hline⟩ : '\n' ≠ c ∧ '\n' ∉ line := by simpa using h
    rw [List.cons_append, lines, if_neg (Ne.symm hc), ih hline]
    rfl

theorem codes_last {line : List Char} (h : '\n' ∉ line) :
    codes line = [codeOf line].filter (· ≠ []) := by
  rw [codes, List.splitOn_eq_singleton h, List.map_singleton]

theorem codes_next {line : List Char} (h : '\n' ∉ line) (rest : List Char) :
    codes (line ++ '\n' :: rest) = codes line ++ codes rest := by
  rw [codes_last h, codes, List.splitOn_append_cons_self_of_not_mem h, List.map_cons,
    ← List.singleton_append, List.filter_append, codes]

theorem codes_nil : codes [] = [] := by decide

/-- The loader goes through the code of the source. -/
theorem map_code_codeLinesFrom (number offset : Nat) (ls : List (List Char)) :
    (codeLinesFrom number offset ls).map CodeLine.code = (ls.map codeOf).filter (· ≠ []) := by
  induction ls generalizing number offset with
  | nil => rfl
  | cons line ls ih =>
    rw [codeLinesFrom, List.map_cons, codeOf_eq]
    by_cases hcode : trimBlanks (content line) = []
    · simp [hcode, ih]
    · simp [hcode, ih]

theorem map_code_codeLines (source : String) :
    (codeLines source).map CodeLine.code = codes source.toList := by
  rw [codeLines, map_code_codeLinesFrom]
  induction source.toList using induction_on_lines with
  | last line hline =>
    rw [codes_last hline, lines_last hline]
    by_cases hnil : line = []
    · subst hnil
      rfl
    · rw [if_neg hnil, List.map_singleton]
  | next line rest hline ih =>
    rw [codes_next hline, codes_last hline, lines_next hline, List.map_cons, codeOf_line_feed,
      ← List.singleton_append, List.filter_append, ih]

end Primer.Source
