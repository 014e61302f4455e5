import Mathlib.Data.List.DropRight
import Primer.Proofs.Program.Codes
import Primer.Proofs.Program.Offsets

/-!
# What a source holds

The statements and labels of a source, read off its lines of code without the loader, and the loader, which
finds these and no others, or blames the first line that is at fault.

* `label? code`, `statementOf code`: the label and the statement of a line of code.
* `Fault cs i cause`: what is wrong with the `i`-th of the lines `cs`.
* `Loadable cs`: the lines make up a program.
* `Program.Holds p cs`: the program has the statements and the labels of the lines, and nothing else.
* `load_contents`: what loading makes of a source.
-/

namespace Primer

open Text

namespace Source

/-! ### Labels and statements -/

/-- What stands before and behind the first colon of a line of code, if no quote comes before it. -/
def labelled? (code : List Char) : Option (List Char × List Char) :=
  let colon := code.idxOf ':'
  if ':' ∈ code ∧ '"' ∉ code.take colon then some (code.take colon, code.drop (colon + 1)) else none

/-- The label of a line of code. -/
def label? (code : List Char) : Option (List Char) :=
  (labelled? code).map fun parts => trimBlanks parts.1

/-- The statement of a line of code: what stands behind its label, or all of it. -/
def statementOf (code : List Char) : List Char :=
  trimBlanks <| match labelled? code with
    | some (_, behind) => behind
    | none => code

/-- The `i`-th of the lines carries the label. -/
def Carries (cs : List (List Char)) (i : Nat) (label : List Char) : Prop :=
  ∃ code, cs[i]? = some code ∧ label? code = some label

/-- What is wrong with a line, given the lines before it.  Of several things the first one counts. -/
inductive Fault (cs : List (List Char)) (i : Nat) : Cause → Prop
  | invalid {label : List Char} (h : Carries cs i label) (hword : Word.isIdentifier label = false) :
    Fault cs i (.invalidLabel (.ofList label))
  | bare {code label : List Char} (hcode : cs[i]? = some code) (h : label? code = some label)
    (hword : Word.isIdentifier label = true) (htext : statementOf code = []) : Fault cs i .bareLabel
  | repeated {code label : List Char} {j : Nat} (hcode : cs[i]? = some code)
    (h : label? code = some label) (hword : Word.isIdentifier label = true)
    (htext : statementOf code ≠ []) (hj : j < i) (hearlier : Carries cs j label) :
    Fault cs i (.duplicateLabel (.ofList label) (j + 1))

/-- Some statement starts with the word `stop`. -/
def Stops (cs : List (List Char)) : Prop :=
  ∃ code ∈ cs, Word.leading (statementOf code) = "stop".toList

/-- Lines of code that make up a program: labels are identifiers, each with a statement behind it and none
used twice, and some statement is a stop. -/
structure Loadable (cs : List (List Char)) : Prop where
  labels : ∀ code ∈ cs, ∀ label, label? code = some label → Word.isIdentifier label = true
  statements : ∀ code ∈ cs, (label? code).isSome = true → statementOf code ≠ []
  unique : (cs.filterMap label?).Nodup
  stop : Stops cs

theorem carries_append_iff {cs more : List (List Char)} {i : Nat} (hi : i < cs.length)
    {label : List Char} : Carries (cs ++ more) i label ↔ Carries cs i label := by
  rw [Carries, Carries, List.getElem?_append_left hi]

theorem Carries.lt_length {cs : List (List Char)} {i : Nat} {label : List Char}
    (h : Carries cs i label) : i < cs.length := by
  obtain ⟨code, hcode, -⟩ := h
  exact (List.getElem?_eq_some_iff.mp hcode).1

theorem carries_concat_iff {cs : List (List Char)} {code : List Char} {i : Nat} {label : List Char} :
    Carries (cs ++ [code]) i label ↔
      Carries cs i label ∨ i = cs.length ∧ label? code = some label := by
  rcases Nat.lt_trichotomy i cs.length with hi | rfl | hi
  · rw [carries_append_iff hi]
    exact ⟨.inl, fun h => h.elim id fun hlast => by omega⟩
  · constructor
    · rintro ⟨code', hcode', hlabel⟩
      rw [List.getElem?_concat_length] at hcode'
      cases hcode'
      exact .inr ⟨rfl, hlabel⟩
    · rintro (h | ⟨-, hlabel⟩)
      · exact absurd h.lt_length (Nat.lt_irrefl _)
      · exact ⟨code, List.getElem?_concat_length, hlabel⟩
  · constructor
    · intro h
      have hlt := h.lt_length
      rw [List.length_append, List.length_singleton] at hlt
      omega
    · rintro (h | ⟨rfl, -⟩)
      · exact absurd h.lt_length (Nat.lt_asymm hi)
      · exact absurd hi (Nat.lt_irrefl _)

theorem Fault.lt_length {cs : List (List Char)} {i : Nat} {cause : Cause} (h : Fault cs i cause) :
    i < cs.length := by
  cases h with
  | invalid h _ => exact h.lt_length
  | bare hcode h _ _ => exact Carries.lt_length ⟨_, hcode, h⟩
  | repeated hcode h _ _ _ _ => exact Carries.lt_length ⟨_, hcode, h⟩

/-- The lines up to a line settle whether it is at fault. -/
theorem fault_append_iff {cs more : List (List Char)} {i : Nat} (hi : i < cs.length) {cause : Cause} :
    Fault (cs ++ more) i cause ↔ Fault cs i cause := by
  have hcode : ∀ code, (cs ++ more)[i]? = some code ↔ cs[i]? = some code := fun code => by
    rw [List.getElem?_append_left hi]
  constructor
  · intro h
    cases h with
    | invalid h hword => exact .invalid ((carries_append_iff hi).mp h) hword
    | bare hc h hword htext => exact .bare ((hcode _).mp hc) h hword htext
    | repeated hc h hword htext hj hearlier =>
      exact .repeated ((hcode _).mp hc) h hword htext hj
        ((carries_append_iff (Nat.lt_trans hj hi)).mp hearlier)
  · intro h
    cases h with
    | invalid h hword => exact .invalid ((carries_append_iff hi).mpr h) hword
    | bare hc h hword htext => exact .bare ((hcode _).mpr hc) h hword htext
    | repeated hc h hword htext hj hearlier =>
      exact .repeated ((hcode _).mpr hc) h hword htext hj
        ((carries_append_iff (Nat.lt_trans hj hi)).mpr hearlier)

/-- Lines make up a program if none of them is at fault and one of them is a stop. -/
theorem loadable_iff {cs : List (List Char)} :
    Loadable cs ↔ (∀ i cause, ¬Fault cs i cause) ∧ Stops cs := by
  constructor
  · rintro ⟨hlabels, hstatements, hunique, hstop⟩
    refine ⟨fun i cause h => ?_, hstop⟩
    cases h with
    | invalid h hword =>
      obtain ⟨code, hcode, hlabel⟩ := h
      rw [hlabels code (List.mem_of_getElem? hcode) _ hlabel] at hword
      cases hword
    | bare hcode h hword htext =>
      exact hstatements _ (List.mem_of_getElem? hcode) (by rw [h]; rfl) htext
    | repeated hcode h hword htext hj hearlier =>
      obtain ⟨earlier, hearlier, hsame⟩ := hearlier
      rw [List.nodup_iff_pairwise_ne, List.pairwise_filterMap, List.pairwise_iff_getElem] at hunique
      obtain ⟨hi, rfl⟩ := List.getElem?_eq_some_iff.mp hcode
      obtain ⟨hj', rfl⟩ := List.getElem?_eq_some_iff.mp hearlier
      exact hunique _ _ hj' hi hj _ hsame _ h rfl
  · rintro ⟨hclean, hstop⟩
    have hlabels : ∀ code ∈ cs, ∀ label, label? code = some label →
        Word.isIdentifier label = true := by
      intro code hcode label hlabel
      obtain ⟨i, hi⟩ := List.getElem?_of_mem hcode
      by_contra hword
      exact hclean i _ (.invalid ⟨code, hi, hlabel⟩ (by simpa using hword))
    have hstatements : ∀ code ∈ cs, (label? code).isSome = true → statementOf code ≠ [] := by
      intro code hcode hsome htext
      obtain ⟨i, hi⟩ := List.getElem?_of_mem hcode
      obtain ⟨label, hlabel⟩ := Option.isSome_iff_exists.mp hsome
      exact hclean i _ (.bare hi hlabel (hlabels code hcode label hlabel) htext)
    refine ⟨hlabels, hstatements, ?_, hstop⟩
    rw [List.nodup_iff_pairwise_ne, List.pairwise_filterMap, List.pairwise_iff_getElem]
    rintro j i hj hi hlt label hlabel label' hlabel' rfl
    refine hclean i _ (.repeated (List.getElem?_eq_getElem hi) hlabel' ?_ ?_ hlt
      ⟨_, List.getElem?_eq_getElem hj, hlabel⟩)
    · exact hlabels _ (List.getElem_mem hi) label hlabel'
    · exact hstatements _ (List.getElem_mem hi) (by rw [hlabel']; rfl)

/-- The loader takes a line of code apart at the same colon. -/
theorem splitLabel_eq (code : List Char) : splitLabel code = match labelled? code with
    | none => .ok ⟨none, code, 0⟩
    | some (front, behind) =>
      if Word.isIdentifier (trimBlanks front) then
        .ok ⟨some (trimBlanks front), trimBlanks behind,
          byteLength front + 1 + byteLength (behind.takeWhile isBlank)⟩
      else .error
        ⟨.invalidLabel (String.ofList (trimBlanks front)), ⟨0, max (byteLength front) 1⟩, none⟩ := by
  have hcolon : (fun c => !decide (c ≠ ':')) = fun c : Char => c == ':' := by
    funext c
    by_cases hc : c = ':' <;> simp [hc]
  have htake : code.takeWhile (· ≠ ':') = code.take (code.idxOf ':') := by
    rw [List.takeWhile_eq_take_findIdx_not, hcolon]
    rfl
  have hdrop : code.dropWhile (· ≠ ':') = code.drop (code.idxOf ':') := by
    rw [List.dropWhile_eq_drop_findIdx_not, hcolon]
    rfl
  unfold splitLabel labelled?
  simp only [htake, hdrop]
  by_cases hmem : ':' ∈ code
  · have hlt := List.idxOf_lt_length_iff.mpr hmem
    rw [List.drop_eq_getElem_cons hlt]
    by_cases hquote : '"' ∈ code.take (code.idxOf ':')
    · simp [hquote]
    · simp [hmem, hquote]
  · simp [hmem]

theorem trimBlanks_trimBlanks (cs : List Char) : trimBlanks (trimBlanks cs) = trimBlanks cs := by
  have hfront : (trimBlanks cs).dropWhile isTrimmed = trimBlanks cs := by
    have hsplit := (trimBlanks cs).takeWhile_append_dropWhile (p := isTrimmed)
    have hlead : (trimBlanks cs).takeWhile isTrimmed = [] := lead_trimBlanks cs
    rwa [hlead, List.nil_append] at hsplit
  have hback : trimEnd isTrimmed (trimBlanks cs) = trimBlanks cs :=
    List.rdropWhile_idempotent isTrimmed (cs.dropWhile isTrimmed)
  show trimEnd isTrimmed ((trimBlanks cs).dropWhile isTrimmed) = _
  rw [hfront, hback]

/-- The loader finds the label and the statement of a line, or a label that is no identifier. -/
theorem splitLabel_cases {code : List Char} (hcode : trimBlanks code = code) :
    (∃ label d, label? code = some label ∧ Word.isIdentifier label = false ∧
      splitLabel code = .error d ∧ d.cause = .invalidLabel (.ofList label)) ∨
    ∃ offset, splitLabel code = .ok ⟨label? code, statementOf code, offset⟩ ∧
      ∀ label, label? code = some label → Word.isIdentifier label = true := by
  rw [splitLabel_eq, label?, statementOf]
  cases labelled? code with
  | none => exact .inr ⟨0, by simp [hcode], by simp⟩
  | some parts =>
    obtain ⟨front, behind⟩ := parts
    by_cases hword : Word.isIdentifier (trimBlanks front) = true
    · exact .inr ⟨_, if_pos hword, by simp [hword]⟩
    · have hword : Word.isIdentifier (trimBlanks front) = false := by simpa using hword
      exact .inl ⟨_, _, rfl, hword, if_neg (by simp [hword]), rfl⟩

end Source

open Source

namespace Program

/-! ### Loading line by line -/

/-- The program has the statements and the labels of the lines, and no others. -/
structure Holds (p : Program) (cs : List (List Char)) : Prop where
  texts : p.statements.toList.map Statement.text = cs.map fun code => String.ofList (statementOf code)
  labels (label : String) (i : Nat) : p.location? label = some i ↔ Carries cs i label.toList

variable {p p' : Program} {cs : List (List Char)} {code : List Char}

theorem holds_empty : Holds empty [] := by
  refine ⟨rfl, fun label i => ?_⟩
  simp [location?, empty, Carries]

theorem Holds.size (h : p.Holds cs) : p.statements.size = cs.length := by
  simpa using congrArg List.length h.texts

theorem location?_insert (p : Program) (name : List Char) (i : Nat) (label : String) :
    location? { p with labels := p.labels.insert (String.ofList name) i } label =
      if name = label.toList then some i else p.location? label := by
  have hiff : compare (String.ofList name) label = .eq ↔ name = label.toList := by
    rw [Std.LawfulEqCmp.compare_eq_iff_eq]
    constructor
    · rintro rfl
      exact String.toList_ofList.symm
    · rintro rfl
      exact String.ofList_toList
  show (p.labels.insert (String.ofList name) i)[label]? = _
  rw [Std.ExtTreeMap.getElem?_insert]
  simp only [hiff]
  rfl

/-- The label of a line is added if it is new. -/
theorem Holds.addLabel (h : p.Holds cs) (hadd : p.addLabel (label? code) = .ok p') (label : String)
    (i : Nat) : p'.location? label = some i ↔ Carries (cs ++ [code]) i label.toList := by
  rw [carries_concat_iff, ← h.labels, ← h.size]
  cases hlabel : label? code with
  | none =>
    rw [hlabel] at hadd
    cases hadd
    simp
  | some name =>
    rw [hlabel] at hadd
    cases hold : p.location? (String.ofList name) with
    | some previous => simp [Program.addLabel, hold] at hadd
    | none =>
      simp only [Program.addLabel, hold] at hadd
      cases hadd
      rw [location?_insert]
      by_cases hname : name = label.toList
      · have hlabel' : String.ofList name = label := by rw [hname, String.ofList_toList]
        rw [hlabel'] at hold
        simp [hname, hold, eq_comm]
      · simp [hname]

theorem Holds.addLabel_error (h : p.Holds cs) {d : Diagnostic}
    (hadd : p.addLabel (label? code) = .error d) :
    ∃ name j, label? code = some name ∧ Carries cs j name ∧
      d.cause = .duplicateLabel (.ofList name) (j + 1) := by
  cases hlabel : label? code with
  | none =>
    rw [hlabel] at hadd
    cases hadd
  | some name =>
    rw [hlabel] at hadd
    cases hold : p.location? (String.ofList name) with
    | none => simp [Program.addLabel, hold] at hadd
    | some previous =>
      simp only [Program.addLabel, hold] at hadd
      cases hadd
      exact ⟨name, previous, rfl, by simpa using (h.labels _ _).mp hold, rfl⟩

/-- One line of code is added to what the lines before it make up, or it is at fault. -/
theorem Holds.addCode (h : p.Holds cs) {l : CodeLine} (hne : l.code ≠ [])
    (htrim : trimBlanks l.code = l.code) : match p.addCode l with
      | .error d => Fault (cs ++ [l.code]) cs.length d.cause
      | .ok p' => p'.Holds (cs ++ [l.code]) ∧ ∀ cause, ¬Fault (cs ++ [l.code]) cs.length cause := by
  have hlast : (cs ++ [l.code])[cs.length]? = some l.code := List.getElem?_concat_length
  rw [addCode_eq]
  rcases splitLabel_cases htrim with ⟨label, d, hlabel, hword, hsplit, hcause⟩ | ⟨offset, hsplit, hwords⟩
  · simp only [hsplit, hcause]
    exact .invalid ⟨l.code, hlast, hlabel⟩ hword
  by_cases htext : statementOf l.code = []
  · simp only [hsplit, htext, List.isEmpty_nil, if_true]
    cases hlabel : label? l.code with
    | some label => exact .bare hlast hlabel (hwords label hlabel) htext
    | none =>
      have hnone : labelled? l.code = none := by simpa [label?] using hlabel
      rw [statementOf, hnone, htrim] at htext
      exact absurd htext hne
  have hnonempty : (statementOf l.code).isEmpty = false := by simpa using htext
  simp only [hsplit, hnonempty, Bool.false_eq_true, if_false]
  cases hadd : p.addLabel (label? l.code) with
  | error d =>
    obtain ⟨name, j, hlabel, hearlier, hcause⟩ := h.addLabel_error hadd
    simp only [hcause]
    exact .repeated hlast hlabel (hwords name hlabel) htext hearlier.lt_length
      ((carries_append_iff hearlier.lt_length).mpr hearlier)
  | ok p₁ =>
    refine ⟨⟨?_, fun label i => h.addLabel hadd label i⟩, fun cause hfault => ?_⟩
    · simp [statements_of_addLabel hadd, h.texts]
    · cases hfault with
      | invalid hcarries hword =>
        obtain ⟨code, hcode, hlabel⟩ := hcarries
        rw [hlast] at hcode
        cases hcode
        rw [hwords _ hlabel] at hword
        cases hword
      | bare hcode _ _ hbare =>
        rw [hlast] at hcode
        cases hcode
        exact htext hbare
      | repeated hcode hlabel _ _ hj hearlier =>
        rw [hlast] at hcode
        cases hcode
        -- the label of the last line marks that line alone
        have hboth := (carries_append_iff hj).mp hearlier
        have hold := (h.labels (.ofList _) _).mpr (by rwa [String.toList_ofList])
        rw [hlabel] at hadd
        simp [Program.addLabel, hold] at hadd

/-- What the lines make up, if none of them is at fault. -/
theorem Holds.foldlM (h : p.Holds cs) (hclean : ∀ i cause, ¬Fault cs i cause) {ls : List CodeLine}
    (hls : ∀ l ∈ ls, l.code ≠ [] ∧ trimBlanks l.code = l.code)
    (hadd : ls.foldlM addLine p = .ok p') :
    p'.Holds (cs ++ ls.map CodeLine.code) ∧
      ∀ i cause, ¬Fault (cs ++ ls.map CodeLine.code) i cause := by
  induction ls generalizing p cs with
  | nil =>
    cases hadd
    simpa using ⟨h, hclean⟩
  | cons l ls ih =>
    obtain ⟨p₁, hcode, hrest⟩ := addCode_of_foldlM hadd
    obtain ⟨hl, hls⟩ := List.forall_mem_cons.mp hls
    have hstep := h.addCode hl.1 hl.2
    rw [hcode] at hstep
    have hclean' : ∀ i cause, ¬Fault (cs ++ [l.code]) i cause := by
      intro i cause hfault
      have hi := hfault.lt_length
      rw [List.length_append, List.length_singleton] at hi
      rcases Nat.lt_succ_iff_lt_or_eq.mp hi with hlt | rfl
      · exact hclean i cause ((fault_append_iff hlt).mp hfault)
      · exact hstep.2 cause hfault
    have hlater := ih hstep.1 hclean' hls hrest
    rwa [List.append_assoc, List.singleton_append, ← List.map_cons] at hlater

theorem holds_of_foldlM {ls : List CodeLine}
    (hls : ∀ l ∈ ls, l.code ≠ [] ∧ trimBlanks l.code = l.code)
    (hadd : ls.foldlM addLine empty = .ok p) :
    p.Holds (ls.map CodeLine.code) ∧ ∀ i cause, ¬Fault (ls.map CodeLine.code) i cause :=
  holds_empty.foldlM (fun i _ h => absurd h.lt_length (Nat.not_lt_zero i)) hls hadd

theorem code_of_mem_codeLines {source : String} {l : CodeLine} (h : l ∈ codeLines source) :
    l.code ≠ [] ∧ trimBlanks l.code = l.code := by
  obtain ⟨before, line, after, -, hof⟩ := exists_line_of_mem_codeLines h
  exact ⟨hof.nonempty, by rw [hof.code, trimBlanks_trimBlanks]⟩

theorem Holds.hasStop_iff (h : p.Holds cs) : p.hasStop = true ↔ Stops cs := by
  have htexts : ∀ P : String → Prop, (∃ s ∈ p.statements.toList, P s.text) ↔
      ∃ code ∈ cs, P (String.ofList (statementOf code)) := by
    intro P
    have hmap : (∃ text ∈ p.statements.toList.map Statement.text, P text) ↔
        ∃ text ∈ cs.map fun code => String.ofList (statementOf code), P text := by rw [h.texts]
    simpa using hmap
  have hstop := htexts fun text => Word.leading text.toList = "stop".toList
  simp only [String.toList_ofList] at hstop
  rw [hasStop, ← Array.any_toList, List.any_eq_true]
  constructor
  · rintro ⟨s, hs, hword⟩
    exact hstop.mp ⟨s, hs, of_decide_eq_true hword⟩
  · intro hstops
    obtain ⟨s, hs, hword⟩ := hstop.mpr hstops
    exact ⟨s, hs, decide_eq_true hword⟩

/-! ### Loading a source -/

/-- A program that is loaded has what its source holds. -/
theorem holds_of_load {source : String} (h : load source = .ok p) :
    p.Holds (codes source.toList) ∧ (∀ i cause, ¬Fault (codes source.toList) i cause) ∧
      Stops (codes source.toList) := by
  have hfold := holds_of_foldlM (fun l => code_of_mem_codeLines) (foldlM_of_load h)
  rw [map_code_codeLines] at hfold
  refine ⟨hfold.1, hfold.2, hfold.1.hasStop_iff.mp ?_⟩
  rw [load, foldlM_of_load h] at h
  simp only [bind, Except.bind] at h
  split at h
  · assumption
  · cases h

/-- A source that cannot be loaded has a line at fault, of which the first one is blamed, or no stop. -/
theorem fault_of_load {source : String} {d : Diagnostic} (h : load source = .error d) :
    (∃ i code offset, (codes source.toList)[i]? = some code ∧ Fault (codes source.toList) i d.cause ∧
      (∀ j < i, ∀ cause, ¬Fault (codes source.toList) j cause) ∧
      d.context = some ⟨i + 1, String.ofList code, offset⟩) ∨
    d = ⟨.missingStop, .single 0, none⟩ ∧ (∀ i cause, ¬Fault (codes source.toList) i cause) ∧
      ¬Stops (codes source.toList) := by
  cases hf : (codeLines source).foldlM addLine empty with
  | ok p =>
    have hfold := holds_of_foldlM (fun l => code_of_mem_codeLines) hf
    rw [map_code_codeLines] at hfold
    rw [load, hf] at h
    simp only [bind, Except.bind] at h
    split at h
    · cases h
    · rename_i hstop
      cases h
      exact .inr ⟨rfl, hfold.2, fun hstops => hstop (hfold.1.hasStop_iff.mpr hstops)⟩
  | error d' =>
    rw [load, hf] at h
    cases h
    obtain ⟨before, l, after, p, d₁, hlines, hbefore, hcode, rfl⟩ := exists_of_foldlM_error hf
    have hmem : ∀ l' ∈ before ++ l :: after, l'.code ≠ [] ∧ trimBlanks l'.code = l'.code := by
      rw [← hlines]
      exact fun l' => code_of_mem_codeLines
    obtain ⟨hholds, hclean⟩ := holds_of_foldlM (fun l' hl' => hmem l' (by simp [hl'])) hbefore
    obtain ⟨hne, htrim⟩ := hmem l (by simp)
    have hfault := hholds.addCode hne htrim
    rw [hcode] at hfault
    have hlead : lead l.code = [] := by rw [← htrim, lead_trimBlanks]
    have hcontext := (span_of_addCode_error hne hlead hcode).1
    have hsource : codes source.toList =
        (before.map CodeLine.code ++ [l.code]) ++ after.map CodeLine.code := by
      rw [← map_code_codeLines, hlines]
      simp
    have hlast : (before.map CodeLine.code).length < (before.map CodeLine.code ++ [l.code]).length := by
      rw [List.length_append, List.length_singleton]
      omega
    refine .inl ⟨(before.map CodeLine.code).length, l.code, l.offset, ?_, ?_, ?_, ?_⟩
    · rw [hsource]
      simp
    · rw [hsource]
      exact (fault_append_iff hlast).mpr hfault
    · intro j hj cause hearlier
      rw [hsource, List.append_assoc] at hearlier
      exact hclean j cause ((fault_append_iff hj).mp hearlier)
    · rw [Diagnostic.within, hcontext, hholds.size]
      rfl

/-- **What loading makes of a source.**  It succeeds just if the lines of code make up a program.  The program
then has the statements of these lines in their order, and each label marks the line that carries it, and no
other.  Otherwise the first line that is at fault is blamed under the number that its statement would have;
a stop is missed where no line is at fault and none stops. -/
theorem load_contents (source : String) :
    ((∃ p, load source = .ok p) ↔ Loadable (codes source.toList)) ∧
    (∀ p, load source = .ok p →
      p.statements.toList.map Statement.text =
        (codes source.toList).map (fun code => String.ofList (statementOf code)) ∧
      (∀ (label : String) (i : Nat), p.location? label = some i ↔
        Carries (codes source.toList) i label.toList) ∧
      ∀ (label label' : String) (i : Nat), p.location? label = some i → p.location? label' = some i →
        label = label') ∧
    ∀ d, load source = .error d →
      (∃ i code offset, (codes source.toList)[i]? = some code ∧
        Fault (codes source.toList) i d.cause ∧
        (∀ j < i, ∀ cause, ¬Fault (codes source.toList) j cause) ∧
        d.context = some ⟨i + 1, String.ofList code, offset⟩) ∨
      d = ⟨.missingStop, .single 0, none⟩ ∧ (∀ i cause, ¬Fault (codes source.toList) i cause) ∧
        ¬Stops (codes source.toList) := by
  refine ⟨⟨?_, ?_⟩, fun p hp => ?_, fun d hd => fault_of_load hd⟩
  · rintro ⟨p, hp⟩
    exact loadable_iff.mpr (holds_of_load hp).2
  · intro h
    obtain ⟨hclean, hstop⟩ := loadable_iff.mp h
    cases hload : load source with
    | ok p => exact ⟨p, rfl⟩
    | error d =>
      rcases fault_of_load hload with ⟨i, code, offset, -, hfault, -⟩ | ⟨-, -, hmissing⟩
      · exact absurd hfault (hclean i d.cause)
      · exact absurd hstop hmissing
  · obtain ⟨hholds, -⟩ := holds_of_load hp
    refine ⟨hholds.texts, hholds.labels, fun label label' i hi hi' => ?_⟩
    obtain ⟨code, hcode, hlabel⟩ := (hholds.labels label i).mp hi
    obtain ⟨code', hcode', hlabel'⟩ := (hholds.labels label' i).mp hi'
    rw [hcode] at hcode'
    cases hcode'
    rw [hlabel] at hlabel'
    exact String.toList_inj.mp (Option.some.inj hlabel')

end Program

end Primer
