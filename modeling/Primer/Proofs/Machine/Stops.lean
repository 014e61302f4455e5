import Primer.Proofs.Machine.Finality
import Primer.Proofs.Program.Contents

/-!
# The check for a stop

The loader looks for a statement that starts with the word `stop`, before any statement is cut into tokens.  What
it finds is what the machine takes for a stop later on.

* `Lexed.leading_iff`: the first word of a text is a keyword just if its first token is.
* `classify_iff_leading`: so the first word and the first token announce the same kinds of statements.
* `Program.ClassifiesStop p`: some statement of the program is classified as a stop.
* `stop_check_agrees`: a program in which the loader misses a stop has none, and nothing that it does succeeds; a
  program that is loaded has one, if all of its statements are read.
-/

namespace Primer

open Text

variable {I O : Type}

/-! ### The first word and the first token -/

/-- A word that is cut off as a token is the first word of its text. -/
theorem leading_of_stops {word rest : List Char} (hword : ∀ c ∈ word, Word.isIdentifierChar c = true)
    (hstops : Token.Stops word rest) : Word.leading (word ++ rest) = word := by
  have hsyntactic := hstops.1 fun c hc => isSyntactic_of_isIdentifierChar (hword c hc)
  have hrest : rest.takeWhile Word.isIdentifierChar = [] := by
    cases rest with
    | nil => rfl
    | cons d rest =>
      have hd : ¬Word.isIdentifierChar d = true := fun hd => by
        have hnot := isSyntactic_of_isIdentifierChar hd
        rw [hsyntactic d rfl] at hnot
        cases hnot
      rw [List.takeWhile_cons, if_neg hd]
  rw [Word.leading, List.takeWhile_append_of_pos hword, hrest, List.append_nil]

/-- Keywords are made of letters, of one at least. -/
theorem exists_letters (k : Keyword) :
    ∃ c cs, k.word.toList = c :: cs ∧ ∀ d ∈ k.word.toList, d.isAlpha = true := by
  have hletters : k.word.toList.all Char.isAlpha = true := by cases k <;> decide +kernel
  have hne : k.word.toList ≠ [] := by cases k <;> decide
  obtain ⟨c, cs, hword⟩ := List.exists_cons_of_ne_nil hne
  exact ⟨c, cs, hword, List.all_eq_true.mp hletters⟩

theorem isIdentifierChar_of_isAlpha {c : Char} (h : c.isAlpha = true) : Word.isIdentifierChar c = true := by
  simp [Word.isIdentifierChar, Char.isAlphanum, h]

/-- What begins with a letter is a keyword or an identifier. -/
theorem Token.Kind.FollowsFrom.of_isAlpha {kind : Token.Kind} {c : Char} {cs : List Char}
    (h : kind.FollowsFrom (c :: cs)) (hc : c.isAlpha = true) :
    (∃ k, kind = .keyword k) ∨ kind = .identifier := by
  cases kind with
  | keyword k => exact .inl ⟨k, rfl⟩
  | identifier => exact .inr rfl
  | operator op =>
    have hsymbol : op.symbol.toList.head?.any Char.isAlpha = false := by cases op <;> decide +kernel
    have hslice : c :: cs = op.symbol.toList := h
    simp [← hslice, hc] at hsymbol
  | punctuation mark =>
    obtain ⟨d, hslice, hd⟩ := h
    obtain ⟨rfl, -⟩ := List.cons.inj hslice
    have hsign : Lexer.signKind c = .ok (.punctuation mark) := by simp [Lexer.signKind, hd]
    have hsyntactic := Lexer.isSyntactic_of_signKind hsign
    rw [isSyntactic_of_isIdentifierChar (isIdentifierChar_of_isAlpha hc)] at hsyntactic
    cases hsyntactic
  | string =>
    obtain ⟨body, hslice, -⟩ := h
    obtain ⟨rfl, -⟩ := List.cons.inj hslice
    cases hc
  | number value =>
    have hnumber := h.2.1
    rw [isNumber_of_isAlpha (by simp [hc])] at hnumber
    cases hnumber

/-- Of different keywords neither is spelled like the other. -/
theorem word_inj {k k' : Keyword} (h : k.word.toList = k'.word.toList) : k = k' := by
  have hfound : ∀ k : Keyword, Keyword.ofWord? k.word.toList = some k := by
    intro k
    cases k <;> decide +kernel
  have hsame := hfound k
  rw [h, hfound k'] at hsame
  exact (Option.some.inj hsame).symm

namespace Token.Spells

variable {kind : Token.Kind} {piece rest : List Char}

theorem leading_of_keyword {k : Keyword} (h : Spells (.keyword k) piece) (hstops : Token.Stops piece rest) :
    Word.leading (piece ++ rest) = k.word.toList := by
  have hpiece : piece = k.word.toList := h.followsFrom
  have hletters : ∀ c ∈ piece, c.isAlpha = true := by
    obtain ⟨-, -, -, hletters⟩ := exists_letters k
    rwa [hpiece]
  rw [leading_of_stops (fun c hc => isIdentifierChar_of_isAlpha (hletters c hc)) hstops, hpiece]

/-- A token that a text begins with is a keyword just if the first word is. -/
theorem leading_iff (h : Spells kind piece) (hstops : Token.Stops piece rest) (k : Keyword) :
    Word.leading (piece ++ rest) = k.word.toList ↔ kind = .keyword k := by
  constructor
  · intro hleading
    obtain ⟨c, cs, hword, hletters⟩ := exists_letters k
    have hc : c.isAlpha = true := hletters c (by rw [hword]; exact List.mem_cons_self)
    obtain ⟨d, ds, rfl⟩ := List.exists_cons_of_ne_nil h.ne_nil
    have hfirst : d = c := by
      have hprefix : Word.leading (d :: ds ++ rest) <+: d :: ds ++ rest := List.takeWhile_prefix _
      rw [hleading, hword] at hprefix
      exact (List.cons_prefix_cons.mp hprefix).1.symm
    rw [← hfirst] at hc
    rcases h.followsFrom.of_isAlpha hc with ⟨k', rfl⟩ | rfl
    · rw [h.leading_of_keyword hstops] at hleading
      rw [word_inj hleading]
    · -- an identifier is no keyword
      have hidentifier : Word.isIdentifier (d :: ds) = true := h.followsFrom
      rw [leading_of_stops (isIdentifierChar_of_isIdentifier hidentifier) hstops] at hleading
      rw [hleading] at hidentifier
      cases k <;> exact absurd hidentifier (by decide +kernel)
  · rintro rfl
    exact h.leading_of_keyword hstops

end Token.Spells

theorem eq_nil_of_blanks {blanks : List Char} (hblanks : ∀ c ∈ blanks, isBlank c = true)
    (hhead : ∀ c ∈ blanks.head?, isBlank c = false) : blanks = [] := by
  cases blanks with
  | nil => rfl
  | cons c blanks =>
    have hc := hhead c rfl
    rw [hblanks c List.mem_cons_self] at hc
    cases hc

/-- The first word of a text is a keyword just if its first token is. -/
theorem Lexed.leading_iff {n : Nat} {cs : List Char} {tokens : List Token} (h : Lexed n cs tokens)
    (hhead : ∀ c ∈ cs.head?, isBlank c = false) (k : Keyword) :
    Word.leading cs = k.word.toList ↔ ∃ t rest, tokens = t :: rest ∧ t.kind = .keyword k := by
  cases h with
  | nil hblanks =>
    obtain rfl := eq_nil_of_blanks hblanks hhead
    obtain ⟨c, cs, hword, -⟩ := exists_letters k
    simp [Word.leading, hword]
  | cons hblanks hspells _ hstops _ _ _ =>
    obtain rfl := eq_nil_of_blanks hblanks fun c hc => hhead c (by rw [List.head?_append, hc]; rfl)
    rw [List.nil_append, hspells.leading_iff hstops k]
    simp

theorem ofKeyword_inj {k k' : Keyword} (h : StatementKind.ofKeyword k = .ofKeyword k') : k = k' := by
  cases k <;> cases k' <;> first | rfl | cases h

/-- A statement is of the kind that a keyword announces just if its first word is the keyword. -/
theorem classify_iff_leading {text : String} {tokens : List Token} (h : tokenize text = .ok tokens)
    (hhead : ∀ c ∈ text.toList.head?, isBlank c = false) (k : Keyword) :
    Word.leading text.toList = k.word.toList ↔ classify text tokens = .ok (.ofKeyword k) := by
  rw [(lexed_of_tokenize h).leading_iff hhead k]
  constructor
  · rintro ⟨t, rest, rfl, ht⟩
    exact classify_keyword ht text rest
  · intro hkind
    rcases classify_eq_ok hkind with ⟨t, k', rest, htokens, ht, hsame⟩ | hassignment
    · exact ⟨t, rest, htokens, by rw [ht, ofKeyword_inj hsame]⟩
    · cases k <;> cases hassignment

/-! ### Statements and stops -/

open Source

namespace Program

variable {p : Program} {cs : List (List Char)}

/-- Some statement is classified as a stop. -/
def ClassifiesStop (p : Program) : Prop :=
  ∃ s ∈ p.statements, ∃ tokens, tokenize s.text = .ok tokens ∧ classify s.text tokens = .ok .stop

/-- Nothing is left to trim in front of a statement. -/
theorem Holds.head_not_blank (h : p.Holds cs) {s : Statement} (hs : s ∈ p.statements) :
    ∀ c ∈ s.text.toList.head?, isBlank c = false := by
  have htext : s.text ∈ p.statements.toList.map Statement.text :=
    List.mem_map_of_mem (Array.mem_toList_iff.mpr hs)
  rw [h.texts] at htext
  obtain ⟨code, -, htext⟩ := List.mem_map.mp htext
  have hlead : lead s.text.toList = [] := by
    rw [← htext, String.toList_ofList]
    exact lead_trimBlanks _
  intro c hc
  have hnot := (lead_eq_nil_iff _).mp hlead c hc
  simp only [isTrimmed, Bool.or_eq_false_iff] at hnot
  exact hnot.1

/-- What is classified as a stop starts with the word. -/
theorem Holds.hasStop_of_classifies (h : p.Holds cs) (hstop : p.ClassifiesStop) : p.hasStop = true := by
  obtain ⟨s, hs, tokens, htokens, hkind⟩ := hstop
  have hword := (classify_iff_leading htokens (h.head_not_blank hs) .stop).mpr hkind
  obtain ⟨i, hi, rfl⟩ := Array.mem_iff_getElem.mp hs
  exact Array.any_eq_true.mpr ⟨i, hi, decide_eq_true hword⟩

/-- A statement that starts with the word is classified as a stop, if it is read. -/
theorem Holds.classifies_of_hasStop (h : p.Holds cs) (hstop : p.hasStop = true)
    (hread : ∀ s ∈ p.statements, ∃ tokens, tokenize s.text = .ok tokens) : p.ClassifiesStop := by
  obtain ⟨i, hi, hword⟩ := Array.any_eq_true.mp hstop
  have hs : p.statements[i] ∈ p.statements := Array.getElem_mem hi
  obtain ⟨tokens, htokens⟩ := hread _ hs
  refine ⟨_, hs, tokens, htokens, ?_⟩
  exact (classify_iff_leading htokens (h.head_not_blank hs) .stop).mp (of_decide_eq_true hword)

/-- A stop is missed in a program that has been put together to the end. -/
theorem exists_of_missingStop {source : String} {d : Diagnostic} (h : load source = .error d)
    (hd : d.cause = .missingStop) : ∃ p, (codeLines source).foldlM addLine empty = .ok p ∧
      p.Holds (codes source.toList) ∧ p.hasStop = false := by
  cases hf : (codeLines source).foldlM addLine empty with
  | ok p =>
    have hholds := (holds_of_foldlM (fun l => code_of_mem_codeLines) hf).1
    rw [map_code_codeLines] at hholds
    refine ⟨p, rfl, hholds, ?_⟩
    rw [load, hf] at h
    simp only [bind, Except.bind] at h
    split at h
    · cases h
    · rename_i hstop
      simpa using hstop
  | error d' =>
    rcases fault_of_load h with ⟨i, code, offset, -, hfault, -⟩ | ⟨hmissing, -⟩
    · rw [hd] at hfault
      cases hfault
    · -- the fault of a line is pinned to it, and a missing stop is not
      rw [load, hf] at h
      cases h
      obtain ⟨-, l, -, p, d', -, -, -, hpinned⟩ := exists_of_foldlM_error hf
      rw [hpinned] at hmissing
      have hcontext := congrArg Diagnostic.context hmissing
      cases hd' : d'.context <;> simp [Diagnostic.within, hd'] at hcontext

end Program

namespace Machine

/-- A machine at `stop;` is at a statement that is classified as a stop. -/
theorem AtStop.classifies {m : Machine I O} (h : m.AtStop) : m.program.ClassifiesStop := by
  obtain ⟨s, tokens, hs, htokens, hkinds⟩ := h
  refine ⟨s, Array.mem_of_getElem? hs, tokens, htokens, ?_⟩
  obtain ⟨t, rest, rfl, ht, -⟩ := List.map_eq_cons_iff.mp hkinds
  exact classify_keyword ht s.text rest

/-- Nothing succeeds without a stop. -/
theorem Reachable.not_stopped [Reader I] [Writer O] {p : Program} (hp : ¬p.ClassifiesStop)
    {m : Machine I O} (hm : m.Reachable p) :
    m.step.1 ≠ .ok .stopped ∧ ∀ fuel, (m.run fuel).1 ≠ some (.ok ()) := by
  have hnot : ∀ {m : Machine I O}, m.Reachable p → ¬m.AtStop := fun hm hstop =>
    hp (hm.coherent.1 ▸ hstop.classifies)
  refine ⟨fun hstep => hnot hm.step (hm.coherent.2.stopped_step hstep).2, fun fuel hrun => ?_⟩
  exact hnot (hm.run fuel) (hm.coherent.2.stopped_run hrun).2

end Machine

/-- **The check for a stop agrees with classification.**  The first word of a text that is read is `stop` just if
the text is classified as a stop.  So if loading fails because a stop is missing, the statements that were put
together have none that is classified as one, and whatever is done with them, no step stops and no run succeeds;
and a program that is loaded has a statement that is classified as a stop, if all of its statements are read. -/
theorem stop_check_agrees [Reader I] [Writer O] :
    (∀ (text : String) (tokens : List Token), tokenize text = .ok tokens →
      (∀ c ∈ text.toList.head?, isBlank c = false) →
      (Word.leading text.toList = Keyword.stop.word.toList ↔ classify text tokens = .ok .stop)) ∧
    (∀ (source : String) (d : Diagnostic), Program.load source = .error d → d.cause = .missingStop →
      ∃ p, (codeLines source).foldlM Program.addLine .empty = .ok p ∧
        p.statements.toList.map Statement.text =
          (codes source.toList).map (fun code => String.ofList (statementOf code)) ∧
        ¬p.ClassifiesStop ∧ ∀ m : Machine I O, m.Reachable p →
          m.step.1 ≠ .ok .stopped ∧ ∀ fuel, (m.run fuel).1 ≠ some (.ok ())) ∧
    ∀ (source : String) (p : Program), Program.load source = .ok p →
      (∀ s ∈ p.statements, ∃ tokens, tokenize s.text = .ok tokens) → p.ClassifiesStop := by
  refine ⟨fun text tokens htokens hhead => classify_iff_leading htokens hhead .stop, ?_, ?_⟩
  · intro source d h hd
    obtain ⟨p, hf, hholds, hnone⟩ := Program.exists_of_missingStop h hd
    have hnot : ¬p.ClassifiesStop := fun hstop => by
      rw [hholds.hasStop_of_classifies hstop] at hnone
      cases hnone
    exact ⟨p, hf, hholds.texts, hnot, fun m hm => hm.not_stopped hnot⟩
  · intro source p h hread
    obtain ⟨hholds, -, hstops⟩ := Program.holds_of_load h
    exact hholds.classifies_of_hasStop (hholds.hasStop_iff.mpr hstops) hread

/-- A name that starts like `stop` is none, and a stop may have a label. -/
theorem stop_check_agrees_names :
    classify "stop;" [⟨.keyword .stop, "stop", ⟨0, 4⟩⟩, ⟨.punctuation .semicolon, ";", ⟨4, 5⟩⟩] = .ok .stop ∧
    (Program.load "stops = 1;" = .error ⟨.missingStop, .single 0, none⟩ ∧
      ∃ p, (codeLines "stops = 1;").foldlM Program.addLine .empty = .ok p ∧ ¬p.ClassifiesStop ∧
        ∀ m : Machine, m.Reachable p → m.step.1 ≠ .ok .stopped ∧ ∀ fuel, (m.run fuel).1 ≠ some (.ok ())) ∧
    ∃ p, Program.load "last: stop;" = .ok p ∧ p.ClassifiesStop := by
  have htokens : tokenize "stop;" = .ok [⟨.keyword .stop, "stop", ⟨0, 4⟩⟩,
      ⟨.punctuation .semicolon, ";", ⟨4, 5⟩⟩] := by decide +kernel
  have hhead : ∀ c ∈ "stop;".toList.head?, isBlank c = false := by simp [isBlank]
  obtain ⟨hclassify, hmissing, hstops⟩ := stop_check_agrees (I := List UInt8) (O := Sink)
  refine ⟨(hclassify _ _ htokens hhead).mp (by decide +kernel), ?_, ?_⟩
  · have hload : (Program.load "stops = 1;").map (·.statements) =
        .error ⟨.missingStop, .single 0, none⟩ := by decide +kernel
    cases hp : Program.load "stops = 1;" with
    | ok p =>
      rw [hp] at hload
      cases hload
    | error d =>
      rw [hp] at hload
      obtain rfl : d = ⟨.missingStop, .single 0, none⟩ := Except.error.inj hload
      obtain ⟨p, hcodes, -, hnone, hnever⟩ := hmissing _ _ hp rfl
      exact ⟨rfl, p, hcodes, hnone, hnever⟩
  · have hload : (Program.load "last: stop;").toOption.map Program.statements =
        some #[⟨"stop;", 1, 6⟩] := by decide +kernel
    obtain ⟨p, hp, hstatements⟩ := Program.exists_of_statements hload
    refine ⟨p, hp, hstops _ p hp fun s hs => ?_⟩
    obtain rfl : s = ⟨"stop;", 1, 6⟩ := by simpa [hstatements] using hs
    exact ⟨_, htokens⟩

end Primer
