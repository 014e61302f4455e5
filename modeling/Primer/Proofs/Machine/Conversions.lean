import Primer.Proofs.Machine.Printed
import Primer.Proofs.Token.Progress

/-!
# Conversions that cannot fail

Where a text has been found to be a number, or a character to be an element on its own, no later test refuses it.

* `Action.leads_readNumber_invalid`: an entry that is refused is no numeral.
* `Action.exists_ok_readNumber`: an entry that is a numeral is read.
* `conversions_total`: what is left of the faults of the lexer and of the reader.
-/

namespace Primer

open Text

/-- What is wrong with a text that is not read as tokens. -/
theorem fault_of_tokenize {text : String} {d : Diagnostic} (h : tokenize text = .error d) :
    ∃ piece, StandsAt text.toList d.span.start piece ∧ d.span.stop = d.span.start + byteLength piece ∧
      ((d.cause = .unclosedString ∧ ∃ body, piece = '"' :: body ∧ '"' ∉ body) ∨
        (d.cause = .unrecognized (String.ofList piece) ∧ Word.Unknown piece)) := by
  obtain ⟨n, hn⟩ := Lexer.exists_called_of_tokens_error h
  exact Lexer.fault_of_next ((Lexer.Stands.ofText text).called n) hn

variable {I O : Type} [Reader I] [Writer O]

namespace Action

variable {w : Work I O}

/-- Only what is no numeral is an invalid input. -/
theorem leads_readNumber_invalid {name : Token} : Leads (readNumber name) w (fun _ _ => True)
    (fun d _ => ∀ entry, d.cause = .invalidInput entry → ¬Number.IsNumeral entry.toList) := by
  refine leads_bind.mpr (leads_flush (fun _ => ?_) fun reason _ entry hcause => ?_)
  · refine leads_bind.mpr (leads_entry.mpr ?_)
    cases (Input.entry w.machine.input).1 with
    | ended =>
      refine leads_fail.mpr fun entry hcause => ?_
      cases hcause
    | failed reason =>
      refine leads_fail.mpr fun entry hcause => ?_
      cases hcause
    | text text =>
      by_cases hnumber : Word.isNumber text = true
      · obtain ⟨x, hx⟩ := Number.exists_read?_of_isNumber hnumber
        simp only [hnumber, if_true, hx]
        exact leads_pure.mpr trivial
      · simp only [hnumber, Bool.false_eq_true, if_false]
        refine leads_fail.mpr fun entry hcause hnumeral => hnumber ?_
        cases hcause
        rw [String.toList_ofList] at hnumeral
        exact (Number.isNumber_iff text).mpr hnumeral
  · cases hcause

/-- A numeral is read, with no further condition on it. -/
theorem exists_ok_readNumber {name : Token} (hflush : (Writer.flush w.machine.sink).1 = .ok ())
    {entry : List Char} {rest : I} (hentry : Input.entry w.machine.input = (.text entry, rest))
    (hnumeral : Number.IsNumeral entry) : ∃ x w', readNumber name w = .ok x w' := by
  have hnumber := (Number.isNumber_iff entry).mpr hnumeral
  obtain ⟨x, hx⟩ := Number.exists_read?_of_isNumber hnumber
  have hleads : Leads (readNumber name) w _ _ := leads_readNumber
  cases hread : readNumber name w with
  | ok x w' => exact ⟨x, w', rfl⟩
  | error d w' => exact absurd ⟨entry, hentry, hnumber, hx⟩ ((hleads.error hread).2 hflush x rest)

end Action

/-- **The tests cover the conversions.**  The test for numbers holds for at most one sign and then digits with at
most one point, and each such text is read as a number.  Each character that is an element on its own is an
operator or a mark, but for blanks and quotes, and each of the operators of two characters is an operator.  So a
text that is not read as tokens has a string that never ends, or a word that is no numeral, no keyword and no
identifier, where the fault says; an entry that is a numeral is read, and what is refused as an input is no
numeral. -/
theorem conversions_total :
    (∀ text, Word.isNumber text = true ↔ Number.IsNumeral text) ∧
    (∀ text, Number.IsNumeral text → ∃ x, Number.read? text = some x) ∧
    (∀ c, isSyntactic c = true → isBlank c = false → c ≠ '"' → ∃ kind, Lexer.signKind c = .ok kind) ∧
    (∀ pair ∈ operatorPairs, ∃ op, Lexer.operatorKind pair = .ok (.operator op)) ∧
    (∀ text d, tokenize text = .error d →
      ∃ piece, StandsAt text.toList d.span.start piece ∧ d.span.stop = d.span.start + byteLength piece ∧
        ((d.cause = .unclosedString ∧ ∃ body, piece = '"' :: body ∧ '"' ∉ body) ∨
          (d.cause = .unrecognized (String.ofList piece) ∧ Word.Unknown piece))) ∧
    (∀ (name : Token) (w : Work I O) (entry : List Char) (rest : I),
      (Writer.flush w.machine.sink).1 = .ok () → Input.entry w.machine.input = (.text entry, rest) →
      Number.IsNumeral entry → ∃ x w', Action.readNumber name w = .ok x w') ∧
    ∀ (name : Token) (w : Work I O) (d : Diagnostic) (w' : Work I O) (entry : String),
      Action.readNumber name w = .error d w' → d.cause = .invalidInput entry →
        ¬Number.IsNumeral entry.toList := by
  refine ⟨Number.isNumber_iff, fun text h => ?_, fun c hc hblank hquote => ?_, fun pair hpair => ?_,
    fun text d h => ?_, fun name w entry rest hflush hentry h => ?_, fun name w d w' entry h => ?_⟩
  · exact Number.exists_read?_of_isNumber ((Number.isNumber_iff text).mpr h)
  · exact Lexer.exists_signKind hc hblank hquote
  · exact Lexer.exists_operatorKind hpair
  · exact fault_of_tokenize h
  · exact Action.exists_ok_readNumber hflush hentry h
  · exact Action.leads_readNumber_invalid.error h entry

/-- Three hundred digits behind a sign and a point are read, a colon makes no word, and of two lines the one with a
point behind its digit is read and the one with two points is refused. -/
theorem conversions_total_points :
    (∃ x, Number.read? ('+' :: '.' :: List.replicate 300 '5') = some x) ∧
    (∃ word, "é:2" = String.ofList word ∧ Word.Unknown word ∧ StandsAt "x = é:2;".toList 4 word) ∧
    (∃ x w', Action.readNumber ⟨.identifier, "x", ⟨5, 6⟩⟩
      ⟨.ofTokens [] 8, Machine.atStatement "read x;" [45, 53, 46, 10]⟩ = .ok x w') ∧
    ¬Number.IsNumeral "1.2.3".toList := by
  obtain ⟨-, hread, -, -, hfault, htaken, hinvalid⟩ := conversions_total (I := List UInt8) (O := Sink)
  have hmany : Number.Unsigned ('.' :: List.replicate 300 '5') := by
    refine ⟨fun c hc => ?_, ?_, '5', List.mem_cons_of_mem _ (List.mem_replicate.mpr ⟨by omega, rfl⟩), rfl⟩
    · rcases List.mem_cons.mp hc with rfl | hc
      · exact .inr rfl
      · exact .inl (by rw [List.eq_of_mem_replicate hc]; rfl)
    · rw [List.count_cons_self, List.count_replicate]
      decide
  refine ⟨hread _ ⟨['+'], _, List.singleton_append.symm, by simp, hmany⟩, ?_, ?_, ?_⟩
  · have htext : tokenize "x = é:2;" = .error ⟨.unrecognized "é:2", ⟨4, 8⟩, none⟩ := by decide +kernel
    obtain ⟨word, hstands, -, ⟨hcause, -⟩ | ⟨hcause, hunknown⟩⟩ := hfault _ _ htext
    · cases hcause
    · exact ⟨word, Cause.unrecognized.inj hcause, hunknown, hstands⟩
  · have hentry : Input.entry ([45, 53, 46, 10] : List UInt8) = (.text ['-', '5', '.'], []) := by
      rw [Input.entry]
      rfl
    exact htaken _ _ _ _ rfl hentry ((Number.isNumber_iff _).mp (by decide))
  · have hentry : Input.entry ([49, 46, 50, 46, 51, 10] : List UInt8) = (.text "1.2.3".toList, []) := by
      rw [Input.entry]
      rfl
    let w : Work := ⟨.ofTokens [] 8, Machine.atStatement "read x;" [49, 46, 50, 46, 51, 10]⟩
    have hrefused : Action.Leads (Action.readNumber ⟨.identifier, "x", ⟨5, 6⟩⟩) w _ _ :=
      Action.leads_readNumber_refused rfl hentry (by decide)
    unfold Action.Leads at hrefused
    split at hrefused
    · exact hrefused.elim
    · rename_i d w' herror
      rw [← String.toList_ofList (l := "1.2.3".toList)]
      exact hinvalid _ _ d w' _ herror hrefused.1

end Primer
