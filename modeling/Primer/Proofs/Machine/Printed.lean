import Primer.Proofs.Machine.Input
import Primer.Proofs.Number.RoundTrip
import Primer.Proofs.Text.Boundary

/-!
# Reading what was printed

A number that was printed on a line of its own is taken by `read` for what it was, if it is finite, and is
refused otherwise.

* `Input.entry_visible`: a line of visible characters is an entry as it stands.
* `Action.leads_read_one`: a `read` with one target cannot fail where there is a number for it and a place.
* `Action.leads_read_refused`: a `read` whose first line is no number fails.
* `render_read_back`: the text of a number, and what a step makes of it.
-/

namespace Primer

/-! ### Lines of visible characters -/

namespace Input

theorem isWhite_of_visible {c : Char} (h : 32 < c.toNat ∧ c.toNat < 127) : Text.isWhite c = false := by
  simp only [Text.isWhite, Text.inRanges, Text.whiteRanges, List.any_cons, List.any_nil, Bool.or_false,
    Bool.or_eq_false_iff, Bool.and_eq_false_iff, decide_eq_false_iff_not]
  omega

/-- A visible character is written with one byte, and this ends no line. -/
theorem not_mem_utf8EncodeChar {c : Char} (h : 32 < c.toNat ∧ c.toNat < 127) :
    10 ∉ String.utf8EncodeChar c := by
  have hval : c.val ≤ 127 := UInt32.le_iff_toNat_le.mpr (Nat.le_of_lt h.2)
  rw [String.utf8EncodeChar_eq_singleton (utf8Size_of_val_le hval), List.mem_singleton, ← UInt8.toNat_inj]
  have hbyte : c.val.toUInt8.toNat = c.toNat % 256 := rfl
  rw [hbyte]
  show 10 ≠ c.toNat % 256
  omega

variable {text : String}

theorem toUTF8_newline (text : String) :
    (text ++ "\n").toUTF8.data.toList = text.toUTF8.data.toList ++ [10] := by
  simp only [String.toUTF8_eq_toByteArray, String.toByteArray_append, ByteArray.data_append,
    Array.toList_append]
  rfl

theorem not_mem_toUTF8 (h : ∀ c ∈ text.toList, 32 < c.toNat ∧ c.toNat < 127) :
    10 ∉ text.toUTF8.data.toList := by
  have hbytes : text.toUTF8.data.toList = text.toList.flatMap String.utf8EncodeChar := by
    rw [String.toUTF8_eq_toByteArray, ← String.utf8Encode_toList]
    exact List.toList_data_toByteArray
  rw [hbytes, List.mem_flatMap]
  rintro ⟨c, hc, hten⟩
  exact not_mem_utf8EncodeChar (h c hc) hten

theorem fromUTF8?_toUTF8 (text : String) :
    String.fromUTF8? ⟨text.toUTF8.data.toList.toArray⟩ = some text := by
  rw [Array.toArray_toList]
  exact dif_pos text.isValidUTF8

theorem trim_visible {cs : List Char} (hne : cs ≠ []) (h : ∀ c ∈ cs, 32 < c.toNat ∧ c.toNat < 127) :
    Text.trim Text.isWhite (cs ++ ['\n']) = cs := by
  have hfront : (cs ++ ['\n']).dropWhile Text.isWhite = cs ++ ['\n'] := by
    obtain ⟨c, cs, rfl⟩ := List.exists_cons_of_ne_nil hne
    rw [List.cons_append, List.dropWhile_cons_of_neg]
    simp [isWhite_of_visible (h c List.mem_cons_self)]
  have hback : cs.reverse.dropWhile Text.isWhite = cs.reverse := by
    obtain ⟨c, rest, hcs⟩ := List.exists_cons_of_ne_nil (List.reverse_ne_nil_iff.mpr hne)
    have hc : c ∈ cs := by
      rw [← List.mem_reverse, hcs]
      exact List.mem_cons_self
    rw [hcs, List.dropWhile_cons_of_neg]
    simp [isWhite_of_visible (h c hc)]
  have hnewline : Text.isWhite '\n' = true := by decide
  rw [Text.trim, hfront, Text.trimEnd, List.reverse_append, List.reverse_singleton, List.singleton_append,
    List.dropWhile_cons_of_pos hnewline, hback, List.reverse_reverse]

/-- A line of visible characters is an entry as it stands, and what is behind the line is left. -/
theorem entry_visible (hne : text.toList ≠ []) (h : ∀ c ∈ text.toList, 32 < c.toNat ∧ c.toNat < 127)
    (rest : List UInt8) :
    entry ((text ++ "\n").toUTF8.data.toList ++ rest) = (.text text.toList, rest) := by
  obtain ⟨hline, hbehind⟩ := line_eq_self (not_mem_toUTF8 h)
  have hfound : found? ((text ++ "\n").toUTF8.data.toList) = some (.text text.toList) := by
    have htrim : Text.trim Text.isWhite (text ++ "\n").toList = text.toList := by
      rw [String.toList_append]
      exact trim_visible hne h
    rw [found?, decode, fromUTF8?_toUTF8]
    simp only [htrim]
    exact if_neg (mt List.isEmpty_iff.mp hne)
  rw [toUTF8_newline] at hfound ⊢
  rw [entry_lines (.inr (by simp)) (by simp), hline, hfound, hbehind]
  rfl

end Input

theorem entry_render (x : Float) (rest : List UInt8) :
    Input.entry ((Number.render x ++ "\n").toUTF8.data.toList ++ rest) =
      (.text (Number.render x).toList, rest) :=
  Input.entry_visible (Number.render_ne_nil x) (Number.mem_render x) rest

/-- A finite number that was printed is the next number of the input. -/
theorem numeral_render {x : Float} (h : x.isFinite = true) (rest : List UInt8) :
    Numeral ((Number.render x ++ "\n").toUTF8.data.toList ++ rest) x rest :=
  ⟨_, entry_render x rest, (Number.isNumber_render x).trans h, Number.read?_render h⟩

/-! ### The actions -/

namespace Action

variable {w : Work} {prompt : Option String} {lead read : List Token} {semicolon : Token}

/-- Where there is a number for its only target, and a place, a `read` succeeds. -/
theorem leads_read_one {t : Target} (hprompt : Prompted prompt lead) (ht : t.SpelledBy read)
    (hsemicolon : semicolon.kind = .punctuation .semicolon)
    (hw : w.cursor.rest = lead ++ (read ++ [semicolon]))
    (hwrite : (w.machine.sink.write (prompt.getD "").toUTF8).1 = .ok ())
    (hflush : w.machine.sink.flush = .ok ()) {x : Float} {input : List UInt8}
    (hx : Numeral w.machine.input x input) {p : Place} (hp : t.place? w.machine.store = some p) :
    Leads Action.read w (fun flow _ => flow = .next) (fun _ _ => False) := by
  refine leads_read_prompted hprompt (.one ht) hw (fun w₁ hrest hw₁ => ?_) fun h => absurd hwrite h
  refine leads_bind.mpr ?_
  refine (leads_readTarget_of ht hrest (by simp [hsemicolon])).bind ?_ ?_
  · rintro _ w₂ ⟨hlast, -⟩
    refine leads_bind.mpr (leads_skip_of hlast (by simp [hsemicolon]) ?_)
    exact leads_pure.mpr (leads_bind.mpr (leads_finish_of hlast hsemicolon rfl))
  · intro d w₂ hnone
    rw [hw₁] at hnone
    have hnone : t.place? w.machine.store = none := hnone hflush ⟨x, input, hx⟩
    rw [hnone] at hp
    cases hp

/-- An entry that is no number is refused, and nothing is stored. -/
theorem leads_readNumber_refused {name : Token} (hflush : w.machine.sink.flush = .ok ())
    {entry : List Char} {rest : List UInt8} (hentry : Input.entry w.machine.input = (.text entry, rest))
    (hnumber : Word.isNumber entry = false) :
    Leads (readNumber name) w (fun _ _ => False)
      (fun d w' => d.cause = .invalidInput (String.ofList entry) ∧ w'.machine.store = w.machine.store) := by
  refine leads_bind.mpr (leads_flush (fun _ => ?_) fun fault hfault => ?_)
  · refine leads_bind.mpr (leads_entry.mpr ?_)
    simp only [hentry, hnumber, Bool.false_eq_true, if_false]
    exact leads_fail.mpr ⟨rfl, rfl⟩
  · cases hflush.symm.trans hfault

/-- A `read` is refused where the first line with something on it is no number. -/
theorem leads_read_refused {targets : List Target} (hprompt : Prompted prompt lead)
    (htargets : Listed Target.SpelledBy targets read)
    (hw : w.cursor.rest = lead ++ (read ++ [semicolon]))
    (hwrite : (w.machine.sink.write (prompt.getD "").toUTF8).1 = .ok ())
    (hflush : w.machine.sink.flush = .ok ()) {entry : List Char} {rest : List UInt8}
    (hentry : Input.entry w.machine.input = (.text entry, rest)) (hnumber : Word.isNumber entry = false) :
    Leads Action.read w (fun _ _ => False)
      (fun d w' => d.cause = .invalidInput (String.ofList entry) ∧ w'.machine.store = w.machine.store) := by
  obtain ⟨name, tail, hread, hname⟩ := htargets.exists_identifier
  refine leads_read_prompted hprompt htargets hw (fun w₁ hrest hw₁ => ?_) fun h => absurd hwrite h
  have hflush₁ : w₁.machine.sink.flush = .ok () := by
    rw [hw₁]
    exact hflush
  have hentry₁ : Input.entry w₁.machine.input = (.text entry, rest) := by
    rw [hw₁]
    exact hentry
  have hstore₁ : w₁.machine.store = w.machine.store := by rw [hw₁]
  rw [hread] at hrest
  refine leads_bind.mpr (leads_bind.mpr (leads_bind.mpr ?_))
  refine leads_expect_of hrest (by simp [Token.isIdentifier, hname]) ?_
  refine leads_bind.mpr ?_
  refine (leads_readNumber_refused (w := w₁.ahead (tail ++ [semicolon])) hflush₁ hentry₁ hnumber).mono
    (fun _ _ h => h.elim) ?_
  rintro d w' ⟨hcause, hstore⟩
  exact ⟨hcause, hstore.trans hstore₁⟩

end Action

/-! ### Steps -/

namespace Machine

variable {m : Machine} {prompt : Option String} {tokens : List Token}

/-- A number that is there is read into the place that the target stands for. -/
theorem Coherent.step_read_one (hm : m.Coherent) (hx : m.Executing .read tokens) {t : Target}
    (hc : (Command.read prompt [t]).SpelledBy tokens)
    (hwrite : (m.sink.write (prompt.getD "").toUTF8).1 = .ok ()) (hflush : m.sink.flush = .ok ())
    {x : Float} {rest : List UInt8} (hnumeral : Numeral m.input x rest) {p : Place}
    (hp : t.place? m.store = some p) :
    m.step.1 = .ok .continue ∧ m.step.2.store.at? p = some x ∧ m.step.2.input = rest := by
  have hok : m.step.1 = .ok .continue := by
    obtain ⟨hrunning, s, hs, hclosed, ht, hk⟩ := hx
    obtain _ | _ | _ | _ | _ | ⟨hword, hprompt, htargets, hsemicolon⟩ := hc
    obtain ⟨htarget⟩ | ⟨-, -, ⟨⟩⟩ := htargets
    have hleads := hm.step_leads hrunning hs ht hclosed hk (Q := fun flow _ => flow = .next)
      (E := fun _ _ => False) fun m' hsame => by
        obtain ⟨cache, log, rfl⟩ := hsame.exists_eq
        refine Action.leads_bind.mpr ((Action.leads_heading rfl hword).mpr ?_)
        exact Action.leads_read_one hprompt htarget hsemicolon rfl hwrite hflush hnumeral hp
    obtain ⟨flow, w, rfl, hw⟩ | ⟨d, w, hfalse, -⟩ := hleads
    · rw [hw]
      rfl
    · exact hfalse.elim
  have hreads := hm.reads_of_step hx hc hok
  generalize m.step.2 = m' at hreads
  obtain ⟨hnumerals, hfills, hsame⟩ := hreads
  obtain _ | ⟨hplace, hsets, ⟨⟩⟩ := hfills
  obtain _ | ⟨hfirst, ⟨⟩⟩ := hnumerals
  obtain ⟨rfl, rfl⟩ := hnumeral.unique hfirst
  obtain rfl := Option.some.inj (hp.symm.trans hplace)
  refine ⟨hok, ?_, hsame.input⟩
  rw [hsame.store]
  exact (hsets.values p).trans (if_pos rfl)

/-- An entry that is no number is refused, and nothing is stored. -/
theorem Coherent.step_read_refused (hm : m.Coherent) (hx : m.Executing .read tokens) {targets : List Target}
    (hc : (Command.read prompt targets).SpelledBy tokens)
    (hwrite : (m.sink.write (prompt.getD "").toUTF8).1 = .ok ()) (hflush : m.sink.flush = .ok ())
    {entry : List Char} {rest : List UInt8} (hentry : Input.entry m.input = (.text entry, rest))
    (hnumber : Word.isNumber entry = false) :
    ∃ d, m.step.1 = .error d ∧ d.cause = .invalidInput (String.ofList entry) ∧
      m.step.2.store = m.store := by
  obtain ⟨hrunning, s, hs, hclosed, ht, hk⟩ := hx
  obtain _ | _ | _ | _ | _ | ⟨hword, hprompt, htargets, hsemicolon⟩ := hc
  have hleads := hm.step_leads hrunning hs ht hclosed hk (Q := fun _ _ => False)
    (E := fun d w => d.cause = .invalidInput (String.ofList entry) ∧ w.machine.store = m.store)
    fun m' hsame => by
      obtain ⟨cache, log, rfl⟩ := hsame.exists_eq
      refine Action.leads_bind.mpr ((Action.leads_heading rfl hword).mpr ?_)
      exact Action.leads_read_refused hprompt htargets rfl hwrite hflush hentry hnumber
  obtain ⟨flow, w, hfalse, -⟩ | ⟨d, w, ⟨hcause, hstore⟩, hw⟩ := hleads
  · exact hfalse.elim
  · rw [hw]
    exact ⟨_, rfl, hcause, hstore⟩

end Machine

/-- **What was printed can be read back.**  The text of a finite number is a numeral and is read as this very
number, a zero with its sign; the text of any other number is no numeral.  So if a number is on a line of its
own, as `print` leaves it, a `read` stores it at the place of its target if it is finite, and refuses the line
otherwise, with nothing stored. -/
theorem render_read_back (x : Float) :
    (x.isFinite = true → Word.isNumber (Number.render x).toList = true ∧
      Number.read? (Number.render x).toList = some x) ∧
    (x.isFinite = false → Word.isNumber (Number.render x).toList = false) ∧
    ∀ (m : Machine) (tokens : List Token) (prompt : Option String) (rest : List UInt8),
      m.Coherent → m.Executing .read tokens → (m.sink.write (prompt.getD "").toUTF8).1 = .ok () →
      m.sink.flush = .ok () → m.input = (Number.render x ++ "\n").toUTF8.data.toList ++ rest →
      (x.isFinite = true → ∀ (t : Target) (p : Place), (Command.read prompt [t]).SpelledBy tokens →
        t.place? m.store = some p →
        m.step.1 = .ok .continue ∧ m.step.2.store.at? p = some x ∧ m.step.2.input = rest) ∧
      (x.isFinite = false → ∀ targets : List Target, (Command.read prompt targets).SpelledBy tokens →
        ∃ d, m.step.1 = .error d ∧ d.cause = .invalidInput (Number.render x) ∧
          m.step.2.store = m.store) := by
  refine ⟨fun h => ⟨(Number.isNumber_render x).trans h, Number.read?_render h⟩,
    (Number.isNumber_render x).trans, fun m tokens prompt rest hm hx hwrite hflush hinput => ⟨?_, ?_⟩⟩
  · intro hfinite t p hc hp
    have hnumeral : Numeral m.input x rest := by
      rw [hinput]
      exact numeral_render hfinite rest
    exact hm.step_read_one hx hc hwrite hflush hnumeral hp
  · intro hinfinite targets hc
    have hentry : Input.entry m.input = (.text (Number.render x).toList, rest) := by
      rw [hinput]
      exact entry_render x rest
    have hrefused := hm.step_read_refused hx hc hwrite hflush hentry
      ((Number.isNumber_render x).trans hinfinite)
    rwa [String.ofList_toList] at hrefused

/-- A zero keeps its sign, and an infinity is refused. -/
theorem render_read_back_negative_zero_infinity :
    (Machine.atStatement "read y;" [45, 48, 10]).step.2.store.get? "y" = some (-0) ∧
    ∃ d, (Machine.atStatement "read y;" [105, 110, 102, 10]).step.1 = .error d ∧
      d.cause = .invalidInput "inf" := by
  have hm : ∀ input, (Machine.atStatement "read y;" input).Coherent :=
    fun input => (Machine.Reachable.start input _ _).coherent.2
  obtain ⟨tokens, ht, name, hname, hc⟩ : ∃ tokens, tokenize "read y;" = .ok tokens ∧ ∃ name, name = "y" ∧
      (Command.read none [⟨name, none⟩]).SpelledBy tokens := by
    refine ⟨⟨.keyword .read, "read", ⟨0, 4⟩⟩ :: ([] ++ ([⟨.identifier, "y", ⟨5, 6⟩⟩] ++
      [⟨.punctuation .semicolon, ";", ⟨6, 7⟩⟩])), by decide +kernel, _, ?_,
      .read rfl .none (.one (.scalar rfl)) rfl⟩
    rfl
  subst hname
  have hx : ∀ input, (Machine.atStatement "read y;" input).Executing .read tokens :=
    fun _ => Machine.executing_of_spelledBy rfl rfl ht hc
  constructor
  · have hrender : Number.render (-0) = "-0" := by decide +kernel
    have hzero := (render_read_back (-0)).2.2 (.atStatement "read y;" [45, 48, 10]) tokens none [] (hm _)
      (hx _) rfl rfl (by rw [hrender]; decide +kernel)
    exact (hzero.1 (by decide +kernel) _ _ hc rfl).2.1
  · have hrender : Number.render (1 / 0) = "inf" := by decide +kernel
    have hinfinity := (render_read_back (1 / 0)).2.2 (.atStatement "read y;" [105, 110, 102, 10]) tokens none
      [] (hm _) (hx _) rfl rfl (by rw [hrender]; decide +kernel)
    obtain ⟨d, hd, hcause, -⟩ := hinfinity.2 (by decide +kernel) _ hc
    exact ⟨d, hd, hcause.trans (by rw [hrender])⟩

end Primer
