import Primer.Proofs.Machine.Effects

/-!
# What `print` writes

The items of a `print` are written one after the other, each as far as it has a text, and then the end of the
line.  Where an item has no value, what stands before it has been written, and nothing behind it.

* `Item.text? s i`: what is written of an item.
* `Leading D as front`: members with a comma behind each, and `Listed.split`, which cuts a list in front of any
  of its members.
* `leads_leading`: the run of the loop over the items in front of one of them.
* `leads_print_all`, `leads_print_until`: a whole `print`, and one with an item that has no value.
* `step_print_items`: what a step makes of them.
-/

namespace Primer

open Expression

variable {I : Type}

/-- What is written of an item: a text as it stands, and a value as it is rendered. -/
def Item.text? (s : Store) : Item → Option String
  | .text t => some t
  | .value e => (e.value? s).map Number.render

theorem Item.SpelledBy.ne_nil {i : Item} {read : List Token} (h : i.SpelledBy read) : read ≠ [] := by
  cases h with
  | text => exact List.cons_ne_nil _ _
  | value he => exact he.ne_nil

theorem Command.SpelledBy.exists_print {items : List Item} {tokens : List Token}
    (h : (Command.print items).SpelledBy tokens) : ∃ word read semicolon,
      tokens = word :: (read ++ [semicolon]) ∧ Listed Item.SpelledBy items read ∧
      semicolon.kind = .punctuation .semicolon := by
  cases h with
  | print _ hitems hsemicolon => exact ⟨_, _, _, rfl, hitems, hsemicolon⟩

/-! ### Lists with a place in them -/

/-- Members with a comma behind each of them. -/
inductive Leading {α : Type} (D : α → List Token → Prop) : List α → List Token → Prop
  | nil : Leading D [] []
  | cons {a : α} {as : List α} {read rest : List Token} {comma : Token} (h : D a read)
    (hcomma : comma.kind = .punctuation .comma) (hrest : Leading D as rest) :
    Leading D (a :: as) (read ++ comma :: rest)

section Lists

variable {α : Type} {D : α → List Token → Prop}

/-- In front of a member stand those before it, and behind it nothing or a comma. -/
theorem Listed.split {done more : List α} {a : α} {read : List Token}
    (h : Listed D (done ++ a :: more) read) :
    ∃ front tail rest, read = front ++ (tail ++ rest) ∧ Leading D done front ∧ D a tail ∧
      (∀ t ∈ rest.head?, t.kind = .punctuation .comma) ∧ (more = [] → rest = []) := by
  induction done generalizing read with
  | nil =>
    cases h with
    | one h => exact ⟨[], read, [], by simp, .nil, h, by simp, fun _ => rfl⟩
    | @more _ _ tail rest comma h hcomma hrest =>
      refine ⟨[], tail, comma :: rest, rfl, .nil, h, by simpa using hcomma, ?_⟩
      rintro rfl
      cases hrest
  | cons b done ih =>
    generalize hall : b :: done ++ a :: more = all at h
    cases h with
    | one => simp at hall
    | @more _ _ read rest comma h hcomma hrest =>
      cases hall
      obtain ⟨front, tail, rest', rfl, hfront, ha, hcommas, hlast⟩ := ih hrest
      exact ⟨read ++ comma :: front, tail, rest', by simp, .cons h hcomma hfront, ha, hcommas, hlast⟩

end Lists

/-! ### The actions -/

theorem Sink.write_empty (s : Sink) : s.write "".toUTF8 = (.ok (), s) := by
  obtain ⟨written, capacity, flushes⟩ := s
  cases capacity <;> simp [write]

namespace Action

variable {w : Work I Sink} {rest : List Token} {Q : Unit → Work I Sink → Prop}
  {E : Diagnostic → Work I Sink → Prop}

/-- One item: its text is written, or its evaluation fails. -/
theorem leads_item_of {i : Item} {read : List Token} (h : i.SpelledBy read)
    (hw : w.cursor.rest = read ++ rest) (hends : Ends rest)
    (hok : ∀ text log, i.text? w.machine.store = some text →
      Leads (write text) ⟨{ w.cursor with rest }, { w.machine with log }⟩ Q E)
    (herror : ∀ d left log, i.text? w.machine.store = none →
      (evaluate w.machine.store w.cursor).value = .error d →
      E d ⟨{ w.cursor with rest := left }, { w.machine with log }⟩) :
    Leads printItem w Q E := by
  refine leads_bind.mpr (leads_peek?.mpr ?_)
  cases h with
  | @text t ht =>
    have hpeek : w.cursor.peek? = some t := by simp [Cursor.peek?, hw]
    have htail : w.cursor.rest.tail = rest := by simp [hw]
    simp only [hpeek, Token.isString, ht, decide_true, if_true]
    refine leads_bind.mpr (leads_advance.mpr ?_)
    rw [htail]
    exact hok t.lexeme w.machine.log rfl
  | @value _ e he =>
    obtain ⟨t, ts, rfl⟩ := List.exists_cons_of_ne_nil he.ne_nil
    have hpeek : w.cursor.peek? = some t := by simp [Cursor.peek?, hw]
    obtain ⟨hstarts, hstring⟩ := startsExpression_of_derives he t rfl
    simp only [hpeek, hstring, hstarts, Bool.false_eq_true, if_false, if_true]
    refine leads_bind.mpr (leads_expression_cases hw he hends (fun x log hx => ?_) ?_)
    · exact hok (Number.render x) log (by simp [Item.text?, hx])
    · intro d left log hnone hd
      exact herror d left log (by simp [Item.text?, hnone]) hd

theorem leads_write_of {text : String} (hok : (w.machine.sink.write text.toUTF8).1 = .ok ())
    (hQ : Q () { w with machine := { w.machine with sink := (w.machine.sink.write text.toUTF8).2 } }) :
    Leads (write text) w Q E := by
  refine leads_write (fun _ => hQ) fun reason hfault => ?_
  rw [Sink.writer_write, hok] at hfault
  cases hfault

/-- The items in front of one of them are written one after the other. -/
theorem leads_leading {done : List Item} {front : List Token} (h : Leading Item.SpelledBy done front)
    {fuel : Nat} : ∀ {w : Work I Sink} {texts : List String}, w.cursor.rest = front ++ rest →
      done.map (Item.text? w.machine.store) = texts.map some →
      (w.machine.sink.write (String.join texts).toUTF8).1 = .ok () →
      (∀ log, Leads (separated printItem fuel) ⟨{ w.cursor with rest }, { w.machine with
        sink := (w.machine.sink.write (String.join texts).toUTF8).2, log }⟩ Q E) →
      Leads (separated printItem (done.length + fuel)) w Q E := by
  induction h with
  | nil =>
    intro w texts hw htexts _ hrest
    obtain rfl : texts = [] := by simpa using htexts.symm
    have hleads := hrest w.machine.log
    rw [String.join_nil, Sink.write_empty, ← show w.cursor.rest = rest from hw] at hleads
    simpa using hleads
  | @cons i done read front comma hi hcomma hfront ih =>
    intro w texts hw htexts haccepts hrest
    obtain ⟨text, texts, rfl⟩ : ∃ text texts', texts = text :: texts' := by
      cases texts with
      | nil => simp at htexts
      | cons text texts => exact ⟨text, texts, rfl⟩
    obtain ⟨htext, htexts⟩ := List.cons.inj htexts
    have hbytes : (String.join (text :: texts)).toUTF8 = text.toUTF8 ++ (String.join texts).toUTF8 := by
      rw [String.join_cons]
      exact String.toByteArray_append
    rw [hbytes] at haccepts hrest
    obtain ⟨hfirst, hboth⟩ := Sink.write_append haccepts
    have hw : w.cursor.rest = read ++ comma :: (front ++ rest) := by simpa using hw
    rw [List.length_cons, Nat.add_right_comm]
    refine leads_bind.mpr (leads_item_of hi hw (by simp [Ends, hcomma]) (fun text' log htext' => ?_) ?_)
    · obtain rfl : text = text' := Option.some.inj (htext.symm.trans htext')
      refine leads_write_of hfirst (leads_bind.mpr (leads_skip (fun t rest' hr _ => ?_) fun hnone => ?_))
      · cases hr
        rw [if_pos rfl]
        refine ih rfl htexts ?_ fun log' => ?_
        · show ((w.machine.sink.write text.toUTF8).2.write _).1 = _
          rw [hboth, haccepts]
        · have hleads := hrest log'
          rw [← hboth] at hleads
          exact hleads
      · exact absurd hcomma (hnone comma rfl)
    · intro d left log hnone _
      rw [htext] at hnone
      cases hnone

section Statements

variable {read : List Token} {semicolon : Token} {texts : List String}
  (hsemicolon : semicolon.kind = .punctuation .semicolon) (hw : w.cursor.rest = read ++ [semicolon])

include hw in
/-- There is fuel for every item. -/
theorem exists_fuel {done more : List Item} {i : Item}
    (hitems : Listed Item.SpelledBy (done ++ i :: more) read) :
    ∃ fuel, w.cursor.rest.length + 1 = done.length + (fuel + 1) := by
  have hle := hitems.length_le Item.SpelledBy.ne_nil
  refine ⟨w.cursor.rest.length - done.length, ?_⟩
  simp only [hw, List.length_append, List.length_cons, List.length_nil] at hle ⊢
  omega

include hsemicolon hw

/-- Where all items have texts, they are written with the end of the line behind them. -/
theorem leads_print_all {items : List Item} (hitems : Listed Item.SpelledBy items read)
    (htexts : items.map (Item.text? w.machine.store) = texts.map some)
    (haccepts : (w.machine.sink.write (String.join texts ++ "\n").toUTF8).1 = .ok ()) :
    Leads print w
      (fun flow w' => flow = .next ∧ ∃ log, w'.machine = { w.machine with
        sink := (w.machine.sink.write (String.join texts ++ "\n").toUTF8).2, log })
      (fun _ _ => False) := by
  -- the last item is the one without a comma behind it
  obtain rfl | ⟨done, last, rfl⟩ := List.eq_nil_or_concat items
  · cases hitems
  rw [List.concat_eq_append] at hitems htexts
  obtain ⟨fuel, hfuel⟩ := exists_fuel hw hitems
  obtain ⟨front, tail, rest, rfl, hfront, hlast, -, hrest⟩ := hitems.split
  obtain rfl := hrest rfl
  rw [List.map_append] at htexts
  obtain ⟨texts, more, rfl, hdone, hmore⟩ := List.map_eq_append_iff.mp htexts.symm
  obtain ⟨text, rfl, htext⟩ := List.map_eq_singleton_iff.mp hmore
  have hbytes : (String.join (texts ++ [text]) ++ "\n").toUTF8 =
      (String.join texts).toUTF8 ++ (text.toUTF8 ++ "\n".toUTF8) := by
    simp [String.toByteArray_append, ByteArray.append_assoc]
  rw [hbytes] at haccepts ⊢
  obtain ⟨hfirst, hboth⟩ := Sink.write_append haccepts
  rw [← hboth] at haccepts ⊢
  obtain ⟨hsecond, hend⟩ := Sink.write_append haccepts
  have hw : w.cursor.rest = front ++ (tail ++ [semicolon]) := by simp [hw]
  refine leads_bind.mpr (leads_get.mpr (leads_bind.mpr ?_))
  rw [printItems_eq, hfuel]
  refine leads_leading hfront hw hdone.symm hfirst fun log => ?_
  refine leads_bind.mpr (leads_item_of hlast rfl (by simp [Ends, hsemicolon]) (fun text' log' htext' => ?_) ?_)
  · obtain rfl : text = text' := Option.some.inj (htext.trans htext')
    refine leads_write_of hsecond (leads_bind.mpr (leads_skip_of rfl (by simp [hsemicolon]) ?_))
    refine leads_pure.mpr (leads_bind.mpr (leads_write_of ?_ ?_))
    · rw [← hend] at haccepts
      exact haccepts
    · refine leads_bind.mpr (leads_finish_of rfl hsemicolon ⟨rfl, log', ?_⟩)
      rw [← hend]
      rfl
  · intro d left log hnone _
    rw [← htext] at hnone
    cases hnone

/-- Where an item has no value, those before it are written, and the fault is that of its evaluation. -/
theorem leads_print_until {done more : List Item} {i : Item}
    (hitems : Listed Item.SpelledBy (done ++ i :: more) read)
    (hdone : done.map (Item.text? w.machine.store) = texts.map some)
    (hi : i.text? w.machine.store = none)
    (haccepts : (w.machine.sink.write (String.join texts).toUTF8).1 = .ok ()) :
    Leads print w (fun _ _ => False)
      (fun d w' => ∃ front tail rest log, read ++ [semicolon] = front ++ (tail ++ rest) ∧
        Leading Item.SpelledBy done front ∧ i.SpelledBy tail ∧
        (evaluate w.machine.store { w.cursor with rest := tail ++ rest }).value = .error d ∧
        w'.machine = { w.machine with sink := (w.machine.sink.write (String.join texts).toUTF8).2, log }) := by
  obtain ⟨fuel, hfuel⟩ := exists_fuel hw hitems
  obtain ⟨front, tail, rest, rfl, hfront, htail, hcommas, -⟩ := hitems.split
  have hw : w.cursor.rest = front ++ (tail ++ (rest ++ [semicolon])) := by simp [hw]
  have hends : Ends (rest ++ [semicolon]) := by
    intro t ht
    cases rest with
    | nil =>
      cases ht
      exact .inr (.inl hsemicolon)
    | cons comma rest => exact .inl (hcommas t ht)
  refine leads_bind.mpr (leads_get.mpr (leads_bind.mpr ?_))
  rw [printItems_eq, hfuel]
  refine leads_leading hfront hw hdone haccepts fun log => ?_
  refine leads_bind.mpr (leads_item_of htail rfl hends (fun text log' htext => ?_) ?_)
  · have htext : i.text? w.machine.store = some text := htext
    rw [hi] at htext
    cases htext
  · intro d left log' _ hd
    exact ⟨front, tail, rest ++ [semicolon], log', by simp, hfront, htail, hd, rfl⟩

end Statements

end Action

/-! ### Steps -/

/-- A string stands in the text between quotes, and has none in it. -/
theorem quoted_of_tokenize {text : String} {tokens : List Token} (ht : tokenize text = .ok tokens)
    {t : Token} (hmem : t ∈ tokens) (hstring : t.kind = .string) :
    '"' ∉ t.lexeme.toList ∧
      ∃ before behind, text.toList = before ++ ('"' :: t.lexeme.toList ++ '"' :: behind) := by
  obtain ⟨before, piece, behind, htext, hspells, -, -, hdisplay, -⟩ :=
    (lexed_of_tokenize ht).exists_piece t hmem
  rw [hstring] at hspells
  obtain ⟨body, rfl, hbody⟩ := hspells.followsFrom
  have hlexeme : t.lexeme.toList = body := by
    simpa [Token.display, Token.isString, hstring, String.ext_iff] using hdisplay
  rw [hlexeme]
  exact ⟨hbody, before, behind, by simpa using htext⟩

namespace Machine

section Steps

variable [Reader I] {m : Machine I Sink} (hm : m.Coherent) (hrunning : m.phase = .running) {s : Statement}
  (hs : m.program.statements[m.counter]? = some s) {tokens : List Token}
  (ht : tokenize s.text = .ok tokens) {texts : List String}

include hm hrunning hs ht

theorem Coherent.step_print_all {items : List Item} (hitems : (Command.print items).SpelledBy tokens)
    (htexts : items.map (Item.text? m.store) = texts.map some)
    (haccepts : (m.sink.write (String.join texts ++ "\n").toUTF8).1 = .ok ()) :
    m.step.1 = .ok .continue ∧
      { m with
        sink := { m.sink with written := m.sink.written ++ (String.join texts ++ "\n").toUTF8 }
        counter := m.counter + 1 }.Same m.step.2 := by
  have hclosed := isClosed_of_mem_form ht hitems.mem_form
  have hk := classify_of_mem_form hitems.mem_form s.text
  obtain ⟨word, read, semicolon, rfl, hitems, hsemicolon⟩ := hitems.exists_print
  rw [← Sink.write_of_ok haccepts]
  have hleads := hm.step_leads hrunning hs ht hclosed hk
    (Q := fun flow w => flow = .next ∧ ∃ cache log, w.machine = { m with
      sink := (m.sink.write (String.join texts ++ "\n").toUTF8).2, cache, log })
    (E := fun _ _ => False) fun m' hsame => by
      obtain ⟨cache, log, rfl⟩ := hsame.exists_eq
      refine Action.leads_bind.mpr (Action.leads_heading_of_classify hk fun _ => ?_)
      refine (Action.leads_print_all hsemicolon rfl hitems htexts haccepts).mono ?_ fun _ _ h => h
      rintro flow w ⟨rfl, log', hw⟩
      exact ⟨rfl, cache, log', hw⟩
  obtain ⟨flow, w, ⟨rfl, cache, log, hw⟩, hstep⟩ | ⟨d, w, hfalse, -⟩ := hleads
  · rw [hstep, hw]
    exact ⟨rfl, rfl, rfl, rfl, rfl, rfl, rfl⟩
  · exact hfalse.elim

theorem Coherent.step_print_until {done more : List Item} {i : Item}
    (hitems : (Command.print (done ++ i :: more)).SpelledBy tokens)
    (hdone : done.map (Item.text? m.store) = texts.map some) (hi : i.text? m.store = none)
    (haccepts : (m.sink.write (String.join texts).toUTF8).1 = .ok ()) :
    (∃ word front read rest d, tokens = word :: (front ++ (read ++ rest)) ∧
      Leading Item.SpelledBy done front ∧ i.SpelledBy read ∧
      (evaluate m.store ⟨tokens, read ++ rest, s.text.utf8ByteSize⟩).value = .error d ∧
      m.step.1 = .error (d.within ⟨m.counter + 1, s.text, s.offset⟩)) ∧
    { m with
      sink := { m.sink with written := m.sink.written ++ (String.join texts).toUTF8 } }.Same m.step.2 := by
  have hclosed := isClosed_of_mem_form ht hitems.mem_form
  have hk := classify_of_mem_form hitems.mem_form s.text
  obtain ⟨word, all, semicolon, rfl, hitems, hsemicolon⟩ := hitems.exists_print
  rw [← Sink.write_of_ok haccepts]
  have hleads := hm.step_leads hrunning hs ht hclosed hk (Q := fun _ _ => False)
    (E := fun d w => ∃ front read rest cache log, all ++ [semicolon] = front ++ (read ++ rest) ∧
      Leading Item.SpelledBy done front ∧ i.SpelledBy read ∧
      (evaluate m.store ⟨word :: (all ++ [semicolon]), read ++ rest, s.text.utf8ByteSize⟩).value = .error d ∧
      w.machine = { m with sink := (m.sink.write (String.join texts).toUTF8).2, cache, log })
    fun m' hsame => by
      obtain ⟨cache, log, rfl⟩ := hsame.exists_eq
      refine Action.leads_bind.mpr (Action.leads_heading_of_classify hk fun _ => ?_)
      refine (Action.leads_print_until hsemicolon rfl hitems hdone hi haccepts).mono (fun _ _ h => h) ?_
      rintro d w ⟨front, read, rest, log', hall, hfront, hread, hd, hw⟩
      exact ⟨front, read, rest, cache, log', hall, hfront, hread, hd, hw⟩
  obtain ⟨flow, w, hfalse, -⟩ | ⟨d, w, ⟨front, read, rest, cache, log, hall, hfront, hread, hd, hw⟩, hstep⟩ :=
    hleads
  · exact hfalse.elim
  · rw [hstep, hw]
    exact ⟨⟨word, front, read, rest, d, by rw [hall], hfront, hread, hd, rfl⟩, rfl, rfl, rfl, rfl, rfl, rfl⟩

end Steps

/-- **`print` writes its items and nothing else**, in every running state, whatever it holds, as long as its
cache tells the truth.  A string is written as it stands between its quotes.  If all items have texts and the
sink takes them, they are written with the end of the line behind them; if an item has no value, those before
it are written, and the step fails with the fault of its evaluation. -/
theorem step_print_items [Reader I] {m : Machine I Sink} (hm : m.Coherent)
    (hrunning : m.phase = .running) {s : Statement} (hs : m.program.statements[m.counter]? = some s)
    {tokens : List Token} (ht : tokenize s.text = .ok tokens)
    (hprint : tokens ∈ StatementKind.print.form) :
    (∀ t ∈ tokens, t.kind = .string → '"' ∉ t.lexeme.toList ∧
      ∃ before behind, s.text.toList = before ++ ('"' :: t.lexeme.toList ++ '"' :: behind)) ∧
    (∃ items, (Command.print items).SpelledBy tokens) ∧
    ∀ items, (Command.print items).SpelledBy tokens →
      (∀ texts, items.map (Item.text? m.store) = texts.map some →
        (m.sink.write (String.join texts ++ "\n").toUTF8).1 = .ok () →
        m.step.1 = .ok .continue ∧
          { m with
            sink := { m.sink with written := m.sink.written ++ (String.join texts ++ "\n").toUTF8 }
            counter := m.counter + 1 }.Same m.step.2) ∧
      ∀ done i more texts, items = done ++ i :: more →
        done.map (Item.text? m.store) = texts.map some → i.text? m.store = none →
        (m.sink.write (String.join texts).toUTF8).1 = .ok () →
        (∃ word front read rest d, tokens = word :: (front ++ (read ++ rest)) ∧
          Leading Item.SpelledBy done front ∧ i.SpelledBy read ∧
          (evaluate m.store ⟨tokens, read ++ rest, s.text.utf8ByteSize⟩).value = .error d ∧
          m.step.1 = .error (d.within ⟨m.counter + 1, s.text, s.offset⟩)) ∧
        { m with
          sink := { m.sink with written := m.sink.written ++ (String.join texts).toUTF8 } }.Same m.step.2 := by
  refine ⟨fun t hmem hstring => quoted_of_tokenize ht hmem hstring, ?_, fun items hitems => ⟨?_, ?_⟩⟩
  · obtain ⟨c, hc, hspelled⟩ := mem_form_iff.mp hprint
    cases hspelled with
    | print hword hitems hsemicolon => exact ⟨_, .print hword hitems hsemicolon⟩
    | _ => cases hc
  · intro texts htexts haccepts
    exact hm.step_print_all hrunning hs ht hitems htexts haccepts
  · rintro done i more texts rfl hdone hi haccepts
    exact hm.step_print_until hrunning hs ht hitems hdone hi haccepts

/-- A semicolon in a string ends nothing, and what stands before an unassigned name is written. -/
theorem step_print_items_strings :
    (atStatement "print \"a;\", 2;" []).step.2.sink.written = "a;2\n".toUTF8 ∧
    (∃ d, (atStatement "print \"a;\", x, 2;" []).step.1 = .error d) ∧
    (atStatement "print \"a;\", x, 2;" []).step.2.sink.written = "a;".toUTF8 := by
  have hm : ∀ text, (atStatement text []).Coherent := fun _ => (Reachable.start [] _ _).coherent.2
  have htwo : Number.render 2 = "2" := by decide +kernel
  obtain ⟨tokens, ht, text, htext, hitems⟩ : ∃ tokens, tokenize "print \"a;\", 2;" = .ok tokens ∧
      ∃ text, text = "a;" ∧ (Command.print [.text text, .value (.number 2)]).SpelledBy tokens := by
    refine ⟨⟨.keyword .print, "print", ⟨0, 5⟩⟩ :: (([⟨.string, "a;", ⟨6, 10⟩⟩] ++
      ⟨.punctuation .comma, ",", ⟨10, 11⟩⟩ :: [⟨.number 2, "2", ⟨12, 13⟩⟩]) ++
      [⟨.punctuation .semicolon, ";", ⟨13, 14⟩⟩]), by decide +kernel, _, ?_,
      .print rfl (.more (.text rfl) rfl (.one (.value ((Derives.number rfl).mono (by decide))))) rfl⟩
    rfl
  obtain ⟨tokens', ht', text', name, htext', hname, hitems'⟩ : ∃ tokens,
      tokenize "print \"a;\", x, 2;" = .ok tokens ∧ ∃ text name, text = "a;" ∧ name = "x" ∧
        (Command.print ([.text text] ++ .value (.scalar name) :: [.value (.number 2)])).SpelledBy tokens := by
    refine ⟨⟨.keyword .print, "print", ⟨0, 5⟩⟩ :: (([⟨.string, "a;", ⟨6, 10⟩⟩] ++
      ⟨.punctuation .comma, ",", ⟨10, 11⟩⟩ :: ([⟨.identifier, "x", ⟨12, 13⟩⟩] ++
      ⟨.punctuation .comma, ",", ⟨13, 14⟩⟩ :: [⟨.number 2, "2", ⟨15, 16⟩⟩])) ++
      [⟨.punctuation .semicolon, ";", ⟨16, 17⟩⟩]), by decide +kernel, _, _, ?_, ?_,
      .print rfl (.more (.text rfl) rfl (.more (.value ((Derives.scalar rfl).mono (by decide))) rfl
        (.one (.value ((Derives.number rfl).mono (by decide)))))) rfl⟩
    · rfl
    · rfl
  subst htext htext' hname
  obtain ⟨-, -, hall⟩ := step_print_items (hm _) rfl rfl ht hitems.mem_form
  obtain ⟨-, hsame⟩ := (hall _ hitems).1 ["a;", "2"] (by simp [Item.text?, Tree.value?, htwo]) rfl
  obtain ⟨-, -, hall'⟩ := step_print_items (hm _) rfl rfl ht' hitems'.mem_form
  obtain ⟨⟨_, _, _, _, d, -, -, -, -, hd⟩, hsame'⟩ := (hall' _ hitems').2 _ _ _ ["a;"] rfl rfl
    (by simp [Item.text?, Tree.value?, atStatement, start, Store.empty, Store.get?]) rfl
  refine ⟨?_, ⟨_, hd⟩, ?_⟩
  · rw [hsame.sink]
    decide +kernel
  · rw [hsame'.sink]
    decide +kernel

end Machine

end Primer
