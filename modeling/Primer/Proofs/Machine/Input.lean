import Primer.Proofs.Machine.Effects
import Primer.Proofs.Machine.Framing

/-!
# What `read` takes in

A `read` has a number for each of its targets.  The numbers are on the first lines of the input that are not
white space, and what is behind the last of these lines is left for the next `read`.

* `Input.lines input`: the lines of an input, each with the line feed that ends it.
* `Input.Held input entries front rest`: the lines `front` hold the entries, no fewer lines do, and `rest` is
  behind them.
* `Numerals input xs rest`: the next entries are numbers, and `Numerals.held`, where they stand.
* `Store.Fills s ts xs ps s'`: values are stored at one target after the other, each at its place by then.
* `leads_read_of`: the run of a `read` that succeeds.
* `step_read_targets`: what a step makes of it.
-/

namespace Primer

open Expression

/-! ### Lines -/

namespace Input

/-- The lines of an input, each with the line feed that ends it; the last may lack it. -/
def lines : List UInt8 → List (List UInt8)
  | [] => []
  | b :: bytes =>
    if b = 10 then [b] :: lines bytes
    else
      match lines bytes with
      | [] => [[b]]
      | first :: more => (b :: first) :: more

theorem lines_eq {input : List UInt8} (hne : input ≠ []) :
    lines input = line input :: lines (behind input) := by
  induction input with
  | nil => exact absurd rfl hne
  | cons b bytes ih =>
    by_cases hb : b = 10
    · simp [lines, line, behind, hb]
    · by_cases hbytes : bytes = []
      · simp [lines, line, behind, hb, hbytes]
      · simp [lines, line, behind, hb, ih hbytes]

theorem flatten_lines (input : List UInt8) : (lines input).flatten = input := by
  induction hn : input.length using Nat.strongRecOn generalizing input with
  | ind n ih =>
    cases input with
    | nil => rfl
    | cons b bytes =>
      have hrest := ih _ (hn ▸ length_behind_lt b bytes) _ rfl
      rw [lines_eq (List.cons_ne_nil b bytes), List.flatten_cons, hrest, line_append_behind]

/-- The search passes over lines of white space, up to the end or to the first other line, and what is behind this
line is left. -/
theorem exists_blank_of_entry (input : List UInt8) : ∃ blank, (∀ l ∈ blank, found? l = none) ∧
    (entry input = (.ended, []) ∧ lines input = blank ∨
      ∃ line, found? line = some (entry input).1 ∧ lines input = blank ++ line :: lines (entry input).2) := by
  -- each line that is passed over leaves fewer of them
  induction hn : input.length using Nat.strongRecOn generalizing input with
  | ind n ih =>
    cases input with
    | nil => exact ⟨[], by simp, .inl ⟨entry_nil, rfl⟩⟩
    | cons b bytes =>
      have hne := List.cons_ne_nil b bytes
      rw [entry_eq hne, lines_eq hne]
      cases hfound : found? (line (b :: bytes)) with
      | some found => exact ⟨[], by simp, .inr ⟨_, hfound, rfl⟩⟩
      | none =>
        obtain ⟨blank, hblank, hrest⟩ := ih _ (hn ▸ length_behind_lt b bytes) _ rfl
        refine ⟨line (b :: bytes) :: blank, List.forall_mem_cons.mpr ⟨hfound, hblank⟩, ?_⟩
        rcases hrest with ⟨hended, hlines⟩ | ⟨line', hline, hlines⟩
        · exact .inl ⟨hended, by rw [hlines]⟩
        · exact .inr ⟨line', hline, by rw [hlines]; rfl⟩

/-- An entry is on the first line that is not white space, and what is behind the line is left. -/
theorem exists_line_of_entry {input rest : List UInt8} {text : List Char}
    (h : entry input = (.text text, rest)) : ∃ blank line, lines input = blank ++ line :: lines rest ∧
      (∀ l ∈ blank, found? l = none) ∧ found? line = some (.text text) := by
  obtain ⟨blank, hblank, ⟨hended, -⟩ | ⟨line, hline, hlines⟩⟩ := exists_blank_of_entry input
  · rw [h] at hended
    cases hended
  · rw [h] at hline hlines
    exact ⟨blank, line, hlines, hblank, hline⟩

/-- The first lines of an input that hold the entries, and what is behind them.  There are no more lines than
it takes. -/
structure Held (input : List UInt8) (entries : List (List Char)) (front : List (List UInt8))
    (rest : List UInt8) : Prop where
  split : lines input = front ++ lines rest
  found : front.filterMap found? = entries.map .text
  shortest : ∀ before, before <+: lines input → entries.length ≤ (before.filterMap found?).length →
    front <+: before

theorem held_nil (input : List UInt8) : Held input [] [] input :=
  ⟨rfl, rfl, fun _ _ _ => List.nil_prefix⟩

theorem Held.bytes {input rest : List UInt8} {entries : List (List Char)} {front : List (List UInt8)}
    (h : Held input entries front rest) : input = front.flatten ++ rest := by
  rw [← flatten_lines input, h.split, List.flatten_append, flatten_lines]

theorem Held.cons {input middle rest : List UInt8} {text : List Char} {entries : List (List Char)}
    {front : List (List UInt8)} (hentry : entry input = (.text text, middle))
    (h : Held middle entries front rest) :
    ∃ front', Held input (text :: entries) front' rest := by
  obtain ⟨blank, line, hlines, hblank, hline⟩ := exists_line_of_entry hentry
  have hnone : blank.filterMap found? = [] := List.filterMap_eq_nil_iff.mpr hblank
  have hfirst : (blank ++ [line]).filterMap found? = [.text text] := by
    simp [List.filterMap_append, hnone, hline]
  have hlines : lines input = (blank ++ [line]) ++ lines middle := by simp [hlines]
  refine ⟨(blank ++ [line]) ++ front, ?_, ?_, fun before hbefore hcount => ?_⟩
  · rw [hlines, h.split, List.append_assoc _ front]
  · rw [List.filterMap_append, hfirst, h.found]
    rfl
  · -- fewer lines than the first entry takes hold no entry
    have hlong : blank ++ [line] <+: before := by
      rcases List.prefix_or_prefix_of_prefix (hlines ▸ List.prefix_append _ _) hbefore with hlong | hshort
      · exact hlong
      · rcases List.prefix_concat_iff.mp hshort with rfl | hshort
        · exact List.prefix_rfl
        · have hempty := (hshort.filterMap found?).length_le
          rw [hnone, List.length_nil] at hempty
          rw [List.length_cons] at hcount
          omega
    obtain ⟨more, rfl⟩ := hlong
    rw [hlines, List.prefix_append_right_inj] at hbefore
    rw [List.filterMap_append, hfirst, List.length_append, List.length_cons, List.length_singleton] at hcount
    rw [List.prefix_append_right_inj]
    exact h.shortest more hbefore (by omega)

end Input

/-- The next entries of the input are numbers, one after the other. -/
inductive Numerals : List UInt8 → List Float → List UInt8 → Prop
  | nil {input : List UInt8} : Numerals input [] input
  | cons {input middle rest : List UInt8} {x : Float} {xs : List Float} (h : Numeral input x middle)
    (hrest : Numerals middle xs rest) : Numerals input (x :: xs) rest

theorem Numerals.held {input rest : List UInt8} {xs : List Float} (h : Numerals input xs rest) :
    ∃ entries front, Input.Held input entries front rest ∧
      List.Forall₂ (fun entry x => Word.isNumber entry = true ∧ Number.read? entry = some x) entries xs := by
  induction h with
  | nil => exact ⟨[], [], Input.held_nil _, .nil⟩
  | cons h _ ih =>
    obtain ⟨entry, hentry, hnumber⟩ := h
    obtain ⟨entries, front, hheld, hnumbers⟩ := ih
    obtain ⟨front', hheld'⟩ := hheld.cons hentry
    exact ⟨entry :: entries, front', hheld', .cons hnumber hnumbers⟩

/-! ### Targets -/

theorem Listed.exists_identifier {targets : List Target} {read : List Token}
    (h : Listed Target.SpelledBy targets read) :
    ∃ name rest, read = name :: rest ∧ name.kind = .identifier := by
  cases h with
  | one h =>
    obtain ⟨name, index, rfl, hname, -⟩ := h.exists_cons
    exact ⟨name, index, rfl, hname⟩
  | more h =>
    obtain ⟨name, index, rfl, hname, -⟩ := h.exists_cons
    exact ⟨name, _, rfl, hname⟩

namespace Store

/-- Values are stored one after the other, each at the place that its target stands for in the store by
then. -/
inductive Fills : Store → List Target → List Float → List Place → Store → Prop
  | nil {s : Store} : Fills s [] [] [] s
  | cons {s s₁ s' : Store} {t : Target} {ts : List Target} {x : Float} {xs : List Float} {p : Place}
    {ps : List Place} (hplace : t.place? s = some p) (hsets : s.Sets p x s₁)
    (hrest : Fills s₁ ts xs ps s') : Fills s (t :: ts) (x :: xs) (p :: ps) s'

variable {s s' : Store} {ts : List Target} {xs : List Float} {ps : List Place}

theorem Fills.length_eq (h : s.Fills ts xs ps s') : xs.length = ts.length := by
  induction h with
  | nil => rfl
  | cons _ _ _ ih => simp [ih]

/-- Other places are as they were, and so are the sizes of arrays. -/
theorem Fills.frame (h : s.Fills ts xs ps s') :
    (∀ q, q ∉ ps → s'.at? q = s.at? q) ∧ ∀ name, s'.size? name = s.size? name := by
  induction h with
  | nil => exact ⟨fun _ _ => rfl, fun _ => rfl⟩
  | cons _ hsets _ ih =>
    refine ⟨fun q hq => ?_, fun name => (ih.2 name).trans (hsets.sizes name)⟩
    obtain ⟨hne, hq⟩ := List.ne_and_not_mem_of_not_mem_cons hq
    rw [ih.1 q hq, hsets.values, if_neg hne]

end Store

/-! ### The actions -/

namespace Action

variable {w : Work}

/-- One target: a number for it is in the input, and is stored at its place.  Where there are both and the
output can be flushed, nothing else can fail. -/
theorem leads_readTarget_of {t : Target} {read rest : List Token} (h : t.SpelledBy read)
    (hw : w.cursor.rest = read ++ rest)
    (hnext : ∀ b ∈ rest.head?, b.kind ≠ .punctuation .leftBracket) :
    Leads readTarget w
      (fun _ w' => w'.cursor.rest = rest ∧ ∃ x p s input log, Numeral w.machine.input x input ∧
        t.place? w.machine.store = some p ∧ w.machine.store.Sets p x s ∧
        w'.machine = { w.machine with store := s, input, log })
      (fun _ _ => w.machine.sink.flush = .ok () → (∃ x input, Numeral w.machine.input x input) →
        t.place? w.machine.store = none) := by
  obtain ⟨name, index, rfl, hname, hlexeme⟩ := h.exists_cons
  refine leads_bind.mpr (leads_expect_of hw (by simp [Token.isIdentifier, hname]) ?_)
  refine leads_readNumber.bind ?_ ?_
  · rintro x _ ⟨-, input, hx, rfl⟩
    refine (leads_index?_of h rfl hnext).bind ?_ fun _ _ hnone _ _ => ?_
    · rintro i w₁ ⟨hi, hrest, log, hw₁⟩
      have hplace : w₁.machine.store.place? name.lexeme i = t.place? w.machine.store := by
        have hi : t.subscript? w.machine.store = some i := hi
        rw [Target.place?, hi, ← hlexeme, hw₁]
        rfl
      refine leads_bind.mpr (leads_here.mpr ?_)
      refine leads_store_sets.mono ?_ fun _ _ hnone _ _ => hplace ▸ hnone
      rintro _ _ ⟨p, s, hp, hsets, rfl⟩
      rw [hw₁] at hsets
      refine ⟨hrest, x, p, s, input, log, hx, hplace ▸ hp, hsets, ?_⟩
      rw [hw₁]
      rfl
    · have hnone : t.subscript? w.machine.store = none := hnone
      rw [Target.place?, hnone, Option.bind_none]
  · rintro d w' ⟨-, hnone⟩ hflush ⟨x, input, hx⟩
    exact (hnone hflush x input hx).elim

/-- The targets are filled with the next numbers of the input. -/
theorem leads_readTargets_of {targets : List Target} {read : List Token} {semicolon : Token}
    (hsemicolon : semicolon.kind = .punctuation .semicolon) (h : Listed Target.SpelledBy targets read) :
    ∀ {fuel : Nat} {w : Work}, targets.length ≤ fuel → w.cursor.rest = read ++ [semicolon] →
      Leads (separated readTarget fuel) w
        (fun _ w' => w'.cursor.rest = [semicolon] ∧ ∃ xs ps s input log,
          Numerals w.machine.input xs input ∧ w.machine.store.Fills targets xs ps s ∧
          w'.machine = { w.machine with store := s, input, log })
        (fun _ _ => True) := by
  induction h with
  | one h =>
    intro fuel w hfuel hw
    obtain ⟨fuel, rfl⟩ := Nat.exists_eq_add_of_le' hfuel
    refine (leads_readTarget_of h hw (by simp [hsemicolon])).bind ?_ fun _ _ _ => trivial
    rintro _ w₁ ⟨hrest, x, p, s, input, log, hx, hp, hsets, hw₁⟩
    refine leads_bind.mpr (leads_skip_of hrest (by simp [hsemicolon]) ?_)
    exact leads_pure.mpr ⟨hrest, [x], [p], s, input, log, .cons hx .nil, .cons hp hsets .nil, hw₁⟩
  | @more t targets read more comma h hcomma _ ih =>
    intro fuel w hfuel hw
    obtain ⟨fuel, rfl⟩ := Nat.exists_eq_add_of_le' (Nat.le_trans (Nat.le_add_left 1 _) hfuel)
    have hw : w.cursor.rest = read ++ comma :: (more ++ [semicolon]) := by simpa using hw
    refine (leads_readTarget_of h hw (by simp [hcomma])).bind ?_ fun _ _ _ => trivial
    rintro _ w₁ ⟨hrest, x, p, s, input, log, hx, hp, hsets, hw₁⟩
    refine leads_bind.mpr (leads_skip (fun _ rest' hrest' _ => ?_) fun hnone => ?_)
    · rw [hrest] at hrest'
      cases hrest'
      rw [if_pos rfl]
      refine (ih (Nat.le_of_succ_le_succ hfuel) rfl).mono ?_ fun _ _ h => h
      rintro _ w₂ ⟨hlast, xs, ps, s', input', log', hxs, hfills, hw₂⟩
      rw [Work.ahead, hw₁] at hxs hfills hw₂
      exact ⟨hlast, x :: xs, p :: ps, s', input', log', .cons hx hxs, .cons hp hsets hfills, hw₂⟩
    · exact absurd hcomma (hnone comma (by simp [hrest]))

/-- The prompt is written, if there is one; nothing else can fail. -/
theorem leads_prompt_of {prompt : Option String} {lead rest : List Token} {name : Token}
    (h : Prompted prompt lead) (hname : name.kind = .identifier)
    (hw : w.cursor.rest = lead ++ name :: rest) :
    Leads Action.prompt w
      (fun _ w' => w'.cursor.rest = name :: rest ∧ w'.machine = { w.machine with
        sink := { w.machine.sink with
          written := w.machine.sink.written ++ (prompt.getD "").toUTF8 } })
      (fun _ _ => (w.machine.sink.write (prompt.getD "").toUTF8).1 ≠ .ok ()) := by
  refine leads_bind.mpr (leads_peek?.mpr ?_)
  cases h with
  | none =>
    have hpeek : w.cursor.peek? = some name := by simp [Cursor.peek?, hw]
    rw [hpeek]
    simp only [Token.isString, hname]
    exact leads_pure.mpr ⟨hw, by simp⟩
  | @some t comma ht hcomma =>
    have hpeek : w.cursor.peek? = some t := by simp [Cursor.peek?, hw]
    rw [hpeek]
    simp only [Token.isString, ht, decide_true, if_true]
    refine leads_bind.mpr (leads_advance.mpr (leads_bind.mpr (leads_write (fun hok => ?_) ?_)))
    · have hrest : w.cursor.rest.tail = comma :: name :: rest := by simp [hw]
      refine leads_bind.mpr (leads_expect_of hrest (by simp [Token.isPunctuation, hcomma]) ?_)
      rw [Sink.writer_write, Sink.write_of_ok hok]
      exact leads_pure.mpr ⟨rfl, rfl⟩
    · intro reason hfault hok
      cases hok.symm.trans hfault

/-- Behind its prompt a `read` fills its targets, and requires its end. -/
theorem leads_read_prompted {prompt : Option String} {targets : List Target} {lead read : List Token}
    {semicolon : Token} {Q : Flow → Work → Prop} {E : Diagnostic → Work → Prop}
    (hprompt : Prompted prompt lead) (htargets : Listed Target.SpelledBy targets read)
    (hw : w.cursor.rest = lead ++ (read ++ [semicolon]))
    (hok : ∀ w₁ : Work, w₁.cursor.rest = read ++ [semicolon] → w₁.machine = { w.machine with
        sink := { w.machine.sink with written := w.machine.sink.written ++ (prompt.getD "").toUTF8 } } →
      Leads (do readTargets (w₁.cursor.rest.length + 1); finish .read; return .next) w₁ Q E)
    (herror : (w.machine.sink.write (prompt.getD "").toUTF8).1 ≠ .ok () → ∀ d w', E d w') :
    Leads Action.read w Q E := by
  obtain ⟨name, rest, hread, hname⟩ := htargets.exists_identifier
  refine (leads_prompt_of hprompt hname (by rw [hw, hread]; rfl)).bind ?_ fun d w' h => herror h d w'
  rintro _ w₁ ⟨hrest, hw₁⟩
  have hrest : w₁.cursor.rest = read ++ [semicolon] := by
    rw [hrest, hread]
    rfl
  exact leads_bind.mpr (leads_get.mpr (hok w₁ hrest hw₁))

/-- A `read` that succeeds has written its prompt and filled its targets. -/
theorem leads_read_of {prompt : Option String} {targets : List Target} {lead read : List Token}
    {semicolon : Token} (hprompt : Prompted prompt lead) (htargets : Listed Target.SpelledBy targets read)
    (hsemicolon : semicolon.kind = .punctuation .semicolon)
    (hw : w.cursor.rest = lead ++ (read ++ [semicolon])) :
    Leads Action.read w
      (fun flow w' => flow = .next ∧ ∃ xs ps s input log, Numerals w.machine.input xs input ∧
        w.machine.store.Fills targets xs ps s ∧
        w'.machine = { w.machine with
          store := s
          input
          sink := { w.machine.sink with written := w.machine.sink.written ++ (prompt.getD "").toUTF8 }
          log })
      (fun _ _ => True) := by
  have hlength := htargets.length_le fun h => by
    obtain ⟨name, index, rfl, -⟩ := Target.SpelledBy.exists_cons h
    exact List.cons_ne_nil _ _
  refine leads_read_prompted hprompt htargets hw (fun w₁ hrest hw₁ => ?_) fun _ _ _ => trivial
  have hfuel : targets.length ≤ w₁.cursor.rest.length + 1 := by
    rw [hrest, List.length_append]
    omega
  rw [readTargets_eq]
  refine (leads_readTargets_of hsemicolon htargets hfuel hrest).bind ?_ fun _ _ h => h
  rintro _ w₂ ⟨hlast, xs, ps, s, input, log, hxs, hfills, hw₂⟩
  rw [hw₁] at hxs hfills hw₂
  exact leads_bind.mpr (leads_finish_of hlast hsemicolon ⟨rfl, xs, ps, s, input, log, hxs, hfills, hw₂⟩)

end Action

/-! ### Steps -/

namespace Machine

/-- What a `read` makes of a machine, up to its cache and log. -/
inductive Reads (m : Machine) (prompt : Option String) (targets : List Target) : Step → Machine → Prop
  | mk {xs : List Float} {ps : List Place} {s : Store} {rest : List UInt8} {m' : Machine}
    (hnumerals : Numerals m.input xs rest) (hfills : m.store.Fills targets xs ps s)
    (hm' : { m with
      store := s
      input := rest
      sink := { m.sink with written := m.sink.written ++ (prompt.getD "").toUTF8 }
      counter := m.counter + 1 }.Same m') : Reads m prompt targets .continue m'

theorem Coherent.reads_of_step {m : Machine} (hm : m.Coherent) {tokens : List Token}
    (hx : m.Executing .read tokens) {prompt : Option String} {targets : List Target}
    (hc : (Command.read prompt targets).SpelledBy tokens) {r : Step} (hstep : m.step.1 = .ok r) :
    m.Reads prompt targets r m.step.2 := by
  refine hm.ok_of_step hx (fun length cache log => ?_) hstep
  cases hc with
  | read hword hprompt htargets hsemicolon =>
    refine Action.leads_bind.mpr ((Action.leads_heading rfl hword).mpr ?_)
    refine (Action.leads_read_of hprompt htargets hsemicolon rfl).mono ?_ fun _ _ h => h
    rintro _ w ⟨rfl, xs, ps, s, rest, log', hnumerals, hfills, hw⟩
    rw [hw]
    exact .mk hnumerals hfills ⟨rfl, rfl, rfl, rfl, rfl, rfl⟩

/-- **`read` takes one line for each target, and no more lines than that.**  In every state whose cache tells
the truth, a `read` that succeeds takes the shortest part of the input, in whole lines, that has as many lines
with something on them as there are targets.  The numbers on these lines are stored at one target after the
other, where an index has its value in the store by then; other places and the sizes of arrays are as they
were, and the prompt is all that is written. -/
theorem step_read_targets {m : Machine} (hm : m.Coherent) {tokens : List Token}
    (hx : m.Executing .read tokens) {r : Step} (hstep : m.step.1 = .ok r) :
    (∃ prompt targets, (Command.read prompt targets).SpelledBy tokens) ∧
    ∀ prompt targets, (Command.read prompt targets).SpelledBy tokens →
      r = .continue ∧ ∃ entries front rest values places s,
        Input.Held m.input entries front rest ∧ m.input = front.flatten ++ rest ∧
        entries.length = targets.length ∧
        List.Forall₂ (fun entry x => Word.isNumber entry = true ∧ Number.read? entry = some x)
          entries values ∧
        m.store.Fills targets values places s ∧
        (∀ q, q ∉ places → s.at? q = m.store.at? q) ∧ (∀ name, s.size? name = m.store.size? name) ∧
        { m with
          store := s
          input := rest
          sink := { m.sink with written := m.sink.written ++ (prompt.getD "").toUTF8 }
          counter := m.counter + 1 }.Same m.step.2 := by
  refine ⟨?_, fun prompt targets hc => ?_⟩
  · obtain ⟨hrunning, s, hs, -, ht, hk⟩ := hx
    obtain ⟨c, hc, hspelled⟩ := mem_form_iff.mp (hm.mem_form_of_step hrunning hs ht hk hstep)
    cases hspelled with
    | read hword hprompt htargets hsemicolon => exact ⟨_, _, .read hword hprompt htargets hsemicolon⟩
    | _ => cases hc
  · have hreads := hm.reads_of_step hx hc hstep
    generalize m.step.2 = m' at hreads
    obtain ⟨hnumerals, hfills, hsame⟩ := hreads
    obtain ⟨entries, front, hheld, hnumbers⟩ := hnumerals.held
    obtain ⟨hvalues, hsizes⟩ := hfills.frame
    have hlength : entries.length = targets.length := hnumbers.length_eq.trans hfills.length_eq
    exact ⟨rfl, entries, front, _, _, _, _, hheld, hheld.bytes, hlength, hnumbers, hfills, hvalues, hsizes,
      hsame⟩

/-- A target that is read twice has the number of the later line; what is behind this line is left. -/
theorem step_read_targets_twice :
    (atStatement "read \"n \", i, i;" [10, 32, 49, 32, 10, 55, 10, 57, 10]).step.2.store.get? "i" = some 7 ∧
    (atStatement "read \"n \", i, i;" [10, 32, 49, 32, 10, 55, 10, 57, 10]).step.2.input = [57, 10] ∧
    (atStatement "read \"n \", i, i;" [10, 32, 49, 32, 10, 55, 10, 57, 10]).step.2.sink.written =
      "n ".toUTF8 := by
  have hm : ∀ text input, (atStatement text input).Coherent :=
    fun _ input => (Reachable.start input _ _).coherent.2
  obtain ⟨tokens, ht, prompt, name, name', hprompt, hname, hname', hc⟩ : ∃ tokens,
      tokenize "read \"n \", i, i;" = .ok tokens ∧ ∃ prompt name name', prompt = "n " ∧ name = "i" ∧
        name' = "i" ∧ (Command.read (some prompt) [⟨name, none⟩, ⟨name', none⟩]).SpelledBy tokens := by
    refine ⟨⟨.keyword .read, "read", ⟨0, 4⟩⟩ :: ([⟨.string, "n ", ⟨5, 9⟩⟩,
      ⟨.punctuation .comma, ",", ⟨9, 10⟩⟩] ++ (([⟨.identifier, "i", ⟨11, 12⟩⟩] ++
      ⟨.punctuation .comma, ",", ⟨12, 13⟩⟩ :: [⟨.identifier, "i", ⟨14, 15⟩⟩]) ++
      [⟨.punctuation .semicolon, ";", ⟨15, 16⟩⟩])), by decide +kernel, _, _, _, ?_, ?_, ?_,
      .read rfl (.some rfl rfl) (.more (.scalar rfl) rfl (.one (.scalar rfl))) rfl⟩
    · rfl
    · rfl
    · rfl
  subst hprompt hname hname'
  have hok : (atStatement "read \"n \", i, i;" [10, 32, 49, 32, 10, 55, 10, 57, 10]).step.1.toBool = true := by
    decide +kernel
  obtain ⟨r, hstep⟩ : ∃ r,
      (atStatement "read \"n \", i, i;" [10, 32, 49, 32, 10, 55, 10, 57, 10]).step.1 = .ok r := by
    unfold Except.toBool at hok
    split at hok
    · exact ⟨_, ‹_›⟩
    · cases hok
  have hleft : (atStatement "read \"n \", i, i;" [10, 32, 49, 32, 10, 55, 10, 57, 10]).step.2.input =
      [57, 10] := by decide +kernel
  obtain ⟨-, entries, front, rest, values, places, s, hheld, -, -, hnumbers, hfills, -, -, hsame⟩ :=
    (step_read_targets (hm _ _) (executing_of_spelledBy rfl rfl ht hc) hstep).2 _ _ hc
  -- the lines that are taken, and then the numbers that are on them
  obtain rfl : rest = [57, 10] := hsame.input.symm.trans hleft
  obtain rfl : front = [[10], [32, 49, 32, 10], [55, 10]] :=
    List.append_cancel_right (hheld.split.symm.trans rfl)
  obtain ⟨one, _, rfl, hone, hrest⟩ := List.map_eq_cons_iff.mp hheld.found.symm
  obtain ⟨seven, _, rfl, hseven, hnil⟩ := List.map_eq_cons_iff.mp hrest
  obtain rfl := List.map_eq_nil_iff.mp hnil
  cases hone
  cases hseven
  obtain _ | ⟨-, hnumbers⟩ := hnumbers
  obtain _ | ⟨⟨-, hx⟩, hnumbers⟩ := hnumbers
  cases hnumbers
  have hseven : Number.read? ['7'] = some 7 := by decide +kernel
  obtain rfl := Option.some.inj (hx.symm.trans hseven)
  obtain _ | ⟨-, -, hfills⟩ := hfills
  obtain _ | ⟨hplace, hsets, hfills⟩ := hfills
  cases hplace
  cases hfills
  refine ⟨?_, hleft, ?_⟩
  · rw [hsame.store]
    exact hsets.values (.scalar "i")
  · rw [hsame.sink]
    show ByteArray.empty ++ "n ".toUTF8 = "n ".toUTF8
    decide +kernel

end Machine

end Primer
