import Primer.Proofs.Expression.Completeness
import Primer.Proofs.Machine.Logic

/-!
# What a `read` stores

A `read` takes values from the input into one target after the other, and what it has stored stays stored if
it fails later on.  What can be stored is said by relations on the tokens, the input and the store, without
the actions.

* `Reading.Takes r d r'`: the next target is there in full, and it takes the deposit `d`.
* `Reading.Filled r ds`: the first targets take the deposits `ds`, one after the other.
* `Reading.Completed r ds`: so they do behind the prompt, if there is one.
* `leads_read`: there is a longest list of such deposits, and a `read` stores it, whether it fails or not.
-/

namespace Primer

open Expression

variable {I O : Type}

/-- A value for a variable or for an array element. -/
structure Deposit where
  name : String
  index : Option Float
  value : Float

namespace Store

/-- Stores a value under a name, or at an index of it. -/
def deposit (s : Store) (d : Deposit) : Except StoreError Store :=
  match d.index with
  | none => .ok (s.record d.name d.value)
  | some index => s.assign d.name index d.value

theorem size?_deposit {s s' : Store} {d : Deposit} (h : s.deposit d = .ok s') (name : String) :
    s'.size? name = s.size? name := by
  unfold deposit at h
  split at h
  · cases h
    rfl
  · exact (view_assign h).2.1 name

/-- Deposits leave the sizes of arrays alone. -/
theorem size?_foldlM {s s' : Store} {ds : List Deposit} (h : ds.foldlM deposit s = .ok s')
    (name : String) : s'.size? name = s.size? name := by
  induction ds generalizing s with
  | nil =>
    cases h
    rfl
  | cons d ds ih =>
    rw [List.foldlM_cons] at h
    cases hd : s.deposit d with
    | error e =>
      rw [hd] at h
      cases h
    | ok s₁ =>
      rw [hd] at h
      rw [ih h, size?_deposit hd]

end Store

/-! ### Indices and numbers -/

/-- What stands behind a name: nothing that opens an index, or an index in brackets that has a value. -/
inductive Indexed (s : Store) : List Token → Option Float → List Token → Prop
  | absent {rest : List Token} (h : ∀ t ∈ rest.head?, t.kind ≠ .punctuation .leftBracket) :
    Indexed s rest none rest
  | present {bracket close : Token} {index rest : List Token} {x : Float}
    (hopen : bracket.kind = .punctuation .leftBracket) (hindex : Evaluates s .comparison index x)
    (hclose : close.kind = .punctuation .rightBracket) :
    Indexed s (bracket :: (index ++ close :: rest)) (some x) rest

namespace Indexed

variable {s : Store} {t : Token} {rest rest' rest'' : List Token} {i i' : Option Float}

/-- The index that a bracket opens is what an evaluation finds there. -/
theorem evaluate (h : Indexed s (t :: rest) i rest') (ht : t.kind = .punctuation .leftBracket)
    {c : Cursor} (hc : c.rest = rest) : ∃ x close, i = some x ∧
      close.kind = .punctuation .rightBracket ∧ (evaluate s c).value = .ok x ∧
      (evaluate s c).rest = close :: rest' := by
  generalize htokens : t :: rest = tokens at h
  cases h with
  | absent hnone =>
    subst htokens
    exact absurd ht (hnone t rfl)
  | @present bracket close index _ x hopen hindex hclose =>
    cases htokens
    obtain ⟨e, he, hx⟩ := hindex
    have hends : Ends (close :: rest') := by simp [Ends, hclose]
    have hvalue := evaluate_of_derives (s := s) hc he hends
    rw [hx] at hvalue
    exact ⟨x, close, rfl, hclose, hvalue⟩

theorem unique (h : Indexed s rest i rest') (h' : Indexed s rest i' rest'') :
    i = i' ∧ rest' = rest'' := by
  cases h with
  | absent hnone =>
    cases h' with
    | absent => exact ⟨rfl, rfl⟩
    | present hopen => exact absurd hopen (hnone _ rfl)
  | @present bracket close index _ x hopen hindex hclose =>
    have h : Indexed s (bracket :: (index ++ close :: rest')) (some x) rest' :=
      .present hopen hindex hclose
    obtain ⟨y, close', hy, -, hvalue, hrest⟩ := h.evaluate (c := ⟨[], _, 0⟩) hopen rfl
    obtain ⟨y', close'', hy', -, hvalue', hrest'⟩ := h'.evaluate (c := ⟨[], _, 0⟩) hopen rfl
    rw [hvalue] at hvalue'
    rw [hrest] at hrest'
    cases hvalue'
    exact ⟨hy.trans hy'.symm, (List.cons.inj hrest').2⟩

theorem length_le (h : Indexed s rest i rest') : rest'.length ≤ rest.length := by
  cases h with
  | absent => exact Nat.le_refl _
  | present =>
    simp only [List.length_cons, List.length_append]
    omega

end Indexed

/-- The next entry of the input is a number. -/
def Numeral [Reader I] (input : I) (value : Float) (input' : I) : Prop :=
  ∃ entry, Input.entry input = (.text entry, input') ∧ Word.isNumber entry = true ∧
    Number.read? entry = some value

theorem Numeral.unique [Reader I] {input input' input'' : I} {value value' : Float}
    (h : Numeral input value input') (h' : Numeral input value' input'') :
    value = value' ∧ input' = input'' := by
  obtain ⟨entry, hentry, -, hvalue⟩ := h
  obtain ⟨entry', hentry', -, hvalue'⟩ := h'
  rw [hentry] at hentry'
  cases hentry'
  rw [hvalue] at hvalue'
  cases hvalue'
  exact ⟨rfl, rfl⟩

/-! ### Targets -/

/-- A `read` between two targets. -/
structure Reading (I O : Type) where
  store : Store
  input : I
  sink : O
  rest : List Token

namespace Reading

variable [Reader I] [Writer O]

/-- One target: a name, a number for it in the input, and perhaps an index, for a place in the store that
can be stored to.  The output is flushed before the number is read. -/
inductive Takes (r : Reading I O) : Deposit → Reading I O → Prop
  | mk {name : Token} {rest rest' : List Token} {input : I} {value : Float}
    {index : Option Float} {s : Store} (hrest : r.rest = name :: rest) (hname : name.kind = .identifier)
    (hflush : (Writer.flush r.sink).1 = .ok ()) (hvalue : Numeral r.input value input)
    (hindex : Indexed r.store rest index rest')
    (hstore : r.store.deposit ⟨name.lexeme, index, value⟩ = .ok s) :
    Takes r ⟨name.lexeme, index, value⟩ ⟨s, input, (Writer.flush r.sink).2, rest'⟩

/-- Targets with commas between them. -/
inductive Filled : Reading I O → List Deposit → Prop
  | nil {r : Reading I O} : Filled r []
  | one {r r' : Reading I O} {d : Deposit} (h : r.Takes d r') : Filled r [d]
  | more {r r' : Reading I O} {d : Deposit} {comma : Token} {rest : List Token} {ds : List Deposit}
    (h : r.Takes d r') (hrest : r'.rest = comma :: rest) (hcomma : comma.kind = .punctuation .comma)
    (hds : Filled { r' with rest } ds) : Filled r (d :: ds)

/-- The prompt is passed, if there is one: it can be written, and a comma follows it. -/
inductive Opens (r : Reading I O) : Reading I O → Prop
  | bare (h : ∀ t ∈ r.rest.head?, t.kind ≠ .string) : Opens r r
  | prompted {t comma : Token} {rest : List Token} (hrest : r.rest = t :: comma :: rest)
    (ht : t.kind = .string) (hwrite : (Writer.write r.sink t.lexeme.toUTF8).1 = .ok ())
    (hcomma : comma.kind = .punctuation .comma) :
    Opens r { r with sink := (Writer.write r.sink t.lexeme.toUTF8).2, rest }

/-- The deposits of the first targets behind the prompt. -/
def Completed (r : Reading I O) (ds : List Deposit) : Prop := ds = [] ∨ ∃ r', r.Opens r' ∧ r'.Filled ds

/-- The store `s` is what the longest list of deposits with the property `P` leaves. -/
def Leaves (r : Reading I O) (P : List Deposit → Prop) (s : Store) : Prop :=
  ∃ ds, (∀ ds', P ds' ↔ ds' <+: ds) ∧ ds.foldlM Store.deposit r.store = .ok s

variable {r r' r'' : Reading I O} {d d' : Deposit} {s : Store}

theorem Takes.unique (h : r.Takes d r') (h' : r.Takes d' r'') : d = d' ∧ r' = r'' := by
  obtain @⟨name, rest, _, _, _, _, _, hrest, -, -, hvalue, hindex, hstore⟩ := h
  obtain @⟨name', rest', _, _, _, _, _, hrest', -, -, hvalue', hindex', hstore'⟩ := h'
  rw [hrest] at hrest'
  cases hrest'
  obtain ⟨rfl, rfl⟩ := hvalue.unique hvalue'
  obtain ⟨rfl, rfl⟩ := hindex.unique hindex'
  rw [hstore] at hstore'
  cases hstore'
  exact ⟨rfl, rfl⟩

theorem Takes.deposit (h : r.Takes d r') : r.store.deposit d = .ok r'.store := by
  obtain ⟨-, -, -, -, -, hstore⟩ := h
  exact hstore

theorem Takes.length_lt (h : r.Takes d r') : r'.rest.length < r.rest.length := by
  obtain ⟨hrest, -, -, -, hindex, -⟩ := h
  have hle := hindex.length_le
  rw [hrest, List.length_cons]
  exact Nat.lt_succ_of_le hle

/-- Nothing can be stored. -/
theorem leaves_none (h : ∀ d r', ¬r.Takes d r') : r.Leaves r.Filled r.store := by
  refine ⟨[], fun ds' => ?_, rfl⟩
  rw [List.prefix_nil]
  constructor
  · intro hfilled
    cases hfilled with
    | nil => rfl
    | one htakes => exact absurd htakes (h _ _)
    | more htakes => exact absurd htakes (h _ _)
  · rintro rfl
    exact .nil

/-- With a target before the end, there is nothing more to fill. -/
theorem Takes.filled_cons_iff_last (h : r.Takes d r')
    (hlast : ∀ t ∈ r'.rest.head?, t.kind ≠ .punctuation .comma) (ds : List Deposit) :
    r.Filled (d' :: ds) ↔ d' = d ∧ ds = [] := by
  constructor
  · intro hfilled
    cases hfilled with
    | one htakes => exact ⟨(htakes.unique h).1, rfl⟩
    | more htakes hrest hcomma =>
      obtain ⟨-, rfl⟩ := h.unique htakes
      exact absurd hcomma (hlast _ (by simp [hrest]))
  · rintro ⟨rfl, rfl⟩
    exact .one h

/-- With a target before a comma, the others are filled behind the comma. -/
theorem Takes.filled_cons_iff (h : r.Takes d r') {comma : Token} {rest : List Token}
    (hrest : r'.rest = comma :: rest) (hcomma : comma.kind = .punctuation .comma) (ds : List Deposit) :
    r.Filled (d' :: ds) ↔ d' = d ∧ Filled { r' with rest } ds := by
  constructor
  · intro hfilled
    cases hfilled with
    | one htakes => exact ⟨(htakes.unique h).1, .nil⟩
    | more htakes hrest' _ hds =>
      obtain ⟨rfl, rfl⟩ := h.unique htakes
      rw [hrest] at hrest'
      cases hrest'
      exact ⟨rfl, hds⟩
  · rintro ⟨rfl, hds⟩
    exact .more h hrest hcomma hds

theorem Takes.leaves_one (h : r.Takes d r')
    (hlast : ∀ t ∈ r'.rest.head?, t.kind ≠ .punctuation .comma) : r.Leaves r.Filled r'.store := by
  refine ⟨[d], fun ds' => ?_, ?_⟩
  · cases ds' with
    | nil => exact iff_of_true .nil List.nil_prefix
    | cons d' ds' => rw [h.filled_cons_iff_last hlast, List.cons_prefix_cons, List.prefix_nil]
  · rw [List.foldlM_cons, h.deposit]
    rfl

theorem Takes.leaves_more (h : r.Takes d r') {comma : Token} {rest : List Token}
    (hrest : r'.rest = comma :: rest) (hcomma : comma.kind = .punctuation .comma)
    (hleaves : Leaves { r' with rest } (Filled { r' with rest }) s) : r.Leaves r.Filled s := by
  obtain ⟨ds, hfilled, hstore⟩ := hleaves
  refine ⟨d :: ds, fun ds' => ?_, ?_⟩
  · cases ds' with
    | nil => exact iff_of_true .nil List.nil_prefix
    | cons d' ds' => rw [h.filled_cons_iff hrest hcomma, List.cons_prefix_cons, hfilled]
  · rw [List.foldlM_cons, h.deposit]
    exact hstore

omit [Reader I] in
theorem Opens.unique (h : r.Opens r') (h' : r.Opens r'') : r' = r'' := by
  cases h with
  | bare hbare =>
    cases h' with
    | bare => rfl
    | prompted hrest ht => exact absurd ht (hbare _ (by simp [hrest]))
  | prompted hrest ht =>
    cases h' with
    | bare hbare => exact absurd ht (hbare _ (by simp [hrest]))
    | prompted hrest' =>
      rw [hrest] at hrest'
      cases hrest'
      rfl

omit [Reader I] in
theorem Opens.store (h : r.Opens r') : r'.store = r.store := by
  cases h <;> rfl

/-- The targets are not reached. -/
theorem leaves_unopened (h : ∀ r', ¬r.Opens r') : r.Leaves r.Completed r.store := by
  refine ⟨[], fun ds' => ?_, rfl⟩
  rw [List.prefix_nil]
  exact ⟨fun hds => hds.resolve_right fun ⟨r', hr', _⟩ => h r' hr', .inl⟩

theorem Opens.leaves (h : r.Opens r') (hleaves : r'.Leaves r'.Filled s) : r.Leaves r.Completed s := by
  obtain ⟨ds, hfilled, hstore⟩ := hleaves
  refine ⟨ds, fun ds' => ⟨?_, fun hprefix => ?_⟩, h.store ▸ hstore⟩
  · rintro (rfl | ⟨r'', hr'', hds'⟩)
    · exact List.nil_prefix
    · exact (hfilled ds').mp (h.unique hr'' ▸ hds')
  · exact .inr ⟨r', h, (hfilled ds').mpr hprefix⟩

end Reading

/-! ### The actions -/

/-- What a `read` at this place has before it. -/
def Work.reading (w : Work I O) : Reading I O :=
  ⟨w.machine.store, w.machine.input, w.machine.sink, w.cursor.rest⟩

namespace Action

variable {w : Work I O}

theorem leads_index? : Leads index? w
    (fun index w' => ∃ rest, Indexed w.reading.store w.reading.rest index rest ∧
      w'.reading = { w.reading with rest })
    (fun _ w' => w'.reading.store = w.reading.store ∧
      ∀ index rest, ¬Indexed w.reading.store w.reading.rest index rest) := by
  refine leads_bind.mpr (leads_skip ?_ fun hclosed => ?_)
  · intro t rest hr ht
    have hr : w.reading.rest = t :: rest := hr
    rw [hr]
    -- the index that is found is the one that the grammar allows
    have hfound : ∀ {index rest'}, Indexed w.reading.store (t :: rest) index rest' → ∃ x close,
        close.kind = .punctuation .rightBracket ∧
        (evaluate (w.ahead rest).machine.store (w.ahead rest).cursor).value = .ok x ∧
        (evaluate (w.ahead rest).machine.store (w.ahead rest).cursor).rest = close :: rest' := by
      intro index rest' hindex
      obtain ⟨x, close, -, hclose, hvalue⟩ := hindex.evaluate (c := (w.ahead rest).cursor) ht rfl
      exact ⟨x, close, hclose, hvalue⟩
    refine leads_bind.mpr (leads_subscript ?_ ?_ ?_)
    · intro x close rest' hx hrest hclose
      obtain ⟨read, e, hread, he, -, hvalue⟩ := exists_derives_of_evaluate hx
      rw [hrest] at hread
      have hread : rest = read ++ close :: rest' := hread
      rw [hread]
      exact leads_pure.mpr ⟨rest', .present ht ⟨e, he, hvalue⟩ hclose, rfl⟩
    · intro x hx hopen
      refine ⟨rfl, fun index rest' hindex => ?_⟩
      obtain ⟨y, close, hclose, -, hrest⟩ := hfound hindex
      rw [hrest] at hopen
      exact hopen close rfl hclose
    · intro d hd
      refine ⟨rfl, fun index rest' hindex => ?_⟩
      obtain ⟨y, close, -, hvalue, -⟩ := hfound hindex
      rw [hd] at hvalue
      cases hvalue
  · exact leads_pure.mpr ⟨w.reading.rest, .absent hclosed, rfl⟩

theorem leads_readNumber [Reader I] [Writer O] {name : Token} : Leads (readNumber name) w
    (fun value w' => (Writer.flush w.reading.sink).1 = .ok () ∧
      ∃ input, Numeral w.reading.input value input ∧
        w' = { w with machine := { w.machine with input, sink := (Writer.flush w.reading.sink).2 } })
    (fun _ w' => w'.reading.store = w.reading.store ∧
      ((Writer.flush w.reading.sink).1 = .ok () →
        ∀ value input, ¬Numeral w.reading.input value input)) := by
  refine leads_bind.mpr (leads_flush (fun hflush => ?_) fun reason hflush => ?_)
  · refine leads_bind.mpr (leads_entry.mpr ?_)
    cases hentry : Input.entry w.machine.input with
    | mk entry input =>
      -- the number that is found is the only one that there can be
      have hfound : ∀ {value input'}, Numeral w.reading.input value input' → ∃ text,
          entry = .text text ∧ Word.isNumber text = true ∧ Number.read? text = some value := by
        rintro value input' ⟨text, htext, hnumber, hvalue⟩
        have htext : Input.entry w.machine.input = (.text text, input') := htext
        rw [hentry] at htext
        cases htext
        exact ⟨text, rfl, hnumber, hvalue⟩
      cases entry with
      | ended =>
        refine leads_fail.mpr ⟨rfl, fun _ value input' hnumeral => ?_⟩
        obtain ⟨text, htext, -⟩ := hfound hnumeral
        cases htext
      | failed reason =>
        refine leads_fail.mpr ⟨rfl, fun _ value input' hnumeral => ?_⟩
        obtain ⟨text, htext, -⟩ := hfound hnumeral
        cases htext
      | text entry =>
        simp only
        split
        · rename_i value hvalue
          have hread : Word.isNumber entry = true ∧ Number.read? entry = some value := by
            simpa using hvalue
          exact leads_pure.mpr ⟨hflush, input, ⟨entry, hentry, hread⟩, rfl⟩
        · rename_i hvalue
          refine leads_fail.mpr ⟨rfl, fun _ value input' hnumeral => ?_⟩
          obtain ⟨text, htext, hnumber, hread⟩ := hfound hnumeral
          cases htext
          rw [if_pos hnumber, hread] at hvalue
          cases hvalue
  · refine ⟨rfl, fun hok => ?_⟩
    have hok : (Writer.flush w.machine.sink).1 = .ok () := hok
    rw [hflush] at hok
    cases hok

theorem leads_store {name : Token} {index : Option Float} {value : Float} {span : Span} :
    Leads (store name index value span) w
      (fun _ w' => ∃ s, w.reading.store.deposit ⟨name.lexeme, index, value⟩ = .ok s ∧
        w'.reading = { w.reading with store := s })
      (fun _ w' => w'.reading.store = w.reading.store ∧
        ∃ e, w.reading.store.deposit ⟨name.lexeme, index, value⟩ = .error e) := by
  cases index with
  | none => exact ⟨_, rfl, rfl⟩
  | some index =>
    simp only [Leads, store, assign, Store.deposit, Work.reading]
    cases w.machine.store.assign name.lexeme index value with
    | ok s => exact ⟨s, rfl, rfl⟩
    | error e => exact ⟨rfl, e, rfl⟩

/-- A target is completed if it is there in full, and otherwise nothing is stored. -/
theorem leads_readTarget [Reader I] [Writer O] :
    Leads readTarget w (fun _ w' => ∃ d, w.reading.Takes d w'.reading)
    (fun _ w' => w'.reading.store = w.reading.store ∧ ∀ d r, ¬w.reading.Takes d r) := by
  refine leads_bind.mpr (leads_expect ?_ fun hnone => ⟨rfl, ?_⟩)
  · intro name rest hr hname
    have hname : name.kind = .identifier := by simpa [Token.isIdentifier] using hname
    have hr : w.reading.rest = name :: rest := hr
    refine leads_readNumber.bind ?_ ?_
    · rintro value w₁ ⟨hflush, input, hvalue, rfl⟩
      refine leads_index?.bind ?_ ?_
      · rintro index w₂ ⟨rest', hindex, hw₂⟩
        refine leads_bind.mpr (leads_here.mpr ?_)
        refine leads_store.mono ?_ ?_
        · rintro _ w₃ ⟨s, hs, hw₃⟩
          rw [hw₂] at hs hw₃
          rw [hw₃]
          exact ⟨_, .mk hr hname hflush hvalue hindex hs⟩
        · rintro d w₃ ⟨hstore, e, he⟩
          rw [hw₂] at hstore he
          refine ⟨hstore, fun d r htakes => ?_⟩
          obtain ⟨hr', -, -, hvalue', hindex', hs⟩ := htakes
          rw [hr] at hr'
          cases hr'
          obtain ⟨rfl, -⟩ := hvalue.unique hvalue'
          obtain ⟨rfl, -⟩ := hindex.unique hindex'
          have he : w.reading.store.deposit ⟨name.lexeme, index, value⟩ = .error e := he
          rw [he] at hs
          cases hs
      · rintro d w₂ ⟨hstore, hindex⟩
        refine ⟨hstore, fun d r htakes => ?_⟩
        obtain ⟨hr', -, -, -, hindex', -⟩ := htakes
        rw [hr] at hr'
        cases hr'
        exact hindex _ _ hindex'
    · rintro d w₁ ⟨hstore, hnumeral⟩
      refine ⟨hstore, fun d r htakes => ?_⟩
      obtain ⟨-, -, hflush, hvalue, -, -⟩ := htakes
      exact hnumeral hflush _ _ hvalue
  · rintro d r ⟨hr, hname, -, -, -, -⟩
    have hr : w.cursor.rest = _ := hr
    have hkind := hnone _ (by rw [hr]; rfl)
    simp [Token.isIdentifier, hname] at hkind

/-- Targets are filled as long as they are there in full and commas follow. -/
theorem leads_readTargets [Reader I] [Writer O] {fuel : Nat} (hfuel : w.cursor.rest.length < fuel) :
    Leads (separated readTarget fuel) w
      (fun _ w' => w.reading.Leaves w.reading.Filled w'.reading.store)
      (fun _ w' => w.reading.Leaves w.reading.Filled w'.reading.store) := by
  induction fuel generalizing w with
  | zero => exact absurd hfuel (Nat.not_lt_zero _)
  | succ fuel ih =>
    refine leads_readTarget.bind ?_ fun d w' ⟨hstore, hnone⟩ => ?_
    · rintro _ w' ⟨d, htakes⟩
      have hlt : w'.cursor.rest.length < w.cursor.rest.length := htakes.length_lt
      refine leads_bind.mpr (leads_skip ?_ fun hlast => ?_)
      · intro comma rest hr hcomma
        have hlength : rest.length < fuel := by
          rw [hr, List.length_cons] at hlt
          omega
        have hrest := ih (w := w'.ahead rest) hlength
        exact hrest.mono (fun _ _ hleaves => htakes.leaves_more hr hcomma hleaves)
          fun _ _ hleaves => htakes.leaves_more hr hcomma hleaves
      · exact leads_pure.mpr (htakes.leaves_one hlast)
    · rw [hstore]
      exact Reading.leaves_none hnone

theorem leads_prompt [Reader I] [Writer O] :
    Leads prompt w (fun _ w' => w.reading.Opens w'.reading)
    (fun _ w' => w'.reading.store = w.reading.store ∧ ∀ r, ¬w.reading.Opens r) := by
  refine leads_bind.mpr (leads_peek?.mpr ?_)
  cases hr : w.cursor.rest with
  | nil =>
    have hpeek : w.cursor.peek? = none := by simp [Cursor.peek?, hr]
    rw [hpeek]
    exact leads_pure.mpr (.bare (by simp [Work.reading, hr]))
  | cons t rest =>
    have hpeek : w.cursor.peek? = some t := by simp [Cursor.peek?, hr]
    rw [hpeek]
    simp only
    by_cases ht : t.isString = true
    · have hstring : t.kind = .string := by simpa [Token.isString] using ht
      have hr : w.reading.rest = t :: rest := hr
      -- the prompt has to be written and a comma to follow
      have hopens : ∀ r, w.reading.Opens r →
          (Writer.write w.reading.sink t.lexeme.toUTF8).1 = .ok () ∧
          ∃ comma rest', rest = comma :: rest' ∧ comma.kind = .punctuation .comma := by
        intro r hopens
        cases hopens with
        | bare hbare => exact absurd hstring (hbare t (by simp [hr]))
        | prompted hrest _ hwrite hcomma =>
          rw [hr] at hrest
          cases hrest
          exact ⟨hwrite, _, _, rfl, hcomma⟩
      rw [if_pos ht]
      refine leads_bind.mpr (leads_advance.mpr ?_)
      refine leads_bind.mpr (leads_write (fun hwrite => ?_) fun reason hwrite => ?_)
      · refine leads_bind.mpr (leads_expect (fun comma rest' hrest hcomma => ?_) fun hnone => ?_)
        · have hrest : w.reading.rest.tail = comma :: rest' := hrest
          rw [hr, List.tail_cons] at hrest
          rw [hrest] at hr
          have hcomma : comma.kind = .punctuation .comma := by
            simpa [Token.isPunctuation] using hcomma
          exact leads_pure.mpr (.prompted hr hstring hwrite hcomma)
        · refine ⟨rfl, fun r hr' => ?_⟩
          obtain ⟨-, comma, rest', hrest, hcomma⟩ := hopens r hr'
          have hhead : comma ∈ (w.reading.rest.tail).head? := by
            rw [hr, hrest]
            rfl
          have hkind := hnone comma hhead
          simp [Token.isPunctuation, hcomma] at hkind
      · refine ⟨rfl, fun r hr' => ?_⟩
        have hok : (Writer.write w.machine.sink t.lexeme.toUTF8).1 = .ok () := (hopens r hr').1
        have hwrite : (Writer.write w.machine.sink t.lexeme.toUTF8).1 = .error reason := hwrite
        rw [hwrite] at hok
        cases hok
    · rw [if_neg ht]
      exact leads_pure.mpr (.bare (by simpa [Work.reading, hr, Token.isString] using ht))

/-- A `read` stores what its targets take up to the first that is not there in full, and keeps it. -/
theorem leads_read [Reader I] [Writer O] :
    Leads read w (fun _ w' => w.reading.Leaves w.reading.Completed w'.reading.store)
    (fun _ w' => w.reading.Leaves w.reading.Completed w'.reading.store) := by
  refine leads_prompt.bind (fun _ w₁ hopens => ?_) fun d w' ⟨hstore, hnone⟩ => ?_
  · refine leads_bind.mpr (leads_get.mpr ?_)
    rw [readTargets_eq]
    have htargets := leads_readTargets (w := w₁) (Nat.lt_succ_self w₁.cursor.rest.length)
    refine htargets.bind (fun _ w₂ hleaves => ?_) fun d w₂ hleaves => hopens.leaves hleaves
    have hkept : ∀ w₃ : Work I O, w₃.machine = w₂.machine →
        w.reading.Leaves w.reading.Completed w₃.reading.store := by
      intro w₃ hw₃
      have hstore : w₃.reading.store = w₂.reading.store := congrArg Machine.store hw₃
      rw [hstore]
      exact hopens.leaves hleaves
    have hfinish := leads_parse (w := w₂) (Parse.finish (.trailing .read))
    exact hfinish.bind (fun _ w₃ hw₃ => leads_pure.mpr (hkept w₃ hw₃)) fun _ w₃ hw₃ => hkept w₃ hw₃
  · rw [hstore]
    exact Reading.leaves_unopened hnone

end Action

end Primer
