import Primer.Proofs.Statement.Grammar

/-!
# The syntax of statements

What a sentence says, apart from its words and marks: the targets, trees, labels and texts in it.  A sentence of
the grammar spells a command, and what statements do is said of commands.

* `Target`, `Item`, `Command`: what can be assigned to, what can be printed, and whole statements.
* `Target.SpelledBy`, `Item.SpelledBy`, `Command.SpelledBy`: the tokens that spell them.
* `Listed D as read`: the tokens `read` spell the list `as`, with commas between its members.
* `mem_form_iff`: the sentences of a kind are the tokens that spell a command of that kind.
-/

namespace Primer

open Expression
open scoped Computability

/-- What can be assigned to: a name, perhaps with an index. -/
structure Target where
  name : String
  index : Option Tree

/-- What can be printed: a text as it stands, or the value of an expression. -/
inductive Item where
  | text (text : String)
  | value (e : Tree)

/-- What a statement says. -/
inductive Command where
  | assign (target : Target) (value : Tree)
  | branch (condition : Tree) (label : String)
  | goto (label : String)
  | dim (name : String) (size : Tree)
  | print (items : List Item)
  | read (prompt : Option String) (targets : List Target)
  | stop
  | end

def Command.kind : Command → StatementKind
  | .assign .. => .assignment
  | .branch .. => .if
  | .goto _ => .goto
  | .dim .. => .dim
  | .print _ => .print
  | .read .. => .read
  | .stop => .stop
  | .end => .end

/-! ### Spelling -/

/-- `name` or `name[expr]` -/
inductive Target.SpelledBy : Target → List Token → Prop
  | scalar {name : Token} (hname : name.kind = .identifier) : SpelledBy ⟨name.lexeme, none⟩ [name]
  | element {name opening closing : Token} {read : List Token} {index : Tree}
    (hname : name.kind = .identifier) (hopening : opening.kind = .punctuation .leftBracket)
    (hindex : Derives .comparison read index) (hclosing : closing.kind = .punctuation .rightBracket) :
    SpelledBy ⟨name.lexeme, some index⟩ (name :: opening :: (read ++ [closing]))

/-- A string, or an expression. -/
inductive Item.SpelledBy : Item → List Token → Prop
  | text {t : Token} (ht : t.kind = .string) : SpelledBy (.text t.lexeme) [t]
  | value {read : List Token} {e : Tree} (he : Derives .comparison read e) : SpelledBy (.value e) read

/-- One or more members, with commas between them. -/
inductive Listed {α : Type} (D : α → List Token → Prop) : List α → List Token → Prop
  | one {a : α} {read : List Token} (h : D a read) : Listed D [a] read
  | more {a : α} {as : List α} {read rest : List Token} {comma : Token} (h : D a read)
    (hcomma : comma.kind = .punctuation .comma) (hrest : Listed D as rest) :
    Listed D (a :: as) (read ++ comma :: rest)

theorem Listed.length_le {α : Type} {D : α → List Token → Prop} (hD : ∀ {a read}, D a read → read ≠ [])
    {as : List α} {read : List Token} (h : Listed D as read) : as.length ≤ read.length := by
  induction h with
  | one h => exact List.length_pos_of_ne_nil (hD h)
  | more h _ _ ih =>
    simp only [List.length_cons, List.length_append]
    omega

/-- Nothing, or a string with a comma behind it. -/
inductive Prompted : Option String → List Token → Prop
  | none : Prompted none []
  | some {t comma : Token} (ht : t.kind = .string) (hcomma : comma.kind = .punctuation .comma) :
    Prompted (some t.lexeme) [t, comma]

/-- The tokens that spell a command. -/
inductive Command.SpelledBy : Command → List Token → Prop
  | assign {target : Target} {value : Tree} {place read : List Token} {equal semicolon : Token}
    (htarget : target.SpelledBy place) (hequal : equal.kind = .punctuation .equal)
    (hvalue : Derives .comparison read value) (hsemicolon : semicolon.kind = .punctuation .semicolon) :
    SpelledBy (.assign target value) (place ++ equal :: (read ++ [semicolon]))
  | branch {condition : Tree} {read : List Token} {word opening closing goto label semicolon : Token}
    (hword : word.kind = .keyword .if) (hopening : opening.kind = .punctuation .leftParen)
    (hcondition : Derives .comparison read condition) (hclosing : closing.kind = .punctuation .rightParen)
    (hgoto : goto.kind = .keyword .goto) (hlabel : label.kind = .identifier)
    (hsemicolon : semicolon.kind = .punctuation .semicolon) :
    SpelledBy (.branch condition label.lexeme)
      (word :: opening :: (read ++ closing :: goto :: label :: [semicolon]))
  | goto {word label semicolon : Token} (hword : word.kind = .keyword .goto)
    (hlabel : label.kind = .identifier) (hsemicolon : semicolon.kind = .punctuation .semicolon) :
    SpelledBy (.goto label.lexeme) [word, label, semicolon]
  | dim {size : Tree} {read : List Token} {word name opening closing semicolon : Token}
    (hword : word.kind = .keyword .dim) (hname : name.kind = .identifier)
    (hopening : opening.kind = .punctuation .leftBracket) (hsize : Derives .comparison read size)
    (hclosing : closing.kind = .punctuation .rightBracket)
    (hsemicolon : semicolon.kind = .punctuation .semicolon) :
    SpelledBy (.dim name.lexeme size) (word :: name :: opening :: (read ++ closing :: [semicolon]))
  | print {items : List Item} {read : List Token} {word semicolon : Token}
    (hword : word.kind = .keyword .print) (hitems : Listed Item.SpelledBy items read)
    (hsemicolon : semicolon.kind = .punctuation .semicolon) :
    SpelledBy (.print items) (word :: (read ++ [semicolon]))
  | read {prompt : Option String} {targets : List Target} {lead read : List Token} {word semicolon : Token}
    (hword : word.kind = .keyword .read) (hprompt : Prompted prompt lead)
    (htargets : Listed Target.SpelledBy targets read)
    (hsemicolon : semicolon.kind = .punctuation .semicolon) :
    SpelledBy (.read prompt targets) (word :: (lead ++ (read ++ [semicolon])))
  | stop {word semicolon : Token} (hword : word.kind = .keyword .stop)
    (hsemicolon : semicolon.kind = .punctuation .semicolon) : SpelledBy .stop [word, semicolon]
  | end {word semicolon : Token} (hword : word.kind = .keyword .end)
    (hsemicolon : semicolon.kind = .punctuation .semicolon) : SpelledBy .end [word, semicolon]

/-! ### Sentences -/

namespace Form

theorem mem_target_iff {read : List Token} :
    read ∈ target ↔ ∃ t : Target, t.SpelledBy read := by
  constructor
  · intro h
    obtain ⟨name, rest, hname, hrest, rfl⟩ := mem_token_mul.mp h
    rcases hrest with hnil | hindex
    · obtain rfl := (Language.mem_one _).mp hnil
      exact ⟨_, .scalar hname⟩
    · obtain ⟨opening, is, closing, hopening, ⟨e, he⟩, hclosing, rfl⟩ := mem_index.mp hindex
      exact ⟨_, .element hname hopening he hclosing⟩
  · rintro ⟨t, h⟩
    cases h with
    | scalar hname => exact mem_token_mul.mpr ⟨_, [], hname, .inl rfl, rfl⟩
    | element hname hopening hindex hclosing =>
      refine mem_token_mul.mpr ⟨_, _, hname, .inr ?_, rfl⟩
      exact mem_index.mpr ⟨_, _, _, hopening, ⟨_, hindex⟩, hclosing, rfl⟩

theorem mem_item_iff {read : List Token} : read ∈ item ↔ ∃ i : Item, i.SpelledBy read := by
  constructor
  · rintro (⟨t, ht, rfl⟩ | ⟨e, he⟩)
    · exact ⟨_, .text ht⟩
    · exact ⟨_, .value he⟩
  · rintro ⟨i, h⟩
    cases h with
    | text ht => exact .inl ⟨_, ht, rfl⟩
    | value he => exact .inr ⟨_, he⟩

theorem mem_list_iff {α : Type} {L : Language Token} {D : α → List Token → Prop}
    (hL : ∀ {read}, read ∈ L ↔ ∃ a, D a read) {read : List Token} :
    read ∈ list L ↔ ∃ as, Listed D as read := by
  constructor
  · intro h
    obtain ⟨first, hfirst, _, hmore, rfl⟩ := Language.mem_mul.mp h
    obtain ⟨pieces, rfl, hpieces⟩ := Language.mem_kstar.mp hmore
    clear h hmore
    induction pieces generalizing first with
    | nil =>
      obtain ⟨a, ha⟩ := hL.mp hfirst
      exact ⟨[a], by simpa using Listed.one ha⟩
    | cons piece pieces ih =>
      obtain ⟨comma, second, hcomma, hsecond, rfl⟩ := mem_token_mul.mp (hpieces piece List.mem_cons_self)
      obtain ⟨a, ha⟩ := hL.mp hfirst
      obtain ⟨as, has⟩ := ih second hsecond fun p hp => hpieces p (List.mem_cons_of_mem _ hp)
      exact ⟨a :: as, by simpa using Listed.more ha hcomma has⟩
  · rintro ⟨as, h⟩
    induction h with
    | one h =>
      rw [list_eq]
      exact Language.mem_mul.mpr ⟨_, hL.mpr ⟨_, h⟩, [], .inl rfl, by simp⟩
    | more h hcomma _ ih =>
      rw [list_eq]
      refine Language.mem_mul.mpr ⟨_, hL.mpr ⟨_, h⟩, _, .inr ?_, rfl⟩
      exact mem_token_mul.mpr ⟨_, _, hcomma, ih, rfl⟩

theorem mem_prompt_iff {read : List Token} :
    read ∈ 1 + string * mark .comma ↔ ∃ prompt, Prompted prompt read := by
  constructor
  · rintro (hnil | hprompt)
    · obtain rfl := (Language.mem_one _).mp hnil
      exact ⟨_, .none⟩
    · obtain ⟨t, _, ht, ⟨comma, hcomma, rfl⟩, rfl⟩ := mem_token_mul.mp hprompt
      exact ⟨_, .some ht hcomma⟩
  · rintro ⟨prompt, h⟩
    cases h with
    | none => exact .inl rfl
    | some ht hcomma => exact .inr (mem_token_mul.mpr ⟨_, _, ht, ⟨_, hcomma, rfl⟩, rfl⟩)

end Form

open Form

theorem exists_spelledBy_of_mem_form {kind : StatementKind} {tokens : List Token}
    (h : tokens ∈ kind.form) : ∃ c : Command, c.kind = kind ∧ c.SpelledBy tokens := by
  cases kind with
  | assignment =>
    simp only [StatementKind.form, mul_assoc] at h
    obtain ⟨place, hplace, _, h₁, rfl⟩ := Language.mem_mul.mp h
    obtain ⟨equal, _, hequal, h₂, rfl⟩ := mem_token_mul.mp h₁
    obtain ⟨read, ⟨e, he⟩, _, ⟨semicolon, hsemicolon, rfl⟩, rfl⟩ := Language.mem_mul.mp h₂
    obtain ⟨target, htarget⟩ := mem_target_iff.mp hplace
    exact ⟨_, rfl, .assign htarget hequal he hsemicolon⟩
  | «if» =>
    simp only [StatementKind.form, mul_assoc] at h
    obtain ⟨word, _, hword, h₁, rfl⟩ := mem_token_mul.mp h
    obtain ⟨opening, _, hopening, h₂, rfl⟩ := mem_token_mul.mp h₁
    obtain ⟨read, ⟨e, he⟩, _, h₃, rfl⟩ := Language.mem_mul.mp h₂
    obtain ⟨closing, _, hclosing, h₄, rfl⟩ := mem_token_mul.mp h₃
    obtain ⟨goto, _, hgoto, h₅, rfl⟩ := mem_token_mul.mp h₄
    obtain ⟨label, _, hlabel, ⟨semicolon, hsemicolon, rfl⟩, rfl⟩ := mem_token_mul.mp h₅
    exact ⟨_, rfl, .branch hword hopening he hclosing hgoto hlabel hsemicolon⟩
  | goto =>
    simp only [StatementKind.form, mul_assoc] at h
    obtain ⟨word, _, hword, h₁, rfl⟩ := mem_token_mul.mp h
    obtain ⟨label, _, hlabel, ⟨semicolon, hsemicolon, rfl⟩, rfl⟩ := mem_token_mul.mp h₁
    exact ⟨_, rfl, .goto hword hlabel hsemicolon⟩
  | dim =>
    simp only [StatementKind.form, mul_assoc] at h
    obtain ⟨word, _, hword, h₁, rfl⟩ := mem_token_mul.mp h
    obtain ⟨name, _, hname, h₂, rfl⟩ := mem_token_mul.mp h₁
    obtain ⟨_, hindex, _, ⟨semicolon, hsemicolon, rfl⟩, rfl⟩ := Language.mem_mul.mp h₂
    obtain ⟨opening, read, closing, hopening, ⟨e, he⟩, hclosing, rfl⟩ := mem_index.mp hindex
    refine ⟨.dim name.lexeme e, rfl, ?_⟩
    simpa using Command.SpelledBy.dim hword hname hopening he hclosing hsemicolon
  | print =>
    simp only [StatementKind.form, mul_assoc] at h
    obtain ⟨word, _, hword, h₁, rfl⟩ := mem_token_mul.mp h
    obtain ⟨read, hitems, _, ⟨semicolon, hsemicolon, rfl⟩, rfl⟩ := Language.mem_mul.mp h₁
    obtain ⟨items, hitems⟩ := (mem_list_iff mem_item_iff).mp hitems
    exact ⟨_, rfl, .print hword hitems hsemicolon⟩
  | read =>
    simp only [StatementKind.form, mul_assoc] at h
    obtain ⟨word, _, hword, h₁, rfl⟩ := mem_token_mul.mp h
    obtain ⟨lead, hprompt, _, h₂, rfl⟩ := Language.mem_mul.mp h₁
    obtain ⟨read, htargets, _, ⟨semicolon, hsemicolon, rfl⟩, rfl⟩ := Language.mem_mul.mp h₂
    obtain ⟨prompt, hprompt⟩ := mem_prompt_iff.mp hprompt
    obtain ⟨targets, htargets⟩ := (mem_list_iff mem_target_iff).mp htargets
    exact ⟨_, rfl, .read hword hprompt htargets hsemicolon⟩
  | stop =>
    obtain ⟨word, _, hword, ⟨semicolon, hsemicolon, rfl⟩, rfl⟩ := mem_token_mul.mp h
    exact ⟨_, rfl, .stop hword hsemicolon⟩
  | «end» =>
    obtain ⟨word, _, hword, ⟨semicolon, hsemicolon, rfl⟩, rfl⟩ := mem_token_mul.mp h
    exact ⟨_, rfl, .end hword hsemicolon⟩

theorem Command.SpelledBy.mem_form {c : Command} {tokens : List Token} (h : c.SpelledBy tokens) :
    tokens ∈ c.kind.form := by
  have hlast : ∀ {t : Token}, t.kind = .punctuation .semicolon → [t] ∈ mark .semicolon :=
    fun ht => ⟨_, ht, rfl⟩
  cases h with
  | assign htarget hequal hvalue hsemicolon =>
    simp only [Command.kind, StatementKind.form, mul_assoc]
    refine Language.mem_mul.mpr ⟨_, mem_target_iff.mpr ⟨_, htarget⟩, _, ?_, rfl⟩
    refine mem_token_mul.mpr ⟨_, _, hequal, ?_, rfl⟩
    exact Language.mem_mul.mpr ⟨_, ⟨_, hvalue⟩, _, hlast hsemicolon, rfl⟩
  | branch hword hopening hcondition hclosing hgoto hlabel hsemicolon =>
    simp only [Command.kind, StatementKind.form, mul_assoc]
    refine mem_token_mul.mpr ⟨_, _, hword, mem_token_mul.mpr ⟨_, _, hopening, ?_, rfl⟩, rfl⟩
    refine Language.mem_mul.mpr ⟨_, ⟨_, hcondition⟩, _, mem_token_mul.mpr ⟨_, _, hclosing, ?_, rfl⟩, rfl⟩
    refine mem_token_mul.mpr ⟨_, _, hgoto, mem_token_mul.mpr ⟨_, _, hlabel, hlast hsemicolon, rfl⟩, rfl⟩
  | goto hword hlabel hsemicolon =>
    simp only [Command.kind, StatementKind.form, mul_assoc]
    exact mem_token_mul.mpr ⟨_, _, hword, mem_token_mul.mpr ⟨_, _, hlabel, hlast hsemicolon, rfl⟩, rfl⟩
  | dim hword hname hopening hsize hclosing hsemicolon =>
    simp only [Command.kind, StatementKind.form, mul_assoc]
    refine mem_token_mul.mpr ⟨_, _, hword, mem_token_mul.mpr ⟨_, _, hname, ?_, rfl⟩, rfl⟩
    refine Language.mem_mul.mpr ⟨_, mem_index.mpr ⟨_, _, _, hopening, ⟨_, hsize⟩, hclosing, rfl⟩, _,
      hlast hsemicolon, by simp⟩
  | print hword hitems hsemicolon =>
    simp only [Command.kind, StatementKind.form, mul_assoc]
    refine mem_token_mul.mpr ⟨_, _, hword, Language.mem_mul.mpr ⟨_, ?_, _, hlast hsemicolon, rfl⟩, rfl⟩
    exact (mem_list_iff mem_item_iff).mpr ⟨_, hitems⟩
  | read hword hprompt htargets hsemicolon =>
    simp only [Command.kind, StatementKind.form, mul_assoc]
    refine mem_token_mul.mpr ⟨_, _, hword, ?_, rfl⟩
    refine Language.mem_mul.mpr ⟨_, mem_prompt_iff.mpr ⟨_, hprompt⟩, _, ?_, rfl⟩
    refine Language.mem_mul.mpr ⟨_, (mem_list_iff mem_target_iff).mpr ⟨_, htargets⟩, _, ?_, rfl⟩
    exact hlast hsemicolon
  | stop hword hsemicolon => exact mem_token_mul.mpr ⟨_, _, hword, hlast hsemicolon, rfl⟩
  | «end» hword hsemicolon => exact mem_token_mul.mpr ⟨_, _, hword, hlast hsemicolon, rfl⟩

/-- The sentences of a kind are the tokens that spell a command of that kind. -/
theorem mem_form_iff {kind : StatementKind} {tokens : List Token} :
    tokens ∈ kind.form ↔ ∃ c : Command, c.kind = kind ∧ c.SpelledBy tokens := by
  refine ⟨exists_spelledBy_of_mem_form, ?_⟩
  rintro ⟨c, rfl, h⟩
  exact h.mem_form

end Primer
