import Primer.Expression

/-!
# The grammar of expressions

Five strata, loosest first: comparisons, sums, products, signed values and primary values.  The first
three are left-associative, a value has at most one sign, and a primary value is a number, a scalar,
an array element with an index of the loosest stratum, or a comparison in parentheses.

* `Derives k read e`: the tokens `read` derive stratum `k` with the syntax tree `e`.
* `Tree.value? s e`: the value of a tree over the store `s`; there is none if a name in it has none.
* `Evaluates s k read x`: `read` derives stratum `k` with a tree of value `x`.
-/

namespace Primer

theorem BinaryOp.precedence_le_four (op : BinaryOp) : op.precedence ≤ 4 := by cases op <;> decide

namespace Expression

/-! ### Strata -/

/-- The levels of the grammar, loosest first. -/
inductive Stratum where
  | comparison
  | sum
  | product
  | signed
  | primary
  deriving DecidableEq

namespace Stratum

/-- How tightly a stratum binds, on the scale of the precedences. -/
def rank : Stratum → Nat
  | .comparison => 2
  | .sum => 3
  | .product => 4
  | .signed => 5
  | .primary => 6

/-- The stratum of the right operands, and of all that a stratum takes over unchanged. -/
def tighter : Stratum → Stratum
  | .comparison => .sum
  | .sum => .product
  | .product => .signed
  | .signed => .primary
  | .primary => .primary

/-- The operation that a sign stands for between the operands of a stratum. -/
def operation? : Stratum → Operator → Option BinaryOp
  | .comparison, .equalEqual => some .equal
  | .comparison, .bangEqual => some .notEqual
  | .comparison, .less => some .less
  | .comparison, .lessEqual => some .lessEqual
  | .comparison, .greater => some .greater
  | .comparison, .greaterEqual => some .greaterEqual
  | .sum, .plus => some .add
  | .sum, .minus => some .subtract
  | .product, .star => some .multiply
  | .product, .slash => some .divide
  | _, _ => none

theorem two_le_rank (k : Stratum) : 2 ≤ k.rank := by cases k <;> decide

theorem rank_le_tighter (k : Stratum) : k.rank ≤ k.tighter.rank := by cases k <;> decide

theorem rank_le_six (k : Stratum) : k.rank ≤ 6 := by cases k <;> decide

theorem rank_injective {k k' : Stratum} (h : k.rank = k'.rank) : k = k' := by
  revert h
  cases k <;> cases k' <;> decide

theorem rank_lt_tighter {k : Stratum} (h : k.rank ≤ 5) : k.rank < k.tighter.rank := by
  cases k with
  | primary => exact absurd h (by decide)
  | _ => decide

theorem rank_tighter_le {k k' : Stratum} (h : k.rank < k'.rank) : k.tighter.rank ≤ k'.rank := by
  revert h
  cases k <;> cases k' <;> decide

/-- A sign is an operation of the one stratum whose rank is its precedence. -/
theorem operation?_eq_some {k : Stratum} {sign : Operator} {op : BinaryOp} :
    k.operation? sign = some op ↔ BinaryOp.ofOperator? sign = some op ∧ op.precedence = k.rank := by
  cases k <;> cases sign <;> cases op <;> decide

/-- Every operation belongs to a stratum. -/
theorem exists_rank_eq (op : BinaryOp) : ∃ k : Stratum, op.precedence = k.rank := by
  cases op with
  | add | subtract => exact ⟨.sum, rfl⟩
  | multiply | divide => exact ⟨.product, rfl⟩
  | _ => exact ⟨.comparison, rfl⟩

end Stratum


/-! ### Trees -/

/-- The syntax tree of an expression; parentheses leave no trace in it. -/
inductive Tree where
  | number (value : Float)
  | scalar (name : String)
  | element (name : String) (index : Tree)
  | unary (op : UnaryOp) (operand : Tree)
  | binary (op : BinaryOp) (left right : Tree)

/-- The value of a tree.  A scalar has to be assigned, and an element has to lie in a declared array,
at an index that the array accepts, and to be assigned. -/
def Tree.value? (s : Store) : Tree → Option Float
  | .number value => some value
  | .scalar name => s.get? name
  | .element name index =>
    match index.value? s with
    | none => none
    | some i =>
      match s.element? name i with
      | .ok value => value
      | .error _ => none
  | .unary op operand => (operand.value? s).map op.apply
  | .binary op left right =>
    match left.value? s, right.value? s with
    | some x, some y => some (op.apply x y)
    | _, _ => none

/-- The grammar: the tokens of each stratum with their trees. -/
inductive Derives : Stratum → List Token → Tree → Prop
  | number {t : Token} {value : Float} (ht : t.kind = .number value) :
    Derives .primary [t] (.number value)
  | scalar {t : Token} (ht : t.kind = .identifier) : Derives .primary [t] (.scalar t.lexeme)
  | element {t b e : Token} {is : List Token} {i : Tree} (ht : t.kind = .identifier)
    (hb : b.kind = .punctuation .leftBracket) (hi : Derives .comparison is i)
    (he : e.kind = .punctuation .rightBracket) :
    Derives .primary (t :: b :: (is ++ [e])) (.element t.lexeme i)
  | paren {b e : Token} {is : List Token} {i : Tree} (hb : b.kind = .punctuation .leftParen)
    (hi : Derives .comparison is i) (he : e.kind = .punctuation .rightParen) :
    Derives .primary (b :: (is ++ [e])) i
  | sign {t : Token} {sign : Operator} {op : UnaryOp} {ps : List Token} {p : Tree}
    (ht : t.kind = .operator sign) (hop : UnaryOp.ofOperator? sign = some op)
    (hp : Derives .primary ps p) : Derives .signed (t :: ps) (.unary op p)
  | binary {k : Stratum} {t : Token} {sign : Operator} {op : BinaryOp} {ls rs : List Token}
    {l r : Tree} (hl : Derives k ls l) (ht : t.kind = .operator sign)
    (hop : k.operation? sign = some op) (hr : Derives k.tighter rs r) :
    Derives k (ls ++ t :: rs) (.binary op l r)
  | lift {k : Stratum} {ts : List Token} {e : Tree} (h : Derives k.tighter ts e) : Derives k ts e

/-- Every stratum contains the tighter ones. -/
theorem Derives.mono {k k' : Stratum} {ts : List Token} {e : Tree} (h : Derives k ts e)
    (hk : k'.rank ≤ k.rank) : Derives k' ts e := by
  rcases Nat.lt_or_eq_of_le hk with hlt | heq
  · exact .lift (h.mono (Stratum.rank_tighter_le hlt))
  · rw [Stratum.rank_injective heq]
    exact h
termination_by k.rank - k'.rank
decreasing_by
  have := Stratum.rank_lt_tighter (k := k') (by have := k.rank_le_six; omega)
  omega

/-- No expression is empty. -/
theorem Derives.ne_nil {k : Stratum} {ts : List Token} {e : Tree} (h : Derives k ts e) :
    ts ≠ [] := by
  induction h with
  | lift _ ih => exact ih
  | _ => simp

/-- What can stand in an expression: no strings, keywords, commas, semicolons and equals signs. -/
def isElement : Token.Kind → Bool
  | .number _ | .identifier | .operator _ => true
  | .punctuation .leftParen | .punctuation .rightParen => true
  | .punctuation .leftBracket | .punctuation .rightBracket => true
  | .string | .keyword _ | .punctuation _ => false

theorem Derives.isElement {k : Stratum} {ts : List Token} {e : Tree} (h : Derives k ts e) :
    ∀ t ∈ ts, isElement t.kind = true := by
  induction h with
  | number ht => simp [Expression.isElement, ht]
  | scalar ht => simp [Expression.isElement, ht]
  | element ht hb hi he ih =>
    intro t hmem
    simp only [List.mem_cons, List.mem_append, List.not_mem_nil, or_false] at hmem
    rcases hmem with rfl | rfl | hmem | rfl
    · simp [Expression.isElement, ht]
    · simp [Expression.isElement, hb]
    · exact ih t hmem
    · simp [Expression.isElement, he]
  | paren hb hi he ih =>
    intro t hmem
    simp only [List.mem_cons, List.mem_append, List.not_mem_nil, or_false] at hmem
    rcases hmem with rfl | hmem | rfl
    · simp [Expression.isElement, hb]
    · exact ih t hmem
    · simp [Expression.isElement, he]
  | sign ht hop hp ih =>
    intro t hmem
    rcases List.mem_cons.mp hmem with rfl | hmem
    · simp [Expression.isElement, ht]
    · exact ih t hmem
  | binary hl ht hop hr ihl ihr =>
    intro t hmem
    rcases List.mem_append.mp hmem with hmem | hmem
    · exact ihl t hmem
    rcases List.mem_cons.mp hmem with rfl | hmem
    · simp [Expression.isElement, ht]
    · exact ihr t hmem
  | lift _ ih => exact ih

/-! ### Values of token lists -/

/-- The tokens `read` derive stratum `k`, every name in them has a value, and theirs is `x`. -/
def Evaluates (s : Store) (k : Stratum) (read : List Token) (x : Float) : Prop :=
  ∃ e, Derives k read e ∧ e.value? s = some x

namespace Evaluates

variable {s : Store}

theorem mono {k k' : Stratum} {read : List Token} {x : Float} (h : Evaluates s k read x)
    (hk : k'.rank ≤ k.rank) : Evaluates s k' read x := by
  obtain ⟨e, he, hx⟩ := h
  exact ⟨e, he.mono hk, hx⟩

theorem sign {t : Token} {sign : Operator} {op : UnaryOp} {ps : List Token} {x : Float}
    (ht : t.kind = .operator sign) (hop : UnaryOp.ofOperator? sign = some op)
    (hp : Evaluates s .primary ps x) : Evaluates s .signed (t :: ps) (op.apply x) := by
  obtain ⟨e, he, hx⟩ := hp
  exact ⟨_, .sign ht hop he, by simp [Tree.value?, hx]⟩

theorem binary {k : Stratum} {t : Token} {sign : Operator} {op : BinaryOp} {ls rs : List Token}
    {x y : Float} (hl : Evaluates s k ls x) (ht : t.kind = .operator sign)
    (hop : k.operation? sign = some op) (hr : Evaluates s k.tighter rs y) :
    Evaluates s k (ls ++ t :: rs) (op.apply x y) := by
  obtain ⟨l, hl, hx⟩ := hl
  obtain ⟨r, hr, hy⟩ := hr
  exact ⟨_, .binary hl ht hop hr, by simp [Tree.value?, hx, hy]⟩

theorem paren {b e : Token} {is : List Token} {x : Float}
    (hb : b.kind = .punctuation .leftParen) (hi : Evaluates s .comparison is x)
    (he : e.kind = .punctuation .rightParen) : Evaluates s .primary (b :: (is ++ [e])) x := by
  obtain ⟨i, hi, hx⟩ := hi
  exact ⟨i, .paren hb hi he, hx⟩

end Evaluates

end Expression
end Primer
