import Primer.Word

/-!
# Places in a text

* `Boundary cs n`: the byte position `n` falls between two characters of `cs`, or at an end.
* `StandsAt cs n piece`: the characters `piece` stand at the byte position `n` of `cs`.
-/

namespace Primer.Text

theorem byteLength_pos {cs : List Char} (h : cs ≠ []) : 0 < byteLength cs := by
  obtain ⟨c, cs, rfl⟩ := List.exists_cons_of_ne_nil h
  have hc := Char.utf8Size_pos c
  rw [byteLength_cons]
  omega

theorem byteLength_eq_zero {cs : List Char} (h : byteLength cs = 0) : cs = [] := by
  cases cs with
  | nil => rfl
  | cons c cs =>
    have hpos := byteLength_pos (List.cons_ne_nil c cs)
    omega

/-- A text is cut at a byte position in one way at most. -/
theorem append_inj_of_byteLength {a b c d : List Char} (h : a ++ b = c ++ d)
    (hlength : byteLength a = byteLength c) : a = c ∧ b = d := by
  rcases List.append_eq_append_iff.mp h with ⟨e, rfl, rfl⟩ | ⟨e, rfl, rfl⟩
  all_goals
    rw [byteLength_append] at hlength
    obtain rfl : e = [] := byteLength_eq_zero (by omega)
    simp

/-- Where every character has one byte, every position is a cut. -/
theorem exists_append_of_ascii {cs : List Char} (h : ∀ c ∈ cs, c.utf8Size = 1) {n : Nat}
    (hn : n ≤ byteLength cs) : ∃ a b, cs = a ++ b ∧ byteLength a = n := by
  induction cs generalizing n with
  | nil => exact ⟨[], [], rfl, by simp at hn; simp [hn]⟩
  | cons c cs ih =>
    obtain ⟨hc, hcs⟩ := List.forall_mem_cons.mp h
    rw [byteLength_cons, hc] at hn
    cases n with
    | zero => exact ⟨[], c :: cs, rfl, rfl⟩
    | succ n =>
      have hle : n ≤ byteLength cs := by omega
      obtain ⟨a, b, rfl, ha⟩ := ih hcs hle
      exact ⟨c :: a, b, rfl, by rw [byteLength_cons, hc, ha]; omega⟩

/-- The byte position `n` is a character boundary of `cs`. -/
def Boundary (cs : List Char) (n : Nat) : Prop := ∃ pre post, cs = pre ++ post ∧ byteLength pre = n

/-- The characters `piece` stand at the byte position `n` of `cs`. -/
def StandsAt (cs : List Char) (n : Nat) (piece : List Char) : Prop :=
  ∃ pre post, cs = pre ++ (piece ++ post) ∧ byteLength pre = n

namespace Boundary

variable {cs pre post : List Char} {n : Nat}

theorem zero (cs : List Char) : Boundary cs 0 := ⟨[], cs, rfl, rfl⟩

theorem length (cs : List Char) : Boundary cs (byteLength cs) := ⟨cs, [], by simp, rfl⟩

theorem le (h : Boundary cs n) : n ≤ byteLength cs := by
  obtain ⟨pre, post, rfl, rfl⟩ := h
  rw [byteLength_append]
  omega

end Boundary

namespace StandsAt

variable {cs piece : List Char} {n : Nat}

theorem le (h : StandsAt cs n piece) : n + byteLength piece ≤ byteLength cs := by
  obtain ⟨pre, post, rfl, rfl⟩ := h
  simp only [byteLength_append]
  omega

/-- Pieces that stand one behind the other are one piece. -/
theorem append {more : List Char} (h : StandsAt cs n piece)
    (hmore : StandsAt cs (n + byteLength piece) more) : StandsAt cs n (piece ++ more) := by
  obtain ⟨pre, post, hcs, rfl⟩ := h
  obtain ⟨pre', post', hcs', hpre'⟩ := hmore
  rw [← List.append_assoc] at hcs
  obtain ⟨-, rfl⟩ := append_inj_of_byteLength (hcs.symm.trans hcs') (by rw [hpre', byteLength_append])
  exact ⟨pre, post', by rw [hcs]; simp, rfl⟩

/-- A boundary of the piece is one of the text that it stands in. -/
theorem boundary (h : StandsAt cs n piece) {k : Nat} (hk : Boundary piece k) :
    Boundary cs (n + k) := by
  obtain ⟨pre, post, rfl, rfl⟩ := h
  obtain ⟨a, b, rfl, rfl⟩ := hk
  exact ⟨pre ++ a, b ++ post, by simp, by simp⟩

/-- And no other position within it is. -/
theorem boundary_iff (h : StandsAt cs n piece) {k : Nat} (hk : k ≤ byteLength piece) :
    Boundary cs (n + k) ↔ Boundary piece k := by
  refine ⟨fun hb => ?_, h.boundary⟩
  obtain ⟨pre, post, rfl, rfl⟩ := h
  obtain ⟨a, b, hab, ha⟩ := hb
  rcases List.append_eq_append_iff.mp hab with ⟨c, rfl, hc⟩ | ⟨c, rfl, hc⟩
  · -- the cut lies behind the start of the piece
    rw [byteLength_append] at ha
    rcases List.append_eq_append_iff.mp hc with ⟨d, rfl, -⟩ | ⟨d, rfl, -⟩
    · rw [byteLength_append] at ha
      have hk' : k = byteLength piece := by omega
      exact hk' ▸ Boundary.length piece
    · exact ⟨c, d, rfl, by omega⟩
  · rw [byteLength_append] at ha
    have hk' : k = 0 := by omega
    exact hk' ▸ Boundary.zero piece

end StandsAt

/-- The last byte of a text starts a character if the last character has no other. -/
theorem boundary_pred_iff (cs : List Char) :
    Boundary cs (byteLength cs - 1) ↔ ∀ c ∈ cs.getLast?, c.utf8Size = 1 := by
  rcases List.eq_nil_or_concat cs with rfl | ⟨front, c, rfl⟩
  · simpa using Boundary.zero []
  · have hc := Char.utf8Size_pos c
    have hlast : (front.concat c).getLast? = some c := by simp
    have hlength : byteLength (front.concat c) - 1 = byteLength front + (c.utf8Size - 1) := by
      simp only [List.concat_eq_append, byteLength_append, byteLength_cons, byteLength_nil]
      omega
    have hstands : StandsAt (front.concat c) (byteLength front) [c] := ⟨front, [], by simp, rfl⟩
    rw [hlast, hlength, hstands.boundary_iff (by simp)]
    constructor
    · rintro ⟨pre, post, hsplit, hpre⟩ c' hc'
      cases hc'
      cases pre with
      | nil =>
        rw [byteLength_nil] at hpre
        omega
      | cons c' pre =>
        obtain ⟨rfl, -⟩ := List.cons.inj hsplit
        rw [byteLength_cons] at hpre
        omega
    · intro hone
      rw [hone c rfl]
      exact Boundary.zero [c]

end Primer.Text

/-! ### Characters of one byte -/

namespace Primer

theorem utf8Size_of_val_le {c : Char} (h : c.val ≤ 127) : c.utf8Size = 1 := by
  simp [Char.utf8Size, h]

theorem utf8Size_of_isBlank {c : Char} (h : isBlank c = true) : c.utf8Size = 1 := by
  have hc : c = ' ' ∨ c = '\t' := by simpa [isBlank] using h
  rcases hc with rfl | rfl <;> rfl

theorem isAlpha_iff {c : Char} :
    c.isAlpha = true ↔ ('A' ≤ c ∧ c ≤ 'Z') ∨ ('a' ≤ c ∧ c ≤ 'z') := by
  delta Char.isAlpha Char.isUpper Char.isLower
  simp [Char.le_def]

theorem utf8Size_of_isIdentifierChar {c : Char} (h : Word.isIdentifierChar c = true) :
    c.utf8Size = 1 := by
  refine utf8Size_of_val_le ?_
  simp only [Word.isIdentifierChar, Char.isAlphanum, Char.isDigit, Bool.or_eq_true, isAlpha_iff,
    Char.le_def, Bool.and_eq_true, decide_eq_true_eq] at h
  rcases h with ((h | h) | h) | rfl
  · exact UInt32.le_trans h.2 (by decide)
  · exact UInt32.le_trans h.2 (by decide)
  · exact UInt32.le_trans h.2 (by decide)
  · decide

theorem isIdentifierChar_of_isIdentifier {word : List Char} (h : Word.isIdentifier word = true) :
    ∀ c ∈ word, Word.isIdentifierChar c = true := by
  cases word with
  | nil => simp
  | cons c cs =>
    simp only [Word.isIdentifier, Bool.and_eq_true, List.all_eq_true] at h
    obtain ⟨⟨hc, hcs⟩, -⟩ := h
    refine List.forall_mem_cons.mpr ⟨?_, hcs⟩
    simp only [Word.isIdentifierChar, Char.isAlphanum, Bool.or_eq_true] at hc ⊢
    exact hc.imp_left Or.inl

theorem utf8Size_of_isIdentifier {word : List Char} (h : Word.isIdentifier word = true) :
    ∀ c ∈ word, c.utf8Size = 1 :=
  fun c hc => utf8Size_of_isIdentifierChar (isIdentifierChar_of_isIdentifier h c hc)

end Primer
