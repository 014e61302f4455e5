import Primer.Proofs.Machine.Input

/-!
# What searching takes

A search for numbers comes to an end, and it takes whole lines of the input.

* `Input.seek fuel input`: the search for the next entry, for one line after the other.
* `Input.seek_eq`: it ends within one line more than there are, with the entry.
* `Action.readTargets_eq_of_lt`: what bounds the targets of a `read` has no part in what it does.
* `Machine.Draws m m'`: the machines differ in their inputs by whole lines in front.
* `Coherent.draws_of_read`: the step of a `read`, whatever it returns.
-/

namespace Primer

namespace Input

/-! ### Searching -/

/-- The search for the next entry, which looks at `fuel` lines at most. -/
def seek : Nat → List UInt8 → Option (Entry × List UInt8)
  | 0, _ => none
  | _ + 1, [] => some (.ended, [])
  | fuel + 1, b :: bytes =>
    match found? (line (b :: bytes)) with
    | some found => some (found, behind (b :: bytes))
    | none => seek fuel (behind (b :: bytes))

/-- The search ends, at the latest behind the last line. -/
theorem seek_eq {fuel : Nat} {input : List UInt8} (h : (lines input).length < fuel) :
    seek fuel input = some (entry input) := by
  induction fuel generalizing input with
  | zero => exact absurd h (Nat.not_lt_zero _)
  | succ fuel ih =>
    cases input with
    | nil => rw [seek, entry_nil]
    | cons b bytes =>
      have hne := List.cons_ne_nil b bytes
      rw [lines_eq hne, List.length_cons] at h
      rw [seek, entry_eq hne]
      cases found? (line (b :: bytes)) with
      | some found => rfl
      | none => exact ih (by omega)

/-- No line is empty: a line feed or the end of the input makes it one. -/
theorem ne_nil_of_mem_lines {input l : List UInt8} (h : l ∈ lines input) : l ≠ [] := by
  induction input generalizing l with
  | nil => cases h
  | cons b bytes ih =>
    unfold lines at h
    split at h
    · rcases List.mem_cons.mp h with rfl | h
      · exact List.cons_ne_nil _ _
      · exact ih h
    · split at h
      · rw [List.mem_singleton.mp h]
        exact List.cons_ne_nil _ _
      · rename_i first more hbytes
        rcases List.mem_cons.mp h with rfl | h
        · exact List.cons_ne_nil _ _
        · exact ih (by rw [hbytes]; exact List.mem_cons_of_mem _ h)

theorem length_le_flatten {front : List (List UInt8)} (h : ∀ l ∈ front, l ≠ []) :
    front.length ≤ front.flatten.length := by
  induction front with
  | nil => exact Nat.le_refl 0
  | cons l front ih =>
    obtain ⟨hl, hfront⟩ := List.forall_mem_cons.mp h
    have hpos := List.length_pos_iff.mpr hl
    have hrest := ih hfront
    rw [List.flatten_cons, List.length_append, List.length_cons]
    omega

/-- Lines that are taken are bytes that are taken, at least one for each line. -/
theorem bytes_of_lines {input rest : List UInt8} {front : List (List UInt8)}
    (h : lines input = front ++ lines rest) : input = front.flatten ++ rest ∧ (∀ l ∈ front, l ≠ []) ∧
      front.length + rest.length ≤ input.length := by
  have hbytes : input = front.flatten ++ rest := by
    rw [← flatten_lines input, h, List.flatten_append, flatten_lines]
  have hne : ∀ l ∈ front, l ≠ [] := fun l hl =>
    ne_nil_of_mem_lines (by rw [h]; exact List.mem_append_left _ hl)
  have hlength := congrArg List.length hbytes
  have hle := length_le_flatten hne
  rw [List.length_append] at hlength
  exact ⟨hbytes, hne, by omega⟩

/-- For each line that is passed over at least one byte is taken. -/
theorem exists_skipped_of_entry (input : List UInt8) : ∃ blank, (∀ l ∈ blank, found? l = none ∧ l ≠ []) ∧
    blank.length + (entry input).2.length ≤ input.length ∧
    (entry input = (.ended, []) ∧ lines input = blank ∨
      ∃ line, found? line = some (entry input).1 ∧ lines input = blank ++ line :: lines (entry input).2) := by
  obtain ⟨blank, hblank, hrest⟩ := exists_blank_of_entry input
  -- the lines that are taken are these, and perhaps one more
  obtain ⟨taken, hlines⟩ : ∃ taken, lines input = (blank ++ taken) ++ lines (entry input).2 := by
    rcases hrest with ⟨hended, hlines⟩ | ⟨line, -, hlines⟩
    · exact ⟨[], by rw [hended, hlines]; simp [lines]⟩
    · exact ⟨[line], by rw [hlines]; simp⟩
  obtain ⟨-, hne, hlength⟩ := bytes_of_lines hlines
  rw [List.length_append] at hlength
  exact ⟨blank, fun l hl => ⟨hblank l hl, hne l (List.mem_append_left _ hl)⟩, by omega, hrest⟩

end Input

namespace Action

variable {I O : Type} {w : Work I O}

/-- Targets take tokens, so there are no more of them than tokens. -/
theorem readTargets_eq_of_lt [Reader I] [Writer O] {fuel fuel' : Nat} (h : w.cursor.rest.length < fuel)
    (h' : w.cursor.rest.length < fuel') : readTargets fuel w = readTargets fuel' w := by
  induction fuel generalizing w fuel' with
  | zero => exact absurd h (Nat.not_lt_zero _)
  | succ fuel ih =>
    obtain ⟨fuel', rfl⟩ := Nat.exists_eq_add_of_lt (Nat.zero_lt_of_lt h')
    rw [Nat.zero_add] at h' ⊢
    rw [readTargets, readTargets, bind_apply, bind_apply]
    have hleads := leads_readTarget (w := w)
    cases htarget : readTarget w with
    | error d w' => rfl
    | ok _ w' =>
      obtain ⟨d, htakes⟩ := hleads.ok htarget
      have hlt : w'.cursor.rest.length < w.cursor.rest.length := htakes.length_lt
      have hskip : Leads (parse (Parse.skip .comma)) w'
          (fun _ w'' => w''.cursor.rest.length ≤ w'.cursor.rest.length) (fun _ _ => True) := by
        refine leads_skip (fun t rest hrest _ => ?_) fun _ => Nat.le_refl _
        rw [hrest]
        exact Nat.le_succ _
      show (parse (Parse.skip .comma) >>= fun comma => if comma then readTargets fuel else pure ()) w' =
        (parse (Parse.skip .comma) >>= fun comma => if comma then readTargets fuel' else pure ()) w'
      rw [bind_apply, bind_apply]
      cases hcomma : parse (Parse.skip .comma) w' with
      | error d w'' => rfl
      | ok comma w'' =>
        have hle := hskip.ok hcomma
        cases comma with
        | false => rfl
        | true => exact ih (by omega) (by omega)

end Action

namespace Machine

/-! ### Lines -/

variable {O : Type}

/-- Some lines are taken from the input, from the first one on, and nothing else. -/
def Draws (m m' : Machine (List UInt8) O) : Prop :=
  ∃ front, Input.lines m.input = front ++ Input.lines m'.input

variable {m m' : Machine (List UInt8) O}

theorem Draws.of_input (h : m'.input = m.input) : m.Draws m' := ⟨[], by rw [h]; rfl⟩

theorem frame_draws : Machine.Frame (O := O) Draws where
  refl m := .of_input rfl
  trans := by
    rintro m m' m'' ⟨front, hfront⟩ ⟨more, hmore⟩
    exact ⟨front ++ more, by rw [hfront, hmore, List.append_assoc]⟩
  note m r _ := .of_input rfl

/-- A search takes the lines that it looks at. -/
theorem draws_entry (m : Machine (List UInt8) O) : m.Draws { m with input := (Input.entry m.input).2 } := by
  obtain ⟨blank, -, ⟨hended, hlines⟩ | ⟨line, -, hlines⟩⟩ := Input.exists_blank_of_entry m.input
  · refine ⟨blank, ?_⟩
    rw [hended, hlines]
    exact (List.append_nil blank).symm
  · exact ⟨blank ++ [line], by rw [hlines, List.append_assoc]; rfl⟩

/-- A `read` takes whole lines, whether it succeeds or not. -/
theorem Coherent.draws_of_read [Writer O] (hm : m.Coherent) {tokens : List Token}
    (hx : m.Executing .read tokens) : m.Draws m.step.2 := by
  obtain ⟨hrunning, s, hs, hclosed, ht, hk⟩ := hx
  have hkeeps := Action.keeps_statement_read (O := O) (G := fun _ => True) (fun _ _ _ _ => trivial)
    frame_draws (fun m sink => .of_input rfl) draws_entry (fun m s _ => .of_input rfl)
  have hleads := hm.step_leads hrunning hs ht hclosed hk (Q := fun _ w => m.Draws w.machine)
    (E := fun _ w => m.Draws w.machine) fun m' hsame => by
      have hbefore : m.Draws m' := .of_input hsame.input
      exact (hkeeps _ (placed_true ht _ m')).mono
        (fun _ _ hw => frame_draws.trans hbefore hw.1.machine) fun _ _ hw => frame_draws.trans hbefore hw.1
  rcases hleads with ⟨flow, w, hw, hstep⟩ | ⟨d, w, hw, hstep⟩
  · rw [hstep]
    have hfollow : (w.machine.follow flow).2.input = w.machine.input :=
      congrArg Streams.input (follow_streams w.machine flow)
    exact frame_draws.trans hw (.of_input hfollow)
  · rw [hstep]
    exact hw

end Machine

end Primer
