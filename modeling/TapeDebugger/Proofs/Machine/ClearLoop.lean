-- SUMMARY: The instruction that clears a cell is the loop that counts the cell down: same end, and at most 511 steps for each one.
import TapeDebugger.Proofs.Machine.Substitution

/-!
# The clearing loop

Writing `[-]` for every `0` gives a program that ends as the first one does. Its run is followed
step by step. Each step either leads on within a loop, where the first run has not yet executed the
`0`, or is matched by one step of the first run (`Follows.execute`). A loop is left when the cell is
zero, and that is what the `0` makes of it. Within a loop nothing but the limit of instructions can
stop the run, and a loop takes one step and two for each unit of the cell.
-/

namespace TapeDebugger

open TapeDebugger.Bracket

/-- The loop `[-]` in place of the byte `0`. -/
def Substitution.clearLoop : Substitution where
  replace byte := if byte = 0x30 then [0x5b, 0x2d, 0x5d] else [byte]
  replace_opening := rfl
  replace_closing := rfl
  code_replace byte ho hc := by
    split
    · exact ⟨.loop (.byte ⟨0x2d, by decide⟩ .nil) .nil, rfl⟩
    · exact ⟨.byte ⟨byte, ho, hc⟩ .nil, rfl⟩

open Substitution (clearLoop)

theorem Substitution.clearLoop_of_ne {byte : UInt8} (h : byte ≠ 0x30) :
    clearLoop.replace byte = [byte] :=
  if_neg h

theorem Substitution.length_clearLoop_pos (byte : UInt8) : 0 < (clearLoop.replace byte).length := by
  by_cases h : byte = 0x30
  · subst h
    decide
  · rw [clearLoop_of_ne h]
    exact Nat.one_pos

/-- The state that is so many bytes into the loop in place of the byte to be executed next, with a
value left in the cell. -/
def State.inLoop (s : State) (p : Program) (offset : Nat) (value : UInt8) (count : Nat) : State :=
  { s with
    tape := s.tape.put value
    ip := clearLoop.place p.source.toList s.ip + offset
    executed := count }

namespace Program

variable {p q : Program} {s t : State} {count : Nat} {value : UInt8}

/-! ## Steps of the loop -/

theorem place_succ_clearLoop {i : Nat} (hbyte : p.source[i]? = some 0x30) :
    clearLoop.place p.source.toList (i + 1) = clearLoop.place p.source.toList i + 3 :=
  Substitution.place_succ (Array.getElem?_toList ▸ hbyte)

/-- The state behind the loop, once the cell is zero, is the one after the instruction. -/
theorem placed_execute_clear (hclears : p.settings.zeroClears = true)
    (hbyte : p.source[s.ip]? = some 0x30) :
    (p.execute s).placed clearLoop p count = s.inLoop p 3 0 count := by
  have hinstr : p.instructionAt? s.ip = some .clear := by
    rw [instructionAt?_of_getElem? hbyte, hclears]
    rfl
  simp only [execute, hinstr, perform, State.placed, State.inLoop, place_succ_clearLoop hbyte]

namespace Substitutes

variable {i : Nat}

theorem partners_clearLoop (h : p.Substitutes clearLoop q) (hbyte : p.source[i]? = some 0x30) :
    Partners q.source (clearLoop.place p.source.toList i)
      (clearLoop.place p.source.toList i + 2) := by
  have hsplit := h.source_eq
  rw [Substitution.image_eq_of_getElem? (Array.getElem?_toList ▸ hbyte)] at hsplit
  have hloop : q.source.toList = clearLoop.image (p.source.toList.take i) ++
      opening :: ((Outline.Code.byte ⟨0x2d, by decide⟩ .nil).bytes ++
        closing :: clearLoop.image (p.source.toList.drop (i + 1))) := hsplit
  exact Outline.partners_loop hloop rfl

theorem getElem?_decrement (h : p.Substitutes clearLoop q) (hbyte : p.source[i]? = some 0x30) :
    q.source[clearLoop.place p.source.toList i + 1]? = some 0x2d :=
  Substitution.getElem?_target h.source_eq (Array.getElem?_toList ▸ hbyte) (by decide)

/-- The opening bracket skips the loop on a zero, and else enters it. -/
theorem execute_opening (h : p.Substitutes clearLoop q) (hbyte : p.source[s.ip]? = some 0x30) :
    q.execute (s.placed clearLoop p count) =
      if s.tape.cell = 0 then s.inLoop p 3 0 (count + 1)
      else s.inLoop p 1 s.tape.cell (count + 1) := by
  have hpartners := h.partners_clearLoop hbyte
  have hinstr : q.instructionAt? (s.placed clearLoop p count).ip = some .loopOpen :=
    instructionAt?_opening hpartners.getElem?_opener
  have hpartner : q.pairing.closerOf? (s.placed clearLoop p count).ip =
      some (clearLoop.place p.source.toList s.ip + 2) :=
    (Pairing.closerOf?_iff_partners q.paired _ _).2 hpartners
  simp only [execute, hinstr, perform, hpartner, landing]
  by_cases hzero : s.tape.cell = 0
  · have htape : s.tape.put 0 = s.tape := hzero ▸ s.tape.put_cell
    simp only [State.placed, State.inLoop, hzero, if_true, htape]
  · simp only [State.placed, State.inLoop, hzero, if_false, Tape.put_cell]

/-- The body of the loop counts the cell down by one. -/
theorem execute_decrement (h : p.Substitutes clearLoop q) (hsound : p.Sound s)
    (hbyte : p.source[s.ip]? = some 0x30) :
    q.execute (s.inLoop p 1 value count) = s.inLoop p 2 (value - 1) (count + 1) := by
  have hinstr : q.instructionAt? (s.inLoop p 1 value count).ip = some .decrement :=
    instructionAt?_of_getElem? (h.getElem?_decrement hbyte)
  have hcell : (s.inLoop p 1 value count).tape.cell = value := Tape.cell_put _ _ hsound.head_lt_size
  simp only [execute, hinstr, perform, Tape.decrement, hcell]
  simp only [State.inLoop, Tape.put_put]

/-- The closing bracket leaves the loop on a zero, and else goes back into it. -/
theorem execute_closing (h : p.Substitutes clearLoop q) (hsound : p.Sound s)
    (hbyte : p.source[s.ip]? = some 0x30) :
    q.execute (s.inLoop p 2 value count) =
      if value = 0 then s.inLoop p 3 0 (count + 1) else s.inLoop p 1 value (count + 1) := by
  have hpartners := h.partners_clearLoop hbyte
  have hinstr : q.instructionAt? (s.inLoop p 2 value count).ip = some .loopClose :=
    instructionAt?_closing hpartners.getElem?_closer
  have hpartner : q.pairing.openerOf? (s.inLoop p 2 value count).ip =
      some (clearLoop.place p.source.toList s.ip) :=
    (Pairing.openerOf?_iff_partners q.paired _ _).2 hpartners
  have hcell : (s.inLoop p 2 value count).tape.cell = value := Tape.cell_put _ _ hsound.head_lt_size
  simp only [execute, hinstr, perform, hpartner, landing, hcell]
  by_cases hzero : value = 0
  · simp only [State.inLoop, hzero, if_true]
  · simp only [State.inLoop, hzero, if_false]

/-- The place of a state is within the image exactly when the state is within the source. -/
theorem placed_lt_size_iff (h : p.Substitutes clearLoop q) :
    (s.placed clearLoop p count).ip < q.source.size ↔ s.ip < p.source.size :=
  ⟨h.lt_size_of_place_lt, fun hip =>
    h.place_add_lt_size (Array.getElem?_eq_getElem hip) (Substitution.length_clearLoop_pos _)⟩

end Substitutes

/-! ## Following a run -/

/-- Where the run with loops may be while the first run is in a state: at the place of that state, or
within the loop for the `0` that comes next. What is left of the loop is counted with what has been
executed. -/
inductive Follows (p : Program) (s : State) : State → Prop where
  | placed {count : Nat} (hlow : s.executed ≤ count) (hhigh : count ≤ 511 * s.executed) :
      Follows p s (s.placed clearLoop p count)
  | decrement {count : Nat} {value : UInt8} (hgoes : p.halted s = false)
      (hbyte : p.source[s.ip]? = some 0x30) (hvalue : value ≠ 0) (hlow : s.executed ≤ count)
      (hhigh : count + 2 * value.toNat ≤ 511 * (s.executed + 1)) :
      Follows p s (s.inLoop p 1 value count)
  | closing {count : Nat} {value : UInt8} (hgoes : p.halted s = false)
      (hbyte : p.source[s.ip]? = some 0x30) (hlow : s.executed ≤ count)
      (hhigh : count + 2 * value.toNat + 1 ≤ 511 * (s.executed + 1)) :
      Follows p s (s.inLoop p 2 value count)

namespace Follows

theorem start (h : p.Substitutes clearLoop q) : Follows p p.start q.start := by
  rw [h.start_eq]
  exact .placed (Nat.le_refl 0) (Nat.zero_le _)

/-- Behind the loop the `0` has been executed. -/
theorem left (hclears : p.settings.zeroClears = true) (hbyte : p.source[s.ip]? = some 0x30)
    (hlow : s.executed ≤ count) (hhigh : count + 1 ≤ 511 * (s.executed + 1)) :
    Follows p (p.execute s) (s.inLoop p 3 0 (count + 1)) := by
  rw [← placed_execute_clear hclears hbyte]
  apply Follows.placed
  · rw [executed_execute]
    exact Nat.succ_le_succ hlow
  · rw [executed_execute]
    exact hhigh

/-- A step leads on within a loop, or is matched by one step of the first run. -/
theorem execute (h : p.Substitutes clearLoop q) (hclears : p.settings.zeroClears = true)
    (hsound : p.Sound s) (hs : p.halted s = false) (hfollows : Follows p s t) :
    Follows p s (q.execute t) ∨ Follows p (p.execute s) (q.execute t) := by
  cases hfollows with
  | placed hlow hhigh =>
    obtain ⟨byte, hbyte⟩ : ∃ byte, p.source[s.ip]? = some byte :=
      ⟨_, Array.getElem?_eq_getElem (halted_eq_false_iff.1 hs).2.2⟩
    by_cases hzero : byte = 0x30
    · subst hzero
      rw [h.execute_opening hbyte]
      by_cases hcell : s.tape.cell = 0
      · rw [if_pos hcell]
        exact .inr (left hclears hbyte hlow (by omega))
      · rw [if_neg hcell]
        have := s.tape.cell.toNat_lt
        exact .inl (.decrement hs hbyte hcell (by omega) (by omega))
    · rw [h.execute_placed hbyte (Substitution.clearLoop_of_ne hzero)]
      refine .inr (.placed ?_ ?_)
      · rw [executed_execute]
        exact Nat.succ_le_succ hlow
      · rw [executed_execute]
        omega
  | @decrement count value hgoes hbyte hvalue hlow hhigh =>
    rw [h.execute_decrement hsound hbyte]
    have hpos : 1 ≤ value.toNat :=
      Nat.one_le_iff_ne_zero.2 fun hzero => hvalue (UInt8.toNat_inj.1 hzero)
    have hless : (value - 1).toNat = value.toNat - 1 := UInt8.toNat_sub_of_le _ _ hpos
    exact .inl (.closing hgoes hbyte (by omega) (by omega))
  | @closing count value hgoes hbyte hlow hhigh =>
    rw [h.execute_closing hsound hbyte]
    by_cases hzero : value = 0
    · rw [if_pos hzero]
      exact .inr (left hclears hbyte hlow (by omega))
    · rw [if_neg hzero]
      exact .inl (.decrement hgoes hbyte hzero (by omega) (by omega))

theorem executed_le (hfollows : Follows p s t) : t.executed ≤ 511 * (s.executed + 1) := by
  cases hfollows with
  | placed hlow hhigh => exact Nat.le_trans hhigh (Nat.mul_le_mul_left _ (Nat.le_succ _))
  | decrement hgoes hbyte hvalue hlow hhigh => exact Nat.le_trans (Nat.le_add_right _ _) hhigh
  | closing hgoes hbyte hlow hhigh =>
    exact Nat.le_trans (Nat.le_add_right _ _) (Nat.le_of_succ_le hhigh)

/-- As long as the first run has not stopped, only the limit can stop this one. -/
theorem within (h : p.Substitutes clearLoop q) (hs : p.halted s = false)
    (hfollows : Follows p s t) : t.spool.isFull = false ∧ t.ip < q.source.size := by
  obtain ⟨hroom, -, hip⟩ := halted_eq_false_iff.1 hs
  cases hfollows with
  | placed hlow hhigh => exact ⟨hroom, h.placed_lt_size_iff.2 hip⟩
  | decrement hgoes hbyte hvalue hlow hhigh => exact ⟨hroom, h.place_add_lt_size hbyte (by decide)⟩
  | closing hgoes hbyte hlow hhigh => exact ⟨hroom, h.place_add_lt_size hbyte (by decide)⟩

/-- When the first run has stopped, no loop is under way. -/
theorem eq_placed (hs : p.halted s = true) (hfollows : Follows p s t) :
    ∃ count, t = s.placed clearLoop p count ∧ s.executed ≤ count ∧ count ≤ 511 * s.executed := by
  cases hfollows with
  | placed hlow hhigh => exact ⟨_, rfl, hlow, hhigh⟩
  | decrement hgoes => exact absurd hs (by simp [hgoes])
  | closing hgoes => exact absurd hs (by simp [hgoes])

/-- If the first run has stopped, so has this one, unless it may go on beyond the limit that stopped
the first. -/
theorem halted (h : p.Substitutes clearLoop q) (hs : p.halted s = true)
    (hlimit : p.halt? s ≠ some .limitReached ∨
      q.settings.instructionLimit ≤ p.settings.instructionLimit)
    (hfollows : Follows p s t) : q.halted t = true := by
  obtain ⟨count, rfl, hlow, -⟩ := hfollows.eq_placed hs
  by_contra hnot
  obtain ⟨hroom, hcount, hip⟩ := halted_eq_false_iff.1 (Bool.eq_false_of_not_eq_true hnot)
  have hreached : p.settings.instructionLimit ≤ s.executed := by
    by_contra hbelow
    have hgoes : p.halted s = false :=
      halted_eq_false_iff.2 ⟨hroom, Nat.lt_of_not_le hbelow, h.placed_lt_size_iff.1 hip⟩
    rw [hgoes] at hs
    contradiction
  rcases hlimit with hother | hle
  · exact hother (halt?_eq_limitReached_iff.2 ⟨hroom, hreached⟩)
  · exact absurd hcount (Nat.not_lt.2 (Nat.le_trans hle (Nat.le_trans hreached hlow)))

/-- Every state of the run with loops follows a state of the first run. -/
theorem steps (h : p.Substitutes clearLoop q) (hclears : p.settings.zeroClears = true)
    (hlimit : p.halt? (p.run p.start) ≠ some .limitReached ∨
      q.settings.instructionLimit ≤ p.settings.instructionLimit) (n : Nat) :
    ∃ k, Follows p (p.steps k p.start) (q.steps n q.start) := by
  induction n with
  | zero => exact ⟨0, start h⟩
  | succ n ih =>
    obtain ⟨k, hfollows⟩ := ih
    rw [steps_succ]
    cases ht : q.halted (q.steps n q.start) with
    | true =>
      rw [step_of_halted ht]
      exact ⟨k, hfollows⟩
    | false =>
      have hs : p.halted (p.steps k p.start) = false := by
        by_contra hnot
        have hstopped := Bool.eq_true_of_not_eq_false hnot
        rw [run_eq_of_halted hstopped] at hlimit
        rw [hfollows.halted h hstopped hlimit] at ht
        contradiction
      rw [step_of_halted_eq_false ht]
      rcases hfollows.execute h hclears (p.sound_steps k) hs with hsame | hnext
      · exact ⟨k, hsame⟩
      · refine ⟨k + 1, ?_⟩
        rw [steps_succ, step_of_halted_eq_false hs]
        exact hnext

theorem run (h : p.Substitutes clearLoop q) (hclears : p.settings.zeroClears = true)
    (hlimit : p.halt? (p.run p.start) ≠ some .limitReached ∨
      q.settings.instructionLimit ≤ p.settings.instructionLimit) :
    ∃ k, Follows p (p.steps k p.start) (q.run q.start) := by
  rw [run_eq_steps]
  exact steps h hclears hlimit _

end Follows

/-! ## Where the runs stop -/

/-- Other reasons to stop than the limit are the same in both programs. -/
theorem Substitutes.halt?_placed_iff (h : p.Substitutes clearLoop q) {reason : Halt}
    (hreason : reason = .sourceEnded ∨ reason = .outputFull)
    (hlimits : reason = .sourceEnded →
      s.executed < p.settings.instructionLimit ∧ count < q.settings.instructionLimit) :
    p.halt? s = some reason ↔ q.halt? (s.placed clearLoop p count) = some reason := by
  rcases hreason with rfl | rfl
  · obtain ⟨hexecuted, hcount⟩ := hlimits rfl
    rw [halt?_eq_sourceEnded_iff, halt?_eq_sourceEnded_iff, ← Nat.not_lt, ← Nat.not_lt,
      h.placed_lt_size_iff]
    exact and_congr_right' (and_congr_left' (iff_of_true hexecuted hcount))
  · rw [halt?_eq_outputFull_iff, halt?_eq_outputFull_iff]
    rfl

/-- The run with loops ends like a run that ends within its limit. -/
theorem Substitutes.endsAlike_of_halt (h : p.Substitutes clearLoop q)
    (hclears : p.settings.zeroClears = true) {reason : Halt}
    (hreason : reason = .sourceEnded ∨ reason = .outputFull)
    (hhalt : p.halt? (p.run p.start) = some reason)
    (hlimit : 511 * (p.run p.start).executed < q.settings.instructionLimit) : p.EndsAlike q := by
  have hother : p.halt? (p.run p.start) ≠ some .limitReached := by
    rw [hhalt]
    rcases hreason with rfl | rfl <;> simp
  obtain ⟨k, hfollows⟩ := Follows.run h hclears (.inl hother)
  -- Before the first run has stopped, the steps it has left are enough for a loop in each.
  have hstopped : p.halted (p.steps k p.start) = true := by
    by_contra hnot
    have hgoes := Bool.eq_false_of_not_eq_true hnot
    have hk := halted_steps_eq_false_iff.1 hgoes
    have hexecuted : (p.steps k p.start).executed = 0 + k := executed_steps_of_le (Nat.le_of_lt hk)
    have hcount := hfollows.executed_le
    rw [executed_run_start] at hlimit
    obtain ⟨hroom, hip⟩ := hfollows.within h hgoes
    have hgoes' : q.halted (q.run q.start) = false :=
      halted_eq_false_iff.2 ⟨hroom, by omega, hip⟩
    rw [q.halted_run] at hgoes'
    contradiction
  rw [← run_eq_of_halted hstopped] at hfollows hstopped
  obtain ⟨count, hrun, -, hhigh⟩ := hfollows.eq_placed hstopped
  refine endsAlike_of_placed hhalt ?_ hrun
  rw [hrun]
  refine (h.halt?_placed_iff hreason fun hend => ⟨?_, Nat.lt_of_le_of_lt hhigh hlimit⟩).1 hhalt
  exact (halt?_eq_sourceEnded_iff.1 (hend ▸ hhalt)).2.1

/-- A run that may make as many steps ends like the run with loops. -/
theorem Substitutes.endsAlike_of_halt_image (h : p.Substitutes clearLoop q)
    (hclears : p.settings.zeroClears = true) {reason : Halt}
    (hreason : reason = .sourceEnded ∨ reason = .outputFull)
    (hhalt : q.halt? (q.run q.start) = some reason)
    (hlimit : q.settings.instructionLimit ≤ p.settings.instructionLimit) : p.EndsAlike q := by
  obtain ⟨k, hfollows⟩ := Follows.run h hclears (.inr hlimit)
  have hstopped : p.halted (p.steps k p.start) = true := by
    by_contra hnot
    obtain ⟨hroom, hip⟩ := hfollows.within h (Bool.eq_false_of_not_eq_true hnot)
    rcases hreason with rfl | rfl
    · exact absurd hip (Nat.not_lt.2 (halt?_eq_sourceEnded_iff.1 hhalt).2.2)
    · rw [halt?_eq_outputFull_iff.1 hhalt] at hroom
      contradiction
  rw [← run_eq_of_halted hstopped] at hfollows hstopped
  obtain ⟨count, hrun, hlow, -⟩ := hfollows.eq_placed hstopped
  refine endsAlike_of_placed ?_ hhalt hrun
  rw [hrun] at hhalt
  refine (h.halt?_placed_iff hreason fun hend => ?_).2 hhalt
  have hcount : count < q.settings.instructionLimit := (halt?_eq_sourceEnded_iff.1 (hend ▸ hhalt)).2.1
  exact ⟨Nat.lt_of_lt_of_le (Nat.lt_of_le_of_lt hlow hcount) hlimit, hcount⟩

/-- The instruction that clears a cell is the loop that counts it down. With `[-]` in place of every
`0`, whatever the brackets around it, a run that ends with the source or with its output full ends in
the same way, if the limit allows 511 steps for each one of the first run. And if the run with loops
ends so, the first run does within the same limit. -/
theorem endsAlike_of_clearLoop (h : p.Substitutes clearLoop q)
    (hclears : p.settings.zeroClears = true) :
    ((p.finish p.start).halt = .sourceEnded ∨ (p.finish p.start).halt = .outputFull →
      511 * (p.finish p.start).executed < q.settings.instructionLimit → p.EndsAlike q) ∧
    ((q.finish q.start).halt = .sourceEnded ∨ (q.finish q.start).halt = .outputFull →
      q.settings.instructionLimit ≤ p.settings.instructionLimit → p.EndsAlike q) :=
  ⟨fun hreason hlimit => h.endsAlike_of_halt hclears hreason (halt_finish_iff.1 rfl) hlimit,
    fun hreason hlimit => h.endsAlike_of_halt_image hclears hreason (halt_finish_iff.1 rfl) hlimit⟩

/-- The run of `-[0]` makes four steps. With a limit above 511 times as many, that of `-[[-]]` ends
alike after 514. -/
theorem endsAlike_of_clearLoop_in_loop :
    ∃ p q,
      Program.load { tapeSize := 1, instructionLimit := 2045, zeroClears := true }
        #[0x2d, 0x5b, 0x30, 0x5d] #[] = .ok p ∧
      Program.load { tapeSize := 1, instructionLimit := 2045, zeroClears := true }
        #[0x2d, 0x5b, 0x5b, 0x2d, 0x5d, 0x5d] #[] = .ok q ∧
      p.Substitutes clearLoop q ∧
      (p.finish p.start).executed = 4 ∧
      (q.finish q.start).executed = 514 ∧
      p.EndsAlike q := by
  have h : Substitutes
    ⟨{ tapeSize := 1, instructionLimit := 2045, zeroClears := true }, #[0x2d, 0x5b, 0x30, 0x5d], #[],
      ⟨#[⟨some 1, some 3⟩], #[none, some 3, none, none], #[none, none, none, some 1]⟩, rfl, rfl, rfl⟩
    clearLoop
    ⟨{ tapeSize := 1, instructionLimit := 2045, zeroClears := true },
      #[0x2d, 0x5b, 0x5b, 0x2d, 0x5d, 0x5d], #[],
      ⟨#[⟨some 2, some 4⟩, ⟨some 1, some 5⟩], #[none, some 5, some 4, none, none, none],
        #[none, none, none, none, some 2, some 1]⟩, rfl, rfl, rfl⟩ :=
    ⟨by decide, rfl, rfl⟩
  refine ⟨_, _, rfl, rfl, h, by decide +kernel, by decide +kernel, ?_⟩
  exact (endsAlike_of_clearLoop h rfl).1 (.inl (by decide +kernel)) (by decide +kernel)

end Program

end TapeDebugger
