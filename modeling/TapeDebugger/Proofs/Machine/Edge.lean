-- SUMMARY: The size of the tape matters only to a run that reaches its right end.
import TapeDebugger.Proofs.Machine.Safety

/-!
# The right end of the tape

Two tapes of different sizes are told apart only by a move to the right from the last cell of the smaller
one. As long as the head of the larger tape stays within the size of the smaller one, both machines go
through the same states, and the smaller tape is the front part of the larger one (`steps_withTape`).

A state within the size says nothing about the move that follows, so a step is related by where the head
is afterwards. The cells behind the front part are never under the head and keep their zeros
(`cells_beyond`).
-/

namespace TapeDebugger

-- ---------------------------------------------------------------------------
-- The front part of a tape
-- ---------------------------------------------------------------------------

namespace Tape

variable {t : Tape} {n : Nat}

/-- The first cells of a tape, with the head where it is. -/
def narrow (t : Tape) (n : Nat) : Tape := { t with cells := t.cells.take n }

theorem toList_cells_narrow (t : Tape) (n : Nat) :
    (t.narrow n).cells.toList = t.cells.toList.take n := by
  rw [narrow, Array.take_eq_extract, Array.toList_extract, List.extract_eq_take_drop, List.drop_zero,
    Nat.sub_zero]

theorem size_cells_narrow (t : Tape) (n : Nat) : (t.narrow n).cells.size = min n t.cells.size := by
  rw [← Array.length_toList, toList_cells_narrow, List.length_take, Array.length_toList]

theorem cell_narrow (h : t.head < n) : (t.narrow n).cell = t.cell := by
  have hsame : (t.narrow n).cells[t.head]? = t.cells[t.head]? := by
    rw [← Array.getElem?_toList, ← Array.getElem?_toList, toList_cells_narrow,
      List.getElem?_take_of_lt h]
  rw [cell, cell, Array.getD_eq_getD_getElem?, Array.getD_eq_getD_getElem?]
  exact congrArg (·.getD 0) hsame

theorem narrow_put (t : Tape) (n : Nat) (value : UInt8) :
    (t.put value).narrow n = (t.narrow n).put value := by
  have hcells : ((t.put value).narrow n).cells = ((t.narrow n).put value).cells := by
    apply Array.toList_inj.1
    simp only [put, toList_cells_narrow, Array.toList_setIfInBounds]
    exact List.take_set
  exact congrArg (Tape.mk · t.head) hcells

/-- A move to the right is the same on the front part, unless it leaves it. -/
theorem narrow_moveRight (h : t.moveRight.head < n) :
    t.moveRight.narrow n = (t.narrow n).moveRight := by
  have hsize := t.size_cells_narrow n
  unfold moveRight at h ⊢
  by_cases hroom : t.head + 1 < t.cells.size
  · rw [if_pos hroom] at h ⊢
    have hroom' : (t.narrow n).head + 1 < (t.narrow n).cells.size := hsize ▸ Nat.lt_min.2 ⟨h, hroom⟩
    rw [if_pos hroom']
    rfl
  · have hroom' : ¬ (t.narrow n).head + 1 < (t.narrow n).cells.size :=
      fun hlt => hroom (Nat.lt_min.1 (hsize ▸ hlt)).2
    rw [if_neg hroom, if_neg hroom']

theorem narrow_blank {size : Nat} (h : n ≤ size) : (blank size).narrow n = blank n := by
  rw [narrow, blank, blank, Array.take_eq_extract, Array.extract_replicate, Nat.min_eq_left h,
    Nat.sub_zero]

end Tape

/-- The same state on the first cells of its tape. -/
def State.narrow (s : State) (n : Nat) : State := { s with tape := s.tape.narrow n }

namespace Program

variable {p : Program} {s : State} {n k : Nat}

-- ---------------------------------------------------------------------------
-- The same states
-- ---------------------------------------------------------------------------

/-- The same program on a tape of another size. -/
def withTape (p : Program) (n : Nat) (hn : 0 < n ∧ n ≤ Tape.largest) : Program :=
  p.withSettings { p.settings with tapeSize := n }
    (Settings.check_eq_ok_iff.2 ⟨hn.1, (Settings.check_eq_ok_iff.1 p.usable).2⟩) rfl hn.2

variable {hn : 0 < n ∧ n ≤ Tape.largest}

/-- An instruction that begins and ends on the front part does the same there. -/
theorem perform_withTape {i : Option Instruction} (hbefore : s.tape.head < n)
    (hafter : (p.perform s i).tape.head < n) :
    (p.withTape n hn).perform (s.narrow n) i = (p.perform s i).narrow n := by
  have hcell : (s.narrow n).tape.cell = s.tape.cell := Tape.cell_narrow hbefore
  have hput (value : UInt8) : (s.narrow n).tape.put value = (s.tape.put value).narrow n :=
    (s.tape.narrow_put n value).symm
  cases i with
  | none => rfl
  | some i =>
    cases i with
    | moveRight =>
      have hmove : (s.narrow n).tape.moveRight = s.tape.moveRight.narrow n :=
        (Tape.narrow_moveRight hafter).symm
      simp only [perform, hmove]
      rfl
    | moveLeft => rfl
    | increment =>
      simp only [perform, Tape.increment, hcell, hput]
      rfl
    | decrement =>
      simp only [perform, Tape.decrement, hcell, hput]
      rfl
    | input | clear =>
      simp only [perform, hput]
      rfl
    | output | loopOpen | loopClose =>
      simp only [perform, hcell]
      rfl

theorem step_withTape (hbefore : s.tape.head < n) (hafter : (p.step s).tape.head < n) :
    (p.withTape n hn).step (s.narrow n) = (p.step s).narrow n := by
  cases hs : p.halted s with
  | true =>
    have hs' : (p.withTape n hn).halted (s.narrow n) = true := hs
    rw [step_of_halted hs, step_of_halted hs']
  | false =>
    have hs' : (p.withTape n hn).halted (s.narrow n) = false := hs
    rw [step_of_halted_eq_false hs] at hafter ⊢
    have hinstr : (p.withTape n hn).instructionAt? (s.narrow n).ip = p.instructionAt? s.ip := rfl
    rw [step_of_halted_eq_false hs', execute, execute, hinstr, perform_withTape hbefore hafter]
    rfl

/-- As long as the head stays within it, the front part of the tape goes through the same states. -/
theorem steps_withTape (hle : n ≤ p.settings.tapeSize)
    (h : ∀ j ≤ k, (p.steps j p.start).tape.head < n) :
    (p.withTape n hn).steps k (p.withTape n hn).start = (p.steps k p.start).narrow n := by
  induction k with
  | zero => exact congrArg (fun tape => { p.start with tape }) (Tape.narrow_blank hle).symm
  | succ k ih =>
    have hafter := h (k + 1) (Nat.le_refl _)
    rw [steps_succ] at hafter
    rw [steps_succ, steps_succ, ih fun j hj => h j (Nat.le_succ_of_le hj),
      step_withTape (h k (Nat.le_succ k)) hafter]

/-- The cells that the head never reaches stay as they are. -/
theorem cells_beyond (h : ∀ j < k, (p.steps j p.start).tape.head < n) {i : Nat} (hi : n ≤ i) :
    (p.steps k p.start).tape.cells[i]? = p.start.tape.cells[i]? := by
  induction k with
  | zero => rfl
  | succ k ih =>
    have hne : i ≠ (p.steps k p.start).tape.head :=
      Nat.ne_of_gt (Nat.lt_of_lt_of_le (h k (Nat.lt_succ_self k)) hi)
    rw [steps_succ, (p.near_step _).cells_eq i hne]
    exact ih fun j hj => h j (Nat.lt_succ_of_lt hj)

theorem finish_withTape (hle : n ≤ p.settings.tapeSize)
    (h : ∀ k, (p.steps k p.start).tape.head < n) :
    (p.withTape n hn).finish (p.withTape n hn).start = p.finish p.start := by
  have hrun : (p.withTape n hn).run (p.withTape n hn).start = (p.run p.start).narrow n := by
    rw [run_eq_steps, run_eq_steps]
    exact steps_withTape hle fun j _ => h j
  have hhalt : (p.withTape n hn).halt? ((p.withTape n hn).run (p.withTape n hn).start) =
      some (p.finish p.start).halt := by
    rw [hrun]
    exact halt_finish_iff.1 rfl
  rw [finish_eq hhalt, hrun]
  rfl

-- ---------------------------------------------------------------------------
-- Two sizes
-- ---------------------------------------------------------------------------

/-- What is loaded under settings that differ only in the size of the tape is the same program on a tape
of another size. -/
theorem exists_eq_withTape_of_load {settings : Settings} {source input : Array UInt8} {m : Nat}
    {q : Program} (hp : load { settings with tapeSize := m } source input = .ok p)
    (hq : load { settings with tapeSize := n } source input = .ok q) :
    ∃ hm, p = q.withTape m hm := by
  obtain ⟨hsettings, rfl, rfl⟩ := parts_of_load hq
  have hnarrow : { q.settings with tapeSize := m } = { settings with tapeSize := m } := by
    rw [hsettings]
  rw [← hnarrow] at hp
  obtain ⟨usable, tapeSize_le, rfl⟩ := exists_eq_withSettings_of_load hp rfl
  exact ⟨⟨(Settings.check_eq_ok_iff.1 usable).1, tapeSize_le⟩, rfl⟩

/-- The size of the tape matters only through its right end. Take two settings that differ only in it, and
suppose that on the larger tape the head is within the smaller size in every state of the run. Then both
runs give the same result. After every number of steps instruction pointer, head, input, output, count and
reason to stop are the same, the cells of the smaller tape are the first ones of the larger one, and all
others of the larger one are still zero. -/
theorem narrower_tape_of_load (settings : Settings) {source input : Array UInt8} {m n : Nat}
    {p q : Program} (hp : load { settings with tapeSize := m } source input = .ok p)
    (hq : load { settings with tapeSize := n } source input = .ok q) (hle : m ≤ n)
    (hwithin : ∀ k, (q.steps k q.start).tape.head < m) :
    (∃ result,
      interpret { settings with tapeSize := m } source input = .ok result ∧
      interpret { settings with tapeSize := n } source input = .ok result) ∧
    ∀ k : Nat,
      let s := p.steps k p.start
      let t := q.steps k q.start
      s.ip = t.ip ∧
      s.tape.head = t.tape.head ∧
      s.cursor = t.cursor ∧
      s.spool.bytes = t.spool.bytes ∧
      s.executed = t.executed ∧
      p.halt? s = q.halt? t ∧
      s.tape.cells = t.tape.cells.take m ∧
      ∀ i, m ≤ i → i < n → t.tape.cells[i]? = some 0 := by
  have hinterpret := interpret_of_load hp
  have hinterpret' := interpret_of_load hq
  have hsize : q.settings.tapeSize = n := congrArg Settings.tapeSize (parts_of_load hq).1
  obtain ⟨hm, rfl⟩ := exists_eq_withTape_of_load hp hq
  rw [← hsize] at hle
  refine ⟨⟨_, ?_, hinterpret'⟩, fun k => ?_⟩
  · rw [hinterpret, finish_withTape hle hwithin]
  · intro s t
    have hs : s = t.narrow m := steps_withTape hle fun j _ => hwithin j
    rw [hs]
    refine ⟨rfl, rfl, rfl, rfl, rfl, rfl, rfl, fun i hmi hin => ?_⟩
    have hbeyond : t.tape.cells[i]? = q.start.tape.cells[i]? :=
      cells_beyond (fun j _ => hwithin j) hmi
    have hcell : q.start.tape.cells[i]? = some 0 :=
      Array.getElem?_replicate.trans (if_pos (hsize ▸ hin))
    exact hbeyond.trans hcell

/-- The program `>+<.` goes to the last cell of a tape of two cells and back. On a tape of four cells it
does the same, and the last two stay zero. -/
theorem narrower_tape_of_load_at_edge :
    ∃ p q,
      load { tapeSize := 2 } #[0x3e, 0x2b, 0x3c, 0x2e] #[] = .ok p ∧
      load { tapeSize := 4 } #[0x3e, 0x2b, 0x3c, 0x2e] #[] = .ok q ∧
      2 ≤ 4 ∧
      (∀ k, (q.steps k q.start).tape.head < 2) ∧
      (q.steps 2 q.start).tape = ⟨#[0, 1, 0, 0], 1⟩ ∧
      (p.steps 2 p.start).tape.cells = #[0, 1, 0, 0].take 2 ∧
      (p.steps 2 p.start).tape.head = 1 := by
  let p : Program := ⟨{ tapeSize := 2 }, #[0x3e, 0x2b, 0x3c, 0x2e], #[],
    ⟨#[], Array.replicate 4 none, Array.replicate 4 none⟩, rfl, rfl, rfl⟩
  let q : Program := ⟨{ tapeSize := 4 }, #[0x3e, 0x2b, 0x3c, 0x2e], #[],
    ⟨#[], Array.replicate 4 none, Array.replicate 4 none⟩, rfl, rfl, rfl⟩
  have hp : load { tapeSize := 2 } #[0x3e, 0x2b, 0x3c, 0x2e] #[] = .ok p := rfl
  have hq : load { tapeSize := 4 } #[0x3e, 0x2b, 0x3c, 0x2e] #[] = .ok q := rfl
  have hearly : ∀ k < 4, (q.steps k q.start).tape.head < 2 := by decide +kernel
  have hwithin : ∀ k, (q.steps k q.start).tape.head < 2 := by
    intro k
    rcases Nat.lt_or_ge k 4 with hlt | hge
    · exact hearly k hlt
    · rw [steps_eq_of_halted hge (by decide +kernel)]
      decide +kernel
  have htape : (q.steps 2 q.start).tape = ⟨#[0, 1, 0, 0], 1⟩ := by decide +kernel
  obtain ⟨-, hhead, -, -, -, -, hcells, -⟩ :=
    (narrower_tape_of_load {} hp hq (by decide) hwithin).2 2
  rw [htape] at hhead hcells
  exact ⟨p, q, hp, hq, by decide, hwithin, htape, hcells, hhead⟩

end Program

end TapeDebugger
