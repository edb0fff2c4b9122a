-- SUMMARY: What holds of every state that a program reaches: the bounds of tape, source, input, output and count.
import TapeDebugger.Machine.Run
import TapeDebugger.Proofs.Program.Pairing

/-!
# Sound states

`Program.Sound` bounds every part of a state by what the program was loaded with. The first state is
sound, a step keeps it so, and hence every state of a run is. The only part that takes an argument is
the instruction pointer, which a jump sets to a position from the table: a partner stands inside the
source, so what follows it is at most the source's end.
-/

namespace TapeDebugger.Program

/-! ## Loading -/

/-- A program is what loading its own parts gives. -/
theorem load_self (p : Program) : load p.settings p.source p.input = .ok p := by
  unfold load
  split
  · rename_i fault hcheck
    have := p.usable
    rw [hcheck] at this
    cases this
  · split
    · rename_i fault hpaired
      have := p.paired
      rw [hpaired] at this
      cases this
    · rename_i pairing hpaired
      have hp := p.paired
      rw [hpaired] at hp
      cases p
      cases hp
      exact dif_pos _

/-- Loading looks at the settings, then at the brackets, and then at the tape. The first of them that is not as
it has to be decides. -/
theorem load_cases (settings : Settings) (source input : Array UInt8) :
    (∃ fault, settings.check = .error fault ∧ load settings source input = .error fault) ∨
    settings.check = .ok () ∧
      ((∃ fault, Pairing.ofSource settings.bracketCapacity source = .error fault ∧
          load settings source input = .error fault) ∨
        ∃ pairing, Pairing.ofSource settings.bracketCapacity source = .ok pairing ∧
          (settings.tapeSize ≤ Tape.largest ∧ (∃ p, load settings source input = .ok p) ∨
            Tape.largest < settings.tapeSize ∧ load settings source input = .error .tapeTooLong)) := by
  generalize hload : load settings source input = outcome
  unfold load at hload
  split at hload
  · rename_i fault hcheck
    exact .inl ⟨fault, hcheck, hload.symm⟩
  · rename_i usable
    refine .inr ⟨usable, ?_⟩
    split at hload
    · rename_i fault hpaired
      exact .inl ⟨fault, hpaired, hload.symm⟩
    · rename_i pairing paired
      refine .inr ⟨pairing, paired, ?_⟩
      split at hload
      · rename_i allocated
        exact .inl ⟨Tape.isSome_allocate?_iff.1 allocated, _, hload.symm⟩
      · rename_i hlong
        exact .inr ⟨Nat.lt_of_not_le (mt Tape.isSome_allocate?_iff.2 hlong), hload.symm⟩

/-- A source is accepted if the settings are usable, its brackets can be paired and the tape can be
allocated. -/
theorem exists_load_iff {settings : Settings} {source input : Array UInt8} :
    (∃ p, load settings source input = .ok p) ↔
      settings.check = .ok () ∧
      (∃ pairing, Pairing.ofSource settings.bracketCapacity source = .ok pairing) ∧
      settings.tapeSize ≤ Tape.largest := by
  constructor
  · rintro ⟨p, hload⟩
    rcases load_cases settings source input with ⟨fault, -, hfault⟩ | ⟨usable, ⟨fault, -, hfault⟩ |
      ⟨pairing, paired, ⟨hlength, -⟩ | ⟨-, hfault⟩⟩⟩
    · rw [hload] at hfault
      cases hfault
    · rw [hload] at hfault
      cases hfault
    · exact ⟨usable, ⟨pairing, paired⟩, hlength⟩
    · rw [hload] at hfault
      cases hfault
  · rintro ⟨usable, ⟨pairing, paired⟩, hlength⟩
    have allocated := Tape.isSome_allocate?_iff.2 hlength
    exact ⟨_, load_self ⟨settings, source, input, pairing, usable, paired, allocated⟩⟩

/-- What is loaded is a program of the given parts. -/
theorem parts_of_load {settings : Settings} {source input : Array UInt8} {p : Program}
    (h : load settings source input = .ok p) :
    p.settings = settings ∧ p.source = source ∧ p.input = input := by
  obtain ⟨usable, ⟨pairing, paired⟩, hlength⟩ := exists_load_iff.1 ⟨p, h⟩
  have allocated := Tape.isSome_allocate?_iff.2 hlength
  rw [load_self ⟨settings, source, input, pairing, usable, paired, allocated⟩] at h
  cases h
  exact ⟨rfl, rfl, rfl⟩

/-- The same program under other settings, which have to be usable, to allow as many brackets, and to ask
for a tape that can be allocated. -/
def withSettings (p : Program) (settings : Settings) (usable : settings.check = .ok ())
    (capacity_eq : settings.bracketCapacity = p.settings.bracketCapacity)
    (tapeSize_le : settings.tapeSize ≤ Tape.largest) : Program :=
  { p with
    settings, usable
    paired := by rw [capacity_eq]; exact p.paired
    allocated := Tape.isSome_allocate?_iff.2 tapeSize_le }

/-- What is loaded of the parts of a program under such settings is the program under them. -/
theorem exists_eq_withSettings_of_load {p q : Program} {settings : Settings}
    (h : load settings p.source p.input = .ok q)
    (capacity_eq : settings.bracketCapacity = p.settings.bracketCapacity) :
    ∃ usable tapeSize_le, q = p.withSettings settings usable capacity_eq tapeSize_le := by
  obtain ⟨usable, -, tapeSize_le⟩ := exists_load_iff.1 ⟨q, h⟩
  have hself := load_self (p.withSettings settings usable capacity_eq tapeSize_le)
  exact ⟨usable, tapeSize_le, Except.ok.inj (h.symm.trans hself)⟩

/-- Interpreting is loading a program and running it from its start. -/
theorem interpret_of_load {settings : Settings} {source input : Array UInt8} {p : Program}
    (h : load settings source input = .ok p) :
    interpret settings source input = .ok (p.finish p.start) := by
  rw [interpret, h]
  rfl

/-- Interpreting the parts of a program is running it from its start. -/
theorem interpret_self (p : Program) :
    interpret p.settings p.source p.input = .ok (p.finish p.start) :=
  interpret_of_load p.load_self

theorem tapeSize_pos (p : Program) : 0 < p.settings.tapeSize :=
  (Settings.check_eq_ok_iff.1 p.usable).1

theorem tapeSize_le (p : Program) : p.settings.tapeSize ≤ Tape.largest :=
  Tape.isSome_allocate?_iff.1 p.allocated

/-- The tape of the first state is the one that has been allocated. -/
theorem allocate?_tapeSize (p : Program) : Tape.allocate? p.settings.tapeSize = some p.start.tape :=
  Tape.allocate?_of_le p.tapeSize_le

/-! ## Where jumps land -/

theorem landing_closerOf?_le (p : Program) (i : Nat) :
    p.landing (p.pairing.closerOf? i) ≤ p.source.size := by
  cases hj : p.pairing.closerOf? i with
  | none => exact Nat.le_refl _
  | some j => exact ((Pairing.closerOf?_iff_partners p.paired i j).1 hj).lt_size

theorem landing_openerOf?_le (p : Program) (j : Nat) :
    p.landing (p.pairing.openerOf? j) ≤ p.source.size := by
  cases hi : p.pairing.openerOf? j with
  | none => exact Nat.le_refl _
  | some i =>
    have hp := (Pairing.openerOf?_iff_partners p.paired i j).1 hi
    exact Nat.lt_trans hp.lt hp.lt_size

/-! ## Sound states -/

/-- Every part of a state is within the bounds that the program sets. -/
structure Sound (p : Program) (s : State) : Prop where
  size_tape : s.tape.size = p.settings.tapeSize
  head_lt : s.tape.head < p.settings.tapeSize
  ip_le : s.ip ≤ p.source.size
  cursor_le : s.cursor ≤ p.input.size
  capacity_eq : s.spool.capacity = p.settings.outputCapacity
  written_le : s.spool.bytes.size ≤ s.spool.limit
  executed_le : s.executed ≤ p.settings.instructionLimit

variable {p : Program} {s : State}

theorem sound_start (p : Program) : p.Sound p.start where
  size_tape := Tape.size_blank _
  head_lt := p.tapeSize_pos
  ip_le := Nat.zero_le _
  cursor_le := Nat.zero_le _
  capacity_eq := rfl
  written_le := Nat.zero_le _
  executed_le := Nat.zero_le _

theorem Sound.head_lt_size (h : p.Sound s) : s.tape.head < s.tape.size := by
  rw [h.size_tape]
  exact h.head_lt

theorem Sound.head_moveRight_lt (h : p.Sound s) : s.tape.moveRight.head < p.settings.tapeSize := by
  rw [Tape.head_moveRight _ h.head_lt_size, h.size_tape]
  have := p.tapeSize_pos
  omega

/-- What an instruction does leaves all bounds as they are. -/
theorem Sound.perform (h : p.Sound s) (hip : s.ip < p.source.size) (i : Option Instruction) :
    p.Sound (p.perform s i) := by
  have hnext : s.ip + 1 ≤ p.source.size := hip
  cases i with
  | none => exact { h with ip_le := hnext }
  | some i =>
    cases i with
    | moveRight =>
      exact { h with
        size_tape := (Tape.size_moveRight _).trans h.size_tape
        head_lt := h.head_moveRight_lt
        ip_le := hnext }
    | moveLeft =>
      exact { h with
        head_lt := Nat.lt_of_le_of_lt (Nat.sub_le _ _) h.head_lt
        ip_le := hnext }
    | increment | decrement | clear =>
      exact { h with
        size_tape := (Tape.size_put _ _).trans h.size_tape
        ip_le := hnext }
    | input =>
      exact { h with
        size_tape := (Tape.size_put _ _).trans h.size_tape
        ip_le := hnext
        cursor_le := Nat.min_le_right _ _ }
    | output =>
      exact { h with
        ip_le := hnext
        capacity_eq := (Spool.capacity_push _ _).trans h.capacity_eq
        written_le := Spool.size_push_le h.written_le _ }
    | loopOpen =>
      refine { h with ip_le := ?_ }
      simp only [Program.perform]
      split
      · exact p.landing_closerOf?_le s.ip
      · exact hnext
    | loopClose =>
      refine { h with ip_le := ?_ }
      simp only [Program.perform]
      split
      · exact hnext
      · exact p.landing_openerOf?_le s.ip

theorem Sound.execute (h : p.Sound s) (hs : p.halted s = false) : p.Sound (p.execute s) := by
  obtain ⟨-, hlimit, hip⟩ := halted_eq_false_iff.1 hs
  have hperform := h.perform hip (p.instructionAt? s.ip)
  refine { hperform with executed_le := ?_ }
  rw [executed_execute]
  exact hlimit

theorem Sound.step (h : p.Sound s) : p.Sound (p.step s) := by
  cases hs : p.halted s with
  | true => rw [step_of_halted hs]; exact h
  | false => rw [step_of_not_halted (by simp [hs])]; exact h.execute hs

/-- Every state of a run from a sound state is sound. -/
theorem Sound.steps (h : p.Sound s) (n : Nat) : p.Sound (p.steps n s) := by
  induction n generalizing s with
  | zero => exact h
  | succ n ih => exact ih h.step

theorem sound_steps (p : Program) (n : Nat) : p.Sound (p.steps n p.start) :=
  (sound_start p).steps n

theorem sound_run (p : Program) : p.Sound (p.run p.start) := by
  rw [run_eq_steps]
  exact p.sound_steps _

theorem Sound.limit_spool (h : p.Sound s) :
    s.spool.limit = max 1 (p.settings.outputCapacity - 1) := by
  rw [Spool.limit, h.capacity_eq]

end TapeDebugger.Program
