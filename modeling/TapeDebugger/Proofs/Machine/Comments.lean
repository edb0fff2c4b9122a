-- SUMMARY: Comments make no difference: without them a program is accepted alike, and its run ends alike after fewer steps.
import TapeDebugger.Proofs.Machine.Substitution

/-!
# Comments

A source without its comments is a substitution that writes nothing in their place. Comments are no
brackets, so the scan that pairs the brackets meets the same ones, at other positions, and needs as
many slots (`Scan.Alike`). In a run a comment only moves on to the next byte, and the place of that byte
is the place of the comment. So the run without comments is in the same states, at their places, after
so many fewer steps as comments have been executed (`Substitutes.exists_steps_placed`).
-/

namespace TapeDebugger

open TapeDebugger.Bracket

/-! ## Sources without comments -/

namespace Instruction

/-- Whether a byte stands for an instruction. -/
def isSymbol (zeroClears : Bool) (byte : UInt8) : Bool := (ofByte? zeroClears byte).isSome

theorem isSymbol_opening (zeroClears : Bool) : isSymbol zeroClears opening = true := rfl

theorem isSymbol_closing (zeroClears : Bool) : isSymbol zeroClears closing = true := rfl

end Instruction

open Instruction (isSymbol isSymbol_opening isSymbol_closing)

/-- The source without its comments. -/
def withoutComments (zeroClears : Bool) (source : Array UInt8) : Array UInt8 :=
  source.filter (isSymbol zeroClears)

/-- Nothing in place of a comment. -/
def Substitution.omitting (zeroClears : Bool) : Substitution where
  replace byte := if isSymbol zeroClears byte then [byte] else []
  replace_opening := rfl
  replace_closing := rfl
  code_replace byte ho hc := by
    split
    · exact ⟨.byte ⟨byte, ho, hc⟩ .nil, rfl⟩
    · exact ⟨.nil, rfl⟩

namespace Substitution

variable {zeroClears : Bool} {byte : UInt8}

theorem omitting_of_isSymbol (h : isSymbol zeroClears byte = true) :
    (omitting zeroClears).replace byte = [byte] :=
  if_pos h

theorem omitting_of_comment (h : isSymbol zeroClears byte = false) :
    (omitting zeroClears).replace byte = [] :=
  if_neg (by simp [h])

theorem image_omitting (zeroClears : Bool) (text : List UInt8) :
    (omitting zeroClears).image text = text.filter (isSymbol zeroClears) := by
  induction text with
  | nil => rfl
  | cons byte text ih =>
    rw [image, List.flatMap_cons, ← image, ih]
    cases h : isSymbol zeroClears byte with
    | true => rw [omitting_of_isSymbol h, List.filter_cons_of_pos h, List.singleton_append]
    | false => rw [omitting_of_comment h, List.filter_cons_of_neg (by simp [h]), List.nil_append]

/-- The byte behind a comment has the comment's place. -/
theorem place_succ_of_comment {text : List UInt8} {i : Nat} (hbyte : text[i]? = some byte)
    (h : isSymbol zeroClears byte = false) :
    (omitting zeroClears).place text (i + 1) = (omitting zeroClears).place text i := by
  rw [place_succ hbyte, omitting_of_comment h, List.length_nil, Nat.add_zero]

end Substitution

open Substitution (omitting)

/-! ## Acceptance -/

namespace Pairing

/-- Two scans need as many slots, and as many brackets wait. -/
structure Scan.Alike (s t : Scan) : Prop where
  needed_eq : t.needed = s.needed
  waiting_eq : t.waiting.length = s.waiting.length

variable {s t : Scan} {capacity : Nat}

/-- Scans stay alike wherever the next byte stands. -/
theorem Scan.Alike.read (h : s.Alike t) (i j : Nat) (byte : UInt8) :
    (s.read i byte).Alike (t.read j byte) := by
  obtain ⟨hneeded, hwaiting⟩ := h
  unfold Scan.read
  split
  · exact ⟨congrArg (· + 1) hneeded, congrArg (· + 1) hwaiting⟩
  · split
    · cases hs : s.waiting with
      | nil =>
        have ht : t.waiting = [] := List.length_eq_zero_iff.1 (by rw [hwaiting, hs]; rfl)
        rw [ht]
        exact ⟨congrArg (· + 1) hneeded, rfl⟩
      | cons opener outer =>
        rw [hs, List.length_cons] at hwaiting
        obtain ⟨opener', outer', ht⟩ := List.exists_cons_of_length_eq_add_one hwaiting
        rw [ht, List.length_cons] at hwaiting
        rw [ht]
        exact ⟨hneeded, Nat.succ.inj hwaiting⟩
    · exact ⟨hneeded, hwaiting⟩

/-- A comment is passed over. -/
theorem Scan.read_comment {zeroClears : Bool} {byte : UInt8}
    (h : isSymbol zeroClears byte = false) (s : Scan) (i : Nat) : s.read i byte = s := by
  have ho : byte ≠ opening := fun heq => by simp [heq, isSymbol_opening] at h
  have hc : byte ≠ closing := fun heq => by simp [heq, isSymbol_closing] at h
  rw [Scan.read, if_neg ho, if_neg hc]

/-- Whether a scan gets through does not depend on comments. -/
theorem Scan.exists_readAll_filter_iff (zeroClears : Bool) (text : List UInt8) (i j : Nat)
    (h : s.Alike t) (hfits : s.needed ≤ capacity) :
    (∃ last, readAll capacity (text.filter (isSymbol zeroClears)) j t = .ok last) ↔
      ∃ last, readAll capacity text i s = .ok last := by
  induction text generalizing i j s t with
  | nil => exact ⟨fun _ => ⟨s, rfl⟩, fun _ => ⟨t, rfl⟩⟩
  | cons byte text ih =>
    cases hbyte : isSymbol zeroClears byte with
    | true =>
      have hnext := h.read i j byte
      rw [List.filter_cons_of_pos hbyte, readAll, readAll]
      simp only [hnext.needed_eq]
      split
      · simp
      · exact ih (i + 1) (j + 1) hnext (by omega)
    | false =>
      rw [List.filter_cons_of_neg (by simp [hbyte]), readAll]
      simp only [read_comment hbyte]
      rw [if_neg (by omega)]
      exact ih (i + 1) j h hfits

theorem exists_ofSource_iff {source : Array UInt8} :
    (∃ p, ofSource capacity source = .ok p) ↔
      ∃ s, Scan.readAll capacity source.toList 0 {} = .ok s := by
  constructor
  · rintro ⟨p, hp⟩
    obtain ⟨s, hs, -⟩ := exists_scan hp
    exact ⟨s, hs⟩
  · rintro ⟨s, hs⟩
    exact ⟨_, by rw [ofSource, hs]; rfl⟩

end Pairing

namespace Program

variable {p q : Program} {s : State} {byte : UInt8}

/-- A source is accepted with its comments exactly when it is accepted without. -/
theorem exists_load_withoutComments_iff (settings : Settings) (source input : Array UInt8) :
    (∃ p, load settings source input = .ok p) ↔
      ∃ q, load settings (withoutComments settings.zeroClears source) input = .ok q := by
  have hscan := Pairing.Scan.exists_readAll_filter_iff settings.zeroClears source.toList 0 0 (s := {})
    (t := {}) ⟨rfl, rfl⟩ (Nat.zero_le settings.bracketCapacity)
  rw [← Array.toList_filter] at hscan
  rw [exists_load_iff, exists_load_iff, Pairing.exists_ofSource_iff, Pairing.exists_ofSource_iff]
  exact and_congr_right' (and_congr_left' hscan.symm)

/-! ## Runs -/

theorem instructionAt?_eq_none_iff (hbyte : p.source[s.ip]? = some byte) :
    p.instructionAt? s.ip = none ↔ isSymbol p.settings.zeroClears byte = false := by
  rw [instructionAt?_of_getElem? hbyte, isSymbol, Option.isSome_eq_false_iff, Option.isNone_iff_eq_none]

namespace Substitutes

/-- A comment leaves the place of the state as it is. -/
theorem placed_execute_comment (hbyte : p.source[s.ip]? = some byte)
    (hcomment : isSymbol p.settings.zeroClears byte = false) (count : Nat) :
    (p.execute s).placed (omitting p.settings.zeroClears) p count =
      s.placed (omitting p.settings.zeroClears) p count := by
  have hinstr := (instructionAt?_eq_none_iff hbyte).2 hcomment
  have hplace := Substitution.place_succ_of_comment (Array.getElem?_toList ▸ hbyte) hcomment
  simp only [execute, hinstr, perform, State.placed, hplace]

/-- Where an instruction comes next and the run goes on, the run without comments does too. -/
theorem halted_placed_eq_false (h : p.Substitutes (omitting p.settings.zeroClears) q)
    (hlimit : q.settings.instructionLimit = p.settings.instructionLimit)
    (hs : p.halted s = false) (hbyte : p.source[s.ip]? = some byte)
    (hsymbol : isSymbol p.settings.zeroClears byte = true) {count : Nat}
    (hcount : count ≤ s.executed) :
    q.halted (s.placed (omitting p.settings.zeroClears) p count) = false := by
  obtain ⟨hroom, hbelow, -⟩ := halted_eq_false_iff.1 hs
  have hplace := h.place_add_lt_size hbyte (o := 0) (by
    rw [Substitution.omitting_of_isSymbol hsymbol]
    exact Nat.one_pos)
  refine halted_eq_false_iff.2 ⟨hroom, ?_, hplace⟩
  rw [hlimit]
  exact Nat.lt_of_le_of_lt hcount hbelow

/-- As long as a run lasts, the one without comments is at the place of its state, and so many steps
behind as comments have been executed. -/
theorem exists_steps_placed (h : p.Substitutes (omitting p.settings.zeroClears) q)
    (hlimit : q.settings.instructionLimit = p.settings.instructionLimit) {k : Nat}
    (hk : k ≤ p.lastStep p.start) :
    ∃ n, n + p.executions none k p.start = k ∧
      q.steps n q.start = (p.steps k p.start).placed (omitting p.settings.zeroClears) p n := by
  induction k with
  | zero => exact ⟨0, rfl, h.start_eq⟩
  | succ k ih =>
    obtain ⟨n, hn, hsteps⟩ := ih (Nat.le_of_lt hk)
    have hgoes : p.halted (p.steps k p.start) = false := halted_steps_eq_false_iff.2 hk
    obtain ⟨byte, hbyte⟩ : ∃ byte, p.source[(p.steps k p.start).ip]? = some byte :=
      ⟨_, Array.getElem?_eq_getElem (halted_eq_false_iff.1 hgoes).2.2⟩
    rw [steps_succ, step_of_halted_eq_false hgoes, executions_succ]
    cases hsymbol : isSymbol p.settings.zeroClears byte with
    | false =>
      rw [if_pos ⟨hgoes, (instructionAt?_eq_none_iff hbyte).2 hsymbol⟩]
      refine ⟨n, by omega, ?_⟩
      rw [hsteps, placed_execute_comment hbyte hsymbol]
    | true =>
      rw [if_neg fun hnone => by simp [(instructionAt?_eq_none_iff hbyte).1 hnone.2] at hsymbol]
      have hexecuted : (p.steps k p.start).executed = 0 + k := executed_steps_of_le (Nat.le_of_lt hk)
      have hbehind : n ≤ (p.steps k p.start).executed := by omega
      have hgoes' := h.halted_placed_eq_false hlimit hgoes hbyte hsymbol hbehind
      refine ⟨n + 1, by omega, ?_⟩
      rw [steps_succ, hsteps, step_of_halted_eq_false hgoes',
        h.execute_placed hbyte (Substitution.omitting_of_isSymbol hsymbol)]

/-- Where a run stops with the source or with its output full, the run without comments stops too. -/
theorem halt?_placed (h : p.Substitutes (omitting p.settings.zeroClears) q)
    (hlimit : q.settings.instructionLimit = p.settings.instructionLimit) (hsound : p.Sound s)
    {reason : Halt} (hreason : reason = .sourceEnded ∨ reason = .outputFull)
    (hhalt : p.halt? s = some reason) {count : Nat} (hcount : count ≤ s.executed) :
    q.halt? (s.placed (omitting p.settings.zeroClears) p count) = some reason := by
  rcases hreason with rfl | rfl
  · obtain ⟨hroom, hbelow, hend⟩ := halt?_eq_sourceEnded_iff.1 hhalt
    have hip : s.ip = p.source.size := Nat.le_antisymm hsound.ip_le hend
    refine halt?_eq_sourceEnded_iff.2 ⟨hroom, ?_, ?_⟩
    · rw [hlimit]
      exact Nat.lt_of_le_of_lt hcount hbelow
    · rw [h.size_source, ← hip]
      exact Nat.le_refl _
  · have hfull : s.spool.isFull = true := halt?_eq_outputFull_iff.1 hhalt
    exact halt?_eq_outputFull_iff.2 hfull

/-- A run that ends with the source or with its output full ends alike without the comments, and so many
steps earlier as it has executed comments. -/
theorem endsAlike_of_omitting (h : p.Substitutes (omitting p.settings.zeroClears) q)
    (hlimit : q.settings.instructionLimit = p.settings.instructionLimit) {reason : Halt}
    (hreason : reason = .sourceEnded ∨ reason = .outputFull)
    (hhalt : p.halt? (p.run p.start) = some reason) :
    p.EndsAlike q ∧ (q.run q.start).executed +
      p.executions none (p.run p.start).executed p.start = (p.run p.start).executed := by
  obtain ⟨n, hn, hsteps⟩ := h.exists_steps_placed hlimit (Nat.le_refl _)
  rw [← run_eq_steps_lastStep] at hsteps
  rw [← executed_run_start] at hn
  have hbehind : n ≤ (p.run p.start).executed := by omega
  have hhalt' := h.halt?_placed hlimit p.sound_run hreason hhalt hbehind
  have hrun : q.run q.start = (p.run p.start).placed (omitting p.settings.zeroClears) p n := by
    rw [← hsteps]
    apply run_eq_of_halted
    rw [hsteps, halted, hhalt']
    rfl
  refine ⟨endsAlike_of_placed hhalt (hrun ▸ hhalt') hrun, ?_⟩
  rw [hrun]
  exact hn

end Substitutes

/-- Comments make no difference, whatever the brackets around them. A source is accepted with its
comments exactly when it is accepted without. A run that ends with the source or with its output full
ends without them for the same reason, with the same output, tape and rest of the input, and its count
is less by the number of comments executed. -/
theorem endsAlike_withoutComments (settings : Settings) (source input : Array UInt8) :
    ((∃ p, load settings source input = .ok p) ↔
      ∃ q, load settings (withoutComments settings.zeroClears source) input = .ok q) ∧
    ∀ p, load settings source input = .ok p →
      (p.finish p.start).halt = .sourceEnded ∨ (p.finish p.start).halt = .outputFull →
      ∃ q, load settings (withoutComments settings.zeroClears source) input = .ok q ∧
        p.EndsAlike q ∧
        (q.finish q.start).executed + p.executions none (p.finish p.start).executed p.start =
          (p.finish p.start).executed := by
  have haccepted := exists_load_withoutComments_iff settings source input
  refine ⟨haccepted, fun p hp hreason => ?_⟩
  obtain ⟨q, hq⟩ := haccepted.1 ⟨p, hp⟩
  obtain ⟨rfl, rfl, rfl⟩ := parts_of_load hp
  obtain ⟨hsettings, hsource, hinput⟩ := parts_of_load hq
  have hsubstitutes : p.Substitutes (omitting p.settings.zeroClears) q := by
    refine ⟨?_, hinput, hsettings ▸ rfl⟩
    rw [hsource, Substitution.image_omitting, withoutComments, Array.toList_filter]
  exact ⟨q, hq, hsubstitutes.endsAlike_of_omitting (congrArg _ hsettings) hreason
    (halt_finish_iff.1 rfl)⟩

/-- The run of `++[!-]0.]`, where `0` is a comment, passes two breakpoints and that comment on its twelve
steps. So `++[-].]` ends alike after nine. -/
theorem endsAlike_withoutComments_of_breakpoint :
    ∃ p q,
      Program.load { tapeSize := 1, instructionLimit := 20 }
        #[0x2b, 0x2b, 0x5b, 0x21, 0x2d, 0x5d, 0x30, 0x2e, 0x5d] #[] = .ok p ∧
      Program.load { tapeSize := 1, instructionLimit := 20 }
        #[0x2b, 0x2b, 0x5b, 0x2d, 0x5d, 0x2e, 0x5d] #[] = .ok q ∧
      (p.finish p.start).executed = 12 ∧
      (p.finish p.start).halt = .sourceEnded ∧
      p.EndsAlike q ∧
      (q.finish q.start).executed = 9 := by
  let p : Program := ⟨{ tapeSize := 1, instructionLimit := 20 },
    #[0x2b, 0x2b, 0x5b, 0x21, 0x2d, 0x5d, 0x30, 0x2e, 0x5d], #[],
    ⟨#[⟨some 2, some 5⟩, ⟨none, some 8⟩],
      #[none, none, some 5, none, none, none, none, none, none],
      #[none, none, none, none, none, some 2, none, none, none]⟩, rfl, rfl, rfl⟩
  have hbare : withoutComments false p.source = #[0x2b, 0x2b, 0x5b, 0x2d, 0x5d, 0x2e, 0x5d] := by
    decide
  have hexecuted : (p.finish p.start).executed = 12 := by decide +kernel
  have hcomments : p.executions none 12 p.start = 3 := by decide +kernel
  have hhalt : (p.finish p.start).halt = .sourceEnded := by decide +kernel
  obtain ⟨q, hq, halike, hcount⟩ :=
    (endsAlike_withoutComments p.settings p.source p.input).2 p rfl (.inl hhalt)
  rw [hexecuted, hcomments] at hcount
  exact ⟨p, q, rfl, hbare ▸ hq, hexecuted, hhalt, halike, Nat.add_right_cancel hcount⟩

end Program

end TapeDebugger
