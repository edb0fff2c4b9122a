-- SUMMARY: A program and the one whose source has texts in place of bytes: a byte that is kept does the same in both.
import TapeDebugger.Proofs.Machine.Sound
import TapeDebugger.Proofs.Machine.Steps
import TapeDebugger.Proofs.Program.Substitution

/-!
# Programs after a substitution

`Program.Substitutes` relates a program to the one whose source is the image of a substitution. The
states of the two have different positions and counts (`State.placed`) and may be the same in all
else. A byte that the substitution keeps leads from such a pair of states to another
(`Substitutes.execute_placed`). For jumps this is so because partners stay partners; a jump without a
partner leads to the end of either source.
-/

namespace TapeDebugger

open TapeDebugger.Bracket

/-- The same state at the place of its position, with another count. -/
def State.placed (s : State) (σ : Substitution) (p : Program) (count : Nat) : State :=
  { s with ip := σ.place p.source.toList s.ip, executed := count }

namespace Program

/-- The source of one program is that of another with texts in place of bytes. The rest is the same,
but for the capacity for brackets and the limit of instructions. -/
structure Substitutes (p : Program) (σ : Substitution) (q : Program) : Prop where
  source_eq : q.source.toList = σ.image p.source.toList
  input_eq : q.input = p.input
  settings_eq : q.settings =
    { p.settings with
      bracketCapacity := q.settings.bracketCapacity
      instructionLimit := q.settings.instructionLimit }

/-- Two programs stop for the same reason, with the same output, tape and rest of the input. -/
structure EndsAlike (p q : Program) : Prop where
  halt_eq : (p.finish p.start).halt = (q.finish q.start).halt
  output_eq : (p.finish p.start).output = (q.finish q.start).output
  cells_eq : (p.run p.start).tape.cells = (q.run q.start).tape.cells
  head_eq : (p.run p.start).tape.head = (q.run q.start).tape.head
  cursor_eq : (p.run p.start).cursor = (q.run q.start).cursor

namespace Substitutes

variable {p q : Program} {σ : Substitution} {s : State} {byte : UInt8} {count i j : Nat}

theorem size_source (h : p.Substitutes σ q) :
    q.source.size = σ.place p.source.toList p.source.size := by
  rw [← Array.length_toList, h.source_eq, ← Array.length_toList, Substitution.place_length]

/-- Past the end of the source is past the end of its image. -/
theorem lt_size_of_place_lt (h : p.Substitutes σ q)
    (hi : σ.place p.source.toList i < q.source.size) : i < p.source.size := by
  rw [h.size_source] at hi
  exact Substitution.lt_of_place_add_lt (o := 0) hi

/-- The text for a byte stands within the image. -/
theorem place_add_lt_size (h : p.Substitutes σ q) (hbyte : p.source[i]? = some byte)
    {o : Nat} (ho : o < (σ.replace byte).length) :
    σ.place p.source.toList i + o < q.source.size := by
  have htarget := Substitution.getElem?_target h.source_eq (Array.getElem?_toList ▸ hbyte) ho
  rw [List.getElem?_eq_getElem ho] at htarget
  exact (Array.getElem?_eq_some_iff.1 htarget).1

/-! ## Jumps -/

theorem landing_map (h : p.Substitutes σ q) {partner : Option Nat}
    (hkept : ∀ j, partner = some j →
      σ.place p.source.toList (j + 1) = σ.place p.source.toList j + 1) :
    q.landing (partner.map (σ.place p.source.toList)) =
      σ.place p.source.toList (p.landing partner) := by
  cases partner with
  | none => exact h.size_source
  | some j => exact (hkept j rfl).symm

theorem landing_closerOf? (h : p.Substitutes σ q) (hopen : p.source[i]? = some opening) :
    q.landing (q.pairing.closerOf? (σ.place p.source.toList i)) =
      σ.place p.source.toList (p.landing (p.pairing.closerOf? i)) := by
  rw [Substitution.closerOf?_place h.source_eq p.paired q.paired hopen]
  apply h.landing_map
  intro j hj
  have hclose := ((Pairing.closerOf?_iff_partners p.paired i j).1 hj).getElem?_closer
  rw [← Array.getElem?_toList] at hclose
  exact Substitution.place_succ_of_kept hclose σ.replace_closing

theorem landing_openerOf? (h : p.Substitutes σ q) (hclose : p.source[j]? = some closing) :
    q.landing (q.pairing.openerOf? (σ.place p.source.toList j)) =
      σ.place p.source.toList (p.landing (p.pairing.openerOf? j)) := by
  rw [Substitution.openerOf?_place h.source_eq p.paired q.paired hclose]
  apply h.landing_map
  intro i hi
  have hopen := ((Pairing.openerOf?_iff_partners p.paired i j).1 hi).getElem?_opener
  rw [← Array.getElem?_toList] at hopen
  exact Substitution.place_succ_of_kept hopen σ.replace_opening

/-! ## Bytes that are kept -/

theorem instructionAt?_place (h : p.Substitutes σ q) (hbyte : p.source[i]? = some byte)
    (hkept : σ.replace byte = [byte]) :
    q.instructionAt? (σ.place p.source.toList i) = p.instructionAt? i := by
  have htarget : q.source[σ.place p.source.toList i]? = some byte :=
    Substitution.getElem?_target_of_kept h.source_eq (Array.getElem?_toList ▸ hbyte) hkept
  rw [instructionAt?_of_getElem? htarget, instructionAt?_of_getElem? hbyte, h.settings_eq]

theorem written_eq (h : p.Substitutes σ q) (value : UInt8) : q.written value = p.written value := by
  rw [written, written, h.settings_eq]

theorem perform_placed (h : p.Substitutes σ q) (hbyte : p.source[s.ip]? = some byte)
    (hkept : σ.replace byte = [byte]) (count : Nat) :
    q.perform (s.placed σ p count) (p.instructionAt? s.ip) =
      (p.perform s (p.instructionAt? s.ip)).placed σ p count := by
  have hnext : σ.place p.source.toList (s.ip + 1) = σ.place p.source.toList s.ip + 1 :=
    Substitution.place_succ_of_kept (Array.getElem?_toList ▸ hbyte) hkept
  have hinstr := instructionAt?_of_getElem? hbyte
  cases hi : p.instructionAt? s.ip with
  | none => simp only [perform, State.placed, hnext]
  | some instruction =>
    rw [hi] at hinstr
    cases instruction with
    | input =>
      simp only [perform, State.placed, nextInput, h.input_eq, hnext]
    | output =>
      simp only [perform, State.placed, h.written_eq, hnext]
    | loopOpen =>
      have hjump := h.landing_closerOf? (eq_opening_of_ofByte? hinstr.symm ▸ hbyte)
      simp only [perform, State.placed, hjump, ← hnext, ← apply_ite]
    | loopClose =>
      have hjump := h.landing_openerOf? (eq_closing_of_ofByte? hinstr.symm ▸ hbyte)
      simp only [perform, State.placed, hjump, ← hnext, ← apply_ite]
    | _ => simp only [perform, State.placed, hnext]

/-- A byte that is kept does the same as before. -/
theorem execute_placed (h : p.Substitutes σ q) (hbyte : p.source[s.ip]? = some byte)
    (hkept : σ.replace byte = [byte]) (count : Nat) :
    q.execute (s.placed σ p count) = (p.execute s).placed σ p (count + 1) := by
  have hinstr : q.instructionAt? (s.placed σ p count).ip = p.instructionAt? s.ip :=
    h.instructionAt?_place hbyte hkept
  rw [execute, hinstr, h.perform_placed hbyte hkept]
  rfl

/-- Both runs begin alike. -/
theorem start_eq (h : p.Substitutes σ q) : q.start = p.start.placed σ p 0 := by
  rw [start, h.settings_eq]
  rfl

/-- Runs whose last states are placed alike, and which stop for the same reason, end alike. -/
theorem endsAlike_of_placed {reason : Halt} (hp : p.halt? (p.run p.start) = some reason)
    (hq : q.halt? (q.run q.start) = some reason)
    (hrun : q.run q.start = (p.run p.start).placed σ p count) : p.EndsAlike q where
  halt_eq := (halt_finish_iff.2 hp).trans (halt_finish_iff.2 hq).symm
  output_eq := congrArg (fun s => s.spool.bytes) hrun.symm
  cells_eq := congrArg (fun s => s.tape.cells) hrun.symm
  head_eq := congrArg (fun s => s.tape.head) hrun.symm
  cursor_eq := congrArg (fun s => s.cursor) hrun.symm

end Substitutes

end Program

end TapeDebugger
