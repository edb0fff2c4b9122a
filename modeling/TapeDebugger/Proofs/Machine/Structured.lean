-- SUMMARY: The jumping machine does what structured evaluation says, and nothing else as long as the limits hold.
import TapeDebugger.Proofs.Machine.Evaluation
import TapeDebugger.Proofs.Machine.Sound
import TapeDebugger.Proofs.Machine.Steps

/-!
# Structured loops by jumps

`Program.Realizes` compares the machine with a relation on a stretch of the source, in both
directions: what the relation leads to within the limits is where the machine gets at the end of the
stretch, and a run that ends with the source has come to the end of the stretch before. It holds of a
single byte, of two stretches in a row, of a choice between two, and of a loop around a stretch.
Hence it holds of all code and of whole outlines with their evaluation.
-/

namespace TapeDebugger

/-! ## One byte of the machine -/

namespace Program

variable {p : Program} {s t : Store} {i j k : Nat}

theorem isFull_stateAt : (s.stateAt p i).spool.isFull = false ↔
    s.output.size < max 1 (p.settings.outputCapacity - 1) := by
  rw [Spool.isFull, decide_eq_false_iff_not, Nat.not_le]
  rfl

theorem halted_stateAt_eq_false_iff : p.halted (s.stateAt p i) = false ↔
    s.Within p ∧ i < p.source.size := by
  rw [halted_eq_false_iff, isFull_stateAt, Store.Within]
  constructor
  · rintro ⟨hroom, hlimit, hi⟩
    exact ⟨⟨hlimit, hroom⟩, hi⟩
  · rintro ⟨⟨hlimit, hroom⟩, hi⟩
    exact ⟨hroom, hlimit, hi⟩

theorem halt?_stateAt_size : p.halt? (s.stateAt p p.source.size) = some .sourceEnded ↔
    s.Within p := by
  rw [halt?_eq_sourceEnded_iff, isFull_stateAt, Store.Within]
  constructor
  · rintro ⟨hroom, hlimit, -⟩
    exact ⟨hlimit, hroom⟩
  · rintro ⟨hlimit, hroom⟩
    exact ⟨hroom, hlimit, Nat.le_refl _⟩

theorem halted_stateAt_size : p.halted (s.stateAt p p.source.size) = true := by
  rw [← Bool.not_eq_false, halted_stateAt_eq_false_iff]
  exact fun h => Nat.lt_irrefl _ h.2

theorem execute_plain {byte : UInt8} (h : p.source[i]? = some byte)
    (ho : byte ≠ Bracket.opening) (hc : byte ≠ Bracket.closing) (hw : s.Within p) :
    p.execute (s.stateAt p i) = (s.plain p byte).stateAt p (i + 1) := by
  have hinstr : p.instructionAt? (s.stateAt p i).ip = _ := instructionAt?_of_getElem? h
  have hroom := (isFull_stateAt (i := i)).2 hw.2
  rw [execute, hinstr, Store.plain]
  cases hi : Instruction.ofByte? p.settings.zeroClears byte with
  | none => rfl
  | some instruction =>
    cases instruction with
    | loopOpen => exact absurd (eq_opening_of_ofByte? hi) ho
    | loopClose => exact absurd (eq_closing_of_ofByte? hi) hc
    | output =>
      have hpush : (s.stateAt p i).spool.push (p.written s.tape.cell) =
          { capacity := p.settings.outputCapacity
            bytes := s.output.push (p.written s.tape.cell) } := by
        rw [Spool.push, hroom]
        rfl
      simp only [perform]
      rw [show (s.stateAt p i).tape.cell = s.tape.cell from rfl, hpush]
      rfl
    | _ => rfl

/-- Where a loop goes on after either of its brackets: behind it on a zero, else with its body. -/
def resume (i j : Nat) (s : Store) : Nat := if s.tape.cell = 0 then j + 1 else i + 1

theorem execute_opener (h : Bracket.Partners p.source i j) :
    p.execute (s.stateAt p i) = s.tick.stateAt p (resume i j s) := by
  have hinstr := instructionAt?_opening h.getElem?_opener
  have hpartner := (Pairing.closerOf?_iff_partners p.paired i j).2 h
  simp only [execute, Store.stateAt, hinstr, perform, hpartner, landing, resume, Store.tick]

theorem execute_closer (h : Bracket.Partners p.source i j) :
    p.execute (s.stateAt p j) = s.tick.stateAt p (resume i j s) := by
  have hinstr := instructionAt?_closing h.getElem?_closer
  have hpartner := (Pairing.openerOf?_iff_partners p.paired i j).2 h
  simp only [execute, Store.stateAt, hinstr, perform, hpartner, landing, resume, Store.tick]

theorem execute_loneClose (hbyte : p.source[i]? = some Bracket.closing)
    (halone : p.pairing.openerOf? i = none) :
    p.execute (s.stateAt p i) =
      s.tick.stateAt p (if s.tape.cell = 0 then i + 1 else p.source.size) := by
  have hinstr := instructionAt?_closing hbyte
  simp only [execute, Store.stateAt, hinstr, perform, halone, landing, Store.tick]

theorem execute_loneOpen (hbyte : p.source[i]? = some Bracket.opening)
    (halone : p.pairing.closerOf? i = none) :
    p.execute (s.stateAt p i) =
      s.tick.stateAt p (if s.tape.cell = 0 then p.source.size else i + 1) := by
  have hinstr := instructionAt?_opening hbyte
  simp only [execute, Store.stateAt, hinstr, perform, halone, landing, Store.tick]

open Outline in
/-- The pairing has no partner for a closing bracket that is alone in the outline. -/
theorem openerOf?_loneClose {before after : List Item}
    (h : p.source.toList = bytes before ++ Bracket.closing :: bytes after)
    (hord : Ordered (before ++ .loneClose :: after)) :
    p.pairing.openerOf? (bytes before).length = none := by
  rw [Option.eq_none_iff_forall_ne_some]
  intro k hk
  exact hord.not_partners_loneClose h k ((Pairing.openerOf?_iff_partners p.paired k _).1 hk)

open Outline in
/-- The pairing has no partner for an opening bracket that is alone in the outline. -/
theorem closerOf?_loneOpen {before after : List Item}
    (h : p.source.toList = bytes before ++ Bracket.opening :: bytes after)
    (hord : Ordered (before ++ .loneOpen :: after)) :
    p.pairing.closerOf? (bytes before).length = none := by
  rw [Option.eq_none_iff_forall_ne_some]
  intro k hk
  exact hord.not_partners_loneOpen h k ((Pairing.closerOf?_iff_partners p.paired _ k).1 hk)

/-! ## Stretches of the source -/

/-- So many steps lead to the end of the source. -/
def Exhausts (p : Program) (n : Nat) (x : State) : Prop :=
  p.halt? (p.steps n x) = some .sourceEnded

theorem Exhausts.after {m n : Nat} {x y : State} (h : p.Exhausts n x) (hmn : m ≤ n)
    (hy : p.steps m x = y) : p.Exhausts (n - m) y := by
  rw [Exhausts, ← hy, ← steps_add, Nat.add_sub_of_le hmn]
  exact h

/-- Inside the source there is a byte to execute before the end is reached. -/
theorem Exhausts.execute {n : Nat} (h : p.Exhausts n (s.stateAt p i)) (hi : i < p.source.size) :
    s.Within p ∧ ∃ m, n = m + 1 ∧ p.Exhausts m (p.execute (s.stateAt p i)) := by
  have hgoes : p.halted (s.stateAt p i) = false := by
    cases hs : p.halted (s.stateAt p i) with
    | false => rfl
    | true =>
      rw [Exhausts, steps_of_halted hs] at h
      have hle : p.source.size ≤ i := (halt?_eq_sourceEnded_iff.1 h).2.2
      exact absurd hi (Nat.not_lt.2 hle)
  refine ⟨(halted_stateAt_eq_false_iff.1 hgoes).1, ?_⟩
  cases n with
  | zero =>
    rw [Exhausts, steps, halt?_eq_none hgoes] at h
    cases h
  | succ m =>
    refine ⟨m, rfl, ?_⟩
    rw [Exhausts, steps, step_of_halted_eq_false hgoes] at h
    exact h

/-- On a stretch of the source the machine does what a relation says, both ways. Where it enters and
where it leaves may depend on the store. -/
structure Realizes (p : Program) (R : Store → Store → Prop) (entry exit : Store → Nat) : Prop where
  grows {s t : Store} : R s t → s.Grows t
  /-- Within the limits the machine gets to the end of the stretch. -/
  reaches {s t : Store} : R s t → t.Within p →
    ∃ n, p.steps n (s.stateAt p (entry s)) = t.stateAt p (exit t)
  /-- A run that comes to the end of the source comes to the end of the stretch before. -/
  passes {s : Store} {n : Nat} : p.Exhausts n (s.stateAt p (entry s)) →
    ∃ t m, m ≤ n ∧ R s t ∧ p.steps m (s.stateAt p (entry s)) = t.stateAt p (exit t)

variable {R Q : Store → Store → Prop} {entry middle exit : Store → Nat}

/-- An empty stretch. -/
theorem realizes_eq (p : Program) (entry : Store → Nat) : p.Realizes Eq entry entry where
  grows := by
    rintro s - rfl
    exact ⟨Nat.le_refl _, Nat.le_refl _⟩
  reaches := by
    rintro s - rfl -
    exact ⟨0, rfl⟩
  passes {s n} _ := ⟨s, 0, Nat.zero_le n, rfl, rfl⟩

/-- A byte and the stretch that it leads to. -/
theorem Realizes.first (h : p.Realizes R middle exit) {f : Store → Store} (hi : i < p.source.size)
    (hgrows : ∀ s : Store, s.Grows (f s))
    (hexec : ∀ s : Store, s.Within p → p.execute (s.stateAt p i) = (f s).stateAt p (middle (f s))) :
    p.Realizes (fun s t => R (f s) t) (fun _ => i) exit where
  grows {s t} hR := (hgrows s).trans (h.grows hR)
  reaches {s t} hR ht := by
    have hs : s.Within p := ((hgrows s).trans (h.grows hR)).within ht
    obtain ⟨n, hn⟩ := h.reaches hR ht
    refine ⟨n + 1, ?_⟩
    rw [steps, step_of_halted_eq_false (halted_stateAt_eq_false_iff.2 ⟨hs, hi⟩), hexec s hs]
    exact hn
  passes {s n} hend := by
    obtain ⟨hs, n, rfl, hrest⟩ := hend.execute hi
    rw [hexec s hs] at hrest
    obtain ⟨t, m, hmn, hR, hm⟩ := h.passes hrest
    refine ⟨t, m + 1, Nat.succ_le_succ hmn, hR, ?_⟩
    rw [steps, step_of_halted_eq_false (halted_stateAt_eq_false_iff.2 ⟨hs, hi⟩), hexec s hs]
    exact hm

/-- A byte that is no bracket and the stretch behind it. -/
theorem Realizes.plain (h : p.Realizes R (fun _ => i + 1) exit) {b : Outline.Plain}
    (hbyte : p.source[i]? = some b.val) :
    p.Realizes (fun s t => R (s.plain p b.val) t) (fun _ => i) exit :=
  h.first (Array.getElem?_eq_some_iff.1 hbyte).1 (Store.grows_plain p b.val)
    fun _ hs => execute_plain hbyte b.2.1 b.2.2 hs

/-- Two stretches, the second where the first one ends. -/
theorem Realizes.comp (h : p.Realizes R entry middle) (h' : p.Realizes Q middle exit) :
    p.Realizes (fun s t => ∃ u, R s u ∧ Q u t) entry exit where
  grows := by
    rintro s t ⟨u, hR, hQ⟩
    exact (h.grows hR).trans (h'.grows hQ)
  reaches := by
    rintro s t ⟨u, hR, hQ⟩ ht
    obtain ⟨m, hm⟩ := h.reaches hR ((h'.grows hQ).within ht)
    obtain ⟨n, hn⟩ := h'.reaches hQ ht
    exact ⟨m + n, by rw [steps_add, hm, hn]⟩
  passes {s n} hend := by
    obtain ⟨u, m, hmn, hR, hm⟩ := h.passes hend
    obtain ⟨t, m', hmn', hQ, hm'⟩ := h'.passes (hend.after hmn hm)
    exact ⟨t, m + m', by omega, ⟨u, hR, hQ⟩, by rw [steps_add, hm, hm']⟩

/-- One stretch on a zero and another one on any other cell. -/
theorem Realizes.choice (h : p.Realizes R (fun _ => i) exit) (h' : p.Realizes Q (fun _ => j) exit) :
    p.Realizes (fun s t => if s.tape.cell = 0 then R s t else Q s t)
      (fun s => if s.tape.cell = 0 then i else j) exit where
  grows {s t} hR := by
    split at hR
    · exact h.grows hR
    · exact h'.grows hR
  reaches {s t} hR ht := by
    split at hR
    · rename_i hcell
      rw [if_pos hcell]
      exact h.reaches hR ht
    · rename_i hcell
      rw [if_neg hcell]
      exact h'.reaches hR ht
  passes {s n} hend := by
    split at hend
    · rename_i hcell
      simp only [if_pos hcell]
      exact h.passes hend
    · rename_i hcell
      simp only [if_neg hcell]
      exact h'.passes hend

/-! ## Loops -/

theorem Realizes.grows_while (h : p.Realizes R entry exit) (hloop : Outline.While R s t) :
    s.Grows t := by
  induction hloop with
  | stop => exact ⟨Nat.le_refl _, Nat.le_refl _⟩
  | again _ hturn _ ih => exact (h.grows hturn).trans ih

/-- A loop takes turns as long as the cell is not zero, for every turn costs a step. -/
theorem Realizes.turns {turn : Store → Store → Prop}
    (h : p.Realizes turn (fun _ => i + 1) (resume i j))
    (hcount : ∀ s t, turn s t → s.executed < t.executed) :
    p.Realizes (Outline.While turn) (resume i j) (fun _ => j + 1) where
  grows := h.grows_while
  reaches {s t} hloop ht := by
    induction hloop with
    | stop hzero => exact ⟨0, by rw [resume, if_pos hzero]; rfl⟩
    | again hcell hturn hrest ih =>
      obtain ⟨m, hm⟩ := h.reaches hturn ((h.grows_while hrest).within ht)
      obtain ⟨n, hn⟩ := ih ht
      refine ⟨m + n, ?_⟩
      rw [resume, if_neg hcell, steps_add, hm, hn]
  passes {s n} hend := by
    -- Induction on the steps left: a turn uses up at least one.
    induction n using Nat.strong_induction_on generalizing s with
    | _ n ih =>
      by_cases hcell : s.tape.cell = 0
      · exact ⟨s, 0, Nat.zero_le n, .stop hcell, by rw [resume, if_pos hcell]; rfl⟩
      · have hentry : resume i j s = i + 1 := if_neg hcell
        rw [hentry] at hend ⊢
        obtain ⟨t, m, hmn, hturn, hm⟩ := h.passes hend
        have hpos : 0 < m := by
          rcases Nat.eq_zero_or_pos m with rfl | hpos
          · have heq : s.executed = t.executed := congrArg State.executed hm
            exact absurd (hcount s t hturn) (by omega)
          · exact hpos
        obtain ⟨u, m', hmn', hrest, hm'⟩ := ih (n - m) (by omega) (hend.after hmn hm)
        exact ⟨u, m + m', by omega, .again hcell hturn hrest, by rw [steps_add, hm, hm']⟩

/-- A loop around a stretch. -/
theorem Realizes.loop (h : p.Realizes R (fun _ => i + 1) (fun _ => j))
    (hp : Bracket.Partners p.source i j) :
    p.Realizes (Outline.Loop R) (fun _ => i) (fun _ => j + 1) := by
  have hclose : p.Realizes (fun s t => s.tick = t) (fun _ => j) (resume i j) :=
    (p.realizes_eq (resume i j)).first hp.lt_size Store.grows_tick fun _ _ => execute_closer hp
  have hturn := h.comp hclose
  have hcount : ∀ s t, (∃ u, R s u ∧ u.tick = t) → s.executed < t.executed := by
    rintro s t ⟨u, hR, rfl⟩
    exact Nat.lt_succ_of_le (h.grows hR).1
  exact (hturn.turns hcount).first (Nat.lt_trans hp.lt hp.lt_size) Store.grows_tick
    fun _ _ => execute_opener hp

/-! ## Code and outlines -/

/-- Code does between its two ends what its evaluation says. -/
theorem realizes_code (code : Outline.Code) (front back : List UInt8)
    (h : p.source.toList = front ++ (code.bytes ++ back)) (hi : front.length = i)
    (hj : i + code.bytes.length = j) :
    p.Realizes (code.Evaluates p) (fun _ => i) (fun _ => j) := by
  induction code generalizing front back i j with
  | nil =>
    obtain rfl : i = j := hj
    exact p.realizes_eq _
  | byte b rest ih =>
    have hbyte : p.source[i]? = some b.val := Outline.getElem?_of_append h hi
    have hrest : p.Realizes (rest.Evaluates p) (fun _ => i + 1) (fun _ => j) := by
      refine ih (front ++ [b.val]) back (by simpa [Outline.Code.bytes] using h) (by simp [hi]) ?_
      rw [← hj, Outline.Code.bytes, List.length_cons]
      omega
    exact hrest.plain hbyte
  | loop body rest ihb ihr =>
    have hsource : p.source.toList =
        front ++ Bracket.opening :: (body.bytes ++ Bracket.closing :: (rest.bytes ++ back)) := by
      simpa [Outline.Code.bytes] using h
    have hp := Outline.partners_loop hsource hi
    have hbody : p.Realizes (body.Evaluates p) (fun _ => i + 1)
        (fun _ => i + (body.bytes.length + 1)) :=
      ihb (front ++ [Bracket.opening]) (Bracket.closing :: (rest.bytes ++ back))
        (by simpa using hsource) (by simp [hi]) (by omega)
    have hrest : p.Realizes (rest.Evaluates p) (fun _ => i + (body.bytes.length + 1) + 1)
        (fun _ => j) := by
      refine ihr (front ++ Bracket.opening :: (body.bytes ++ [Bracket.closing])) back
        (by simpa using hsource) (by simp [hi]; omega) ?_
      rw [← hj, Outline.Code.bytes, List.length_cons, List.length_append, List.length_cons]
      omega
    exact (hbody.loop hp).comp hrest

open Outline in
/-- The items of a source, from any of them on, do up to the end of the source what their evaluation
says. -/
theorem realizes_items (before items : List Item) (h : p.source.toList = bytes before ++ bytes items)
    (hord : Ordered (before ++ items)) (hi : (bytes before).length = i) :
    p.Realizes (Evaluates p items) (fun _ => i) (fun _ => p.source.size) := by
  induction items generalizing before i with
  | nil =>
    have hend : i = p.source.size := by
      rw [← hi, ← Array.length_toList, h]
      simp
    rw [hend]
    exact p.realizes_eq _
  | cons item items ih =>
    -- What comes behind this item starts where its bytes end.
    have hrest {k : Nat} (hk : i + item.bytes.length = k) :
        p.Realizes (Evaluates p items) (fun _ => k) (fun _ => p.source.size) :=
      ih (before ++ [item]) (by simpa using h) (by simpa using hord) (by simp [hi, hk])
    cases item with
    | byte b =>
      have hbyte : p.source[i]? = some b.val := getElem?_of_append h hi
      exact (hrest rfl).plain hbyte
    | loop body =>
      have hsource : p.source.toList =
          bytes before ++ Bracket.opening :: (body.bytes ++ Bracket.closing :: bytes items) := by
        simpa [Item.bytes] using h
      have hp := partners_loop hsource hi
      have hbody : p.Realizes (body.Evaluates p) (fun _ => i + 1)
          (fun _ => i + (body.bytes.length + 1)) :=
        realizes_code body (bytes before ++ [Bracket.opening]) (Bracket.closing :: bytes items)
          (by simpa using hsource) (by simp [hi]) (by omega)
      exact (hbody.loop hp).comp (hrest (by simp [Item.bytes]; omega))
    | loneClose =>
      have hbyte : p.source[i]? = some Bracket.closing := getElem?_of_append h hi
      have halone : p.pairing.openerOf? i = none := by
        rw [← hi]
        exact openerOf?_loneClose h hord
      exact ((hrest rfl).choice (p.realizes_eq fun _ => p.source.size)).first
        (Array.getElem?_eq_some_iff.1 hbyte).1 Store.grows_tick
        fun _ _ => execute_loneClose hbyte halone
    | loneOpen =>
      have hbyte : p.source[i]? = some Bracket.opening := getElem?_of_append h hi
      have halone : p.pairing.closerOf? i = none := by
        rw [← hi]
        exact closerOf?_loneOpen h hord
      exact ((p.realizes_eq fun _ => p.source.size).choice (hrest rfl)).first
        (Array.getElem?_eq_some_iff.1 hbyte).1 Store.grows_tick
        fun _ _ => execute_loneOpen hbyte halone

/-- The whole source, from the first byte to the end. -/
theorem realizes_source (p : Program) :
    p.Realizes (Outline.Evaluates p (Outline.parse p.source.toList)) (fun _ => 0)
      (fun _ => p.source.size) :=
  realizes_items [] _ (Outline.bytes_parse _).symm (Outline.parse_ordered _) rfl

/-! ## Runs that end with the source -/

theorem run_eq_stateAt_size {n : Nat} {t : Store}
    (h : p.steps n ((Store.start p).stateAt p 0) = t.stateAt p p.source.size) :
    p.run p.start = t.stateAt p p.source.size := by
  rw [← h]
  apply run_eq_of_halted
  rw [show p.start = (Store.start p).stateAt p 0 from rfl, h]
  exact halted_stateAt_size

/-- An evaluation within the limits is a run that ends with the source. -/
theorem ends_of_evaluates {t : Store}
    (h : Outline.Evaluates p (Outline.parse p.source.toList) (Store.start p) t) (ht : t.Within p) :
    p.run p.start = t.stateAt p p.source.size ∧ p.halt? (p.run p.start) = some .sourceEnded := by
  obtain ⟨n, hn⟩ := p.realizes_source.reaches h ht
  have hrun := run_eq_stateAt_size hn
  rw [hrun]
  exact ⟨rfl, halt?_stateAt_size.2 ht⟩

/-- A run that ends with the source is an evaluation within the limits. -/
theorem evaluates_of_ends (h : p.halt? (p.run p.start) = some .sourceEnded) :
    ∃ t, Outline.Evaluates p (Outline.parse p.source.toList) (Store.start p) t ∧ t.Within p ∧
      p.run p.start = t.stateAt p p.source.size := by
  have hexhausts : p.Exhausts (p.lastStep p.start) ((Store.start p).stateAt p 0) := by
    rw [run_eq_steps_lastStep] at h
    exact h
  obtain ⟨t, n, -, heval, hn⟩ := p.realizes_source.passes hexhausts
  have hrun := run_eq_stateAt_size hn
  rw [hrun] at h
  exact ⟨t, heval, halt?_stateAt_size.1 h, hrun⟩

/-- The machine implements structured loops. Every source has exactly one outline, and its lone
brackets are those that the pairing has no partner for. An evaluation of the outline has at most one
result. One that stays within the limits is a run that ends with the source, in the same store and
with the same result; and every run that ends with the source is such an evaluation. -/
theorem ends_iff_evaluates (p : Program) :
    (∀ items, items = Outline.parse p.source.toList ↔
      Outline.bytes items = p.source.toList ∧ Outline.Ordered items) ∧
    (∀ before after, Outline.parse p.source.toList = before ++ .loneClose :: after →
      p.pairing.openerOf? (Outline.bytes before).length = none) ∧
    (∀ before after, Outline.parse p.source.toList = before ++ .loneOpen :: after →
      p.pairing.closerOf? (Outline.bytes before).length = none) ∧
    (∀ t u, Outline.Evaluates p (Outline.parse p.source.toList) (Store.start p) t →
      Outline.Evaluates p (Outline.parse p.source.toList) (Store.start p) u → t = u) ∧
    (∀ t, (Outline.Evaluates p (Outline.parse p.source.toList) (Store.start p) t ∧
        t.executed < p.settings.instructionLimit ∧
        t.output.size < max 1 (p.settings.outputCapacity - 1)) ↔
      (p.run p.start = t.stateAt p p.source.size ∧
        interpret p.settings p.source p.input = .ok ⟨t.output, .sourceEnded, t.executed⟩)) ∧
    ∀ result, interpret p.settings p.source p.input = .ok result → result.halt = .sourceEnded →
      ∃ t, Outline.Evaluates p (Outline.parse p.source.toList) (Store.start p) t ∧
        p.run p.start = t.stateAt p p.source.size := by
  refine ⟨fun items => Outline.eq_parse_iff, ?_, ?_,
    fun _ _ ht hu => Outline.rightUnique_evaluates p _ ht hu, fun t => ?_, ?_⟩
  · intro before after hparse
    obtain ⟨hbytes, hord⟩ := Outline.eq_parse_iff.1 hparse.symm
    exact openerOf?_loneClose (by rw [← hbytes]; simp [Outline.Item.bytes]) hord
  · intro before after hparse
    obtain ⟨hbytes, hord⟩ := Outline.eq_parse_iff.1 hparse.symm
    exact closerOf?_loneOpen (by rw [← hbytes]; simp [Outline.Item.bytes]) hord
  · constructor
    · rintro ⟨heval, hwithin⟩
      obtain ⟨hrun, hend⟩ := ends_of_evaluates heval hwithin
      refine ⟨hrun, ?_⟩
      rw [interpret_self, finish_eq hend, hrun]
      rfl
    · rintro ⟨hrun, hresult⟩
      rw [interpret_self] at hresult
      have hend : (p.finish p.start).halt = .sourceEnded := by rw [Except.ok.inj hresult]
      obtain ⟨u, heval, hwithin, hrun'⟩ := evaluates_of_ends (halt_finish_iff.1 hend)
      obtain rfl : u = t := Store.stateAt_injective (hrun'.symm.trans hrun)
      exact ⟨heval, hwithin⟩
  · intro result hresult hend
    rw [interpret_self] at hresult
    obtain rfl := Except.ok.inj hresult
    obtain ⟨t, heval, -, hrun⟩ := evaluates_of_ends (halt_finish_iff.1 hend)
    exact ⟨t, heval, hrun⟩

end Program

end TapeDebugger
