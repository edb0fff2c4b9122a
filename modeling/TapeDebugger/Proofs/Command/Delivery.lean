-- SUMMARY: A command delivers what the engine makes of its arguments, unless the tape is too long for memory.
import TapeDebugger.Command.Outcome
import TapeDebugger.Proofs.Program.Capacity
import TapeDebugger.Proofs.Recording.Moves

/-!
# Delivery

A command ends in one of six ways (`Options.Ends`). Which one it is depends on the source, the input,
the settings, and with the viewer on the budget, but not on whether the command is quiet. So two commands
that differ in nothing else end in the same way, and what they leave can be compared way by way.

In one of the six ways the process gives up. The settings have passed their check and the brackets are
paired by then, but the check sets no bound that the tape can be allocated within (`Program.TooLong`).
-/

namespace TapeDebugger

-- ---------------------------------------------------------------------------
-- A tape that is too long
-- ---------------------------------------------------------------------------

theorem Settings.check_ne_crash (settings : Settings) (detail : String) :
    settings.check ≠ .error (.crash detail) := by
  simp only [check]
  split
  · simp [Fault.noCells]
  · split <;> simp [Fault.noRoom]

theorem Pairing.ofSource_ne_crash (capacity : Nat) (source : Array UInt8) (detail : String) :
    ofSource capacity source ≠ .error (.crash detail) := by
  rcases ofSource_cases capacity source with ⟨-, pairing, hpaired⟩ | ⟨-, hrefused⟩
  · simp [hpaired]
  · simp [hrefused]

namespace Program

/-- Nothing is wrong with some settings and a source but the length of the tape. -/
def TooLong (settings : Settings) (source : Array UInt8) : Prop :=
  settings.check = .ok () ∧
  (∃ pairing, Pairing.ofSource settings.bracketCapacity source = .ok pairing) ∧
  Tape.largest < settings.tapeSize

variable {settings : Settings} {source input : Array UInt8} {detail : String}

/-- The process gives up over a tape that is too long. -/
theorem load_of_tooLong (h : TooLong settings source) :
    load settings source input = .error .tapeTooLong := by
  obtain ⟨usable, ⟨pairing, paired⟩, hlong⟩ := h
  rcases load_cases settings source input with ⟨fault, hcheck, -⟩ | ⟨-, ⟨fault, hrefused, -⟩ |
    ⟨-, -, ⟨hlength, -⟩ | ⟨-, hload⟩⟩⟩
  · rw [usable] at hcheck
    cases hcheck
  · rw [paired] at hrefused
    cases hrefused
  · exact absurd hlength (Nat.not_le_of_lt hlong)
  · exact hload

/-- There is no other reason for it to give up. -/
theorem tooLong_of_load_eq_crash (h : load settings source input = .error (.crash detail)) :
    TooLong settings source := by
  rcases load_cases settings source input with ⟨fault, hcheck, hload⟩ | ⟨usable, ⟨fault, hrefused, hload⟩ |
    ⟨pairing, paired, ⟨-, p, hload⟩ | ⟨hlong, -⟩⟩⟩
  · rw [h] at hload
    cases hload
    exact absurd hcheck (settings.check_ne_crash detail)
  · rw [h] at hload
    cases hload
    exact absurd hrefused (Pairing.ofSource_ne_crash _ source detail)
  · rw [h] at hload
    cases hload
  · exact ⟨usable, ⟨pairing, paired⟩, hlong⟩

end Program

namespace Command

-- ---------------------------------------------------------------------------
-- Arguments
-- ---------------------------------------------------------------------------

namespace Draft

variable {source : String} {input : Option String} {flags : List Flag}
  {amounts : List (Amount × Nat)}

/-- The options in full: each flag and each amount goes to its own place. -/
theorem exists_request (source : String) (input : Option String) (flags : List Flag)
    (amounts : List (Amount × Nat)) :
    ∃ o, request ⟨some source, input, flags, amounts⟩ = .run o ∧ o.viewer = decide (.viewer ∈ flags) ∧
      o.settings =
        { tapeSize := (amounts.lookup .tapeSize).getD 2048
          bracketCapacity := (amounts.lookup .bracketCapacity).getD 1024
          instructionLimit := (amounts.lookup .instructionLimit).getD 33554432
          outputCapacity := (amounts.lookup .outputCapacity).getD 65536
          sevenBit := .eightBit ∉ flags, zeroClears := .zeroClears ∈ flags } ∧
      o.inputBytes = (input.getD "").toUTF8.data ∧
      o.budget = (amounts.lookup .budget).getD 268435456 :=
  ⟨_, rfl, rfl, rfl, rfl, rfl⟩

/-- To be asked to be quiet changes nothing else. -/
theorem request_quiet {o : Options} (h : request ⟨some source, input, flags, amounts⟩ = .run o) :
    request ⟨some source, input, .quiet :: flags, amounts⟩ = .run { o with quiet := true } := by
  cases h
  simp [request]

/-- To be given a budget changes nothing else. -/
theorem request_budget {o : Options} (h : request ⟨some source, input, flags, amounts⟩ = .run o)
    (budget : Nat) :
    request ⟨some source, input, flags, (.budget, budget) :: amounts⟩ = .run { o with budget } := by
  cases h
  rfl

end Draft

namespace Options

variable {o : Options} {contents : Except String (Array UInt8)} {out : Outcome} {e : Exit}

-- ---------------------------------------------------------------------------
-- The ways in which a command ends
-- ---------------------------------------------------------------------------

/-- The ways in which a command ends: why it ends so, and what it leaves. -/
inductive Ends (o : Options) (contents : Except String (Array UInt8)) : Outcome → Prop where
  | unreadable {reason : String} (hcontents : contents = .error reason) :
      Ends o contents (failure "" s!"cannot read '{o.source}': {reason}")
  | refused {source : Array UInt8} {fault : Fault} (hcontents : contents = .ok source)
      (hload : Program.load o.settings source o.inputBytes = .error fault)
      (hfault : ∀ detail, fault ≠ .crash detail) :
      Ends o contents (failure (o.loadedNote source) fault.message)
  | gaveUp {source : Array UInt8} (hcontents : contents = .ok source)
      (hlong : Program.TooLong o.settings source) :
      Ends o contents (.crash { code := crashCode, report := o.loadedNote source })
  | noRoom {source : Array UInt8} {p : Program} (hcontents : contents = .ok source)
      (hload : Program.load o.settings source o.inputBytes = .ok p) (hviewer : o.viewer = true)
      (hroom : o.budget < p.frameSize) :
      Ends o contents (failure (o.loadedNote source) (Fault.budgetExhausted 0 o.budget).message)
  | opened {source : Array UInt8} {p : Program} (hcontents : contents = .ok source)
      (hload : Program.load o.settings source o.inputBytes = .ok p) (hviewer : o.viewer = true)
      (hroom : p.frameSize ≤ o.budget) :
      Ends o contents (.view (o.loadedNote source) (.ofSteps p p.start o.budget 0 0))
  | finished {source : Array UInt8} {p : Program} (hcontents : contents = .ok source)
      (hload : Program.load o.settings source o.inputBytes = .ok p) (hviewer : o.viewer = false) :
      Ends o contents
        (.exit
          { code := 0, output := (p.finish p.start).output.push newline
            report := o.loadedNote source ++ o.runNotes p (p.finish p.start) })

theorem stop_of_ne_crash {fault : Fault} (h : ∀ detail, fault ≠ .crash detail) (report : String) :
    stop report fault = failure report fault.message := by
  cases fault with
  | crash detail => exact absurd rfl (h detail)
  | _ => rfl

theorem Ends.execute_eq (h : Ends o contents out) : o.execute contents = out := by
  cases h with
  | unreadable hcontents => rw [hcontents, execute]
  | refused hcontents hload hfault =>
    rw [hcontents, execute]
    simp only [hload, stop_of_ne_crash hfault]
  | gaveUp hcontents hlong =>
    rw [hcontents, execute]
    simp only [Program.load_of_tooLong hlong]
    rfl
  | @noRoom source p hcontents hload hviewer hroom =>
    have hstart : Recording.start p p.start o.budget = .error (.budgetExhausted 0 o.budget) :=
      Recording.start_of_not_fits p.sound_start (mt Archive.fits_one_iff.1 (Nat.not_le_of_lt hroom))
    rw [hcontents, execute]
    simp only [hload, hviewer, hstart, if_true]
    rfl
  | @opened source p hcontents hload hviewer hroom =>
    have hstart := Recording.start_of_fits p.sound_start (Archive.fits_one_iff.2 hroom)
    rw [hcontents, execute]
    simp only [hload, hviewer, hstart, if_true]
  | finished hcontents hload hviewer =>
    rw [hcontents, execute]
    simp only [hload, hviewer, if_false, Bool.false_eq_true]

/-- There is no other way for a command to end. -/
theorem exists_ends (o : Options) (contents : Except String (Array UInt8)) :
    ∃ out, Ends o contents out := by
  cases contents with
  | error reason => exact ⟨_, .unreadable rfl⟩
  | ok source =>
    cases hload : Program.load o.settings source o.inputBytes with
    | error fault =>
      cases fault with
      | crash detail => exact ⟨_, .gaveUp rfl (Program.tooLong_of_load_eq_crash hload)⟩
      | _ => exact ⟨_, .refused rfl hload fun detail heq => by cases heq⟩
    | ok p =>
      cases hviewer : o.viewer with
      | false => exact ⟨_, .finished rfl hload hviewer⟩
      | true =>
        rcases Nat.lt_or_ge o.budget p.frameSize with hroom | hroom
        · exact ⟨_, .noRoom rfl hload hviewer hroom⟩
        · exact ⟨_, .opened rfl hload hviewer hroom⟩

/-- The tape of a command is too long, and nothing else is wrong with its source and its settings. -/
def TooLong (o : Options) (contents : Except String (Array UInt8)) : Prop :=
  ∃ source, contents = .ok source ∧ Program.TooLong o.settings source

/-- A command gives up over a tape that is too long, and for no other reason. -/
theorem exists_crash_iff : (∃ e, o.execute contents = .crash e) ↔ o.TooLong contents := by
  constructor
  · rintro ⟨e, h⟩
    obtain ⟨out, hends⟩ := exists_ends o contents
    rw [hends.execute_eq] at h
    cases hends with
    | gaveUp hcontents hlong => exact ⟨_, hcontents, hlong⟩
    | _ => cases h
  · rintro ⟨source, hcontents, hlong⟩
    exact ⟨_, Ends.execute_eq (.gaveUp hcontents hlong)⟩

/-- A process that gives up has a code of its own, and no output. -/
theorem crash_eq (h : o.execute contents = .crash e) : e.code = 101 ∧ e.output = #[] := by
  obtain ⟨out, hends⟩ := exists_ends o contents
  rw [hends.execute_eq] at h
  cases hends with
  | gaveUp =>
    cases h
    exact ⟨rfl, rfl⟩
  | _ => cases h

-- ---------------------------------------------------------------------------
-- Without the viewer
-- ---------------------------------------------------------------------------

/-- Without the viewer, a command exits. If the program loads, it succeeds with the output of the run, and
otherwise it fails without any output. -/
theorem exit_of_not_viewer (hviewer : o.viewer = false) (hlength : ¬ o.TooLong contents) :
    ∃ e, o.execute contents = .exit e ∧
      (e.code = 0 ↔ ∃ source p, contents = .ok source ∧
        Program.load o.settings source o.inputBytes = .ok p) ∧
      (e.code = 0 → ∃ source result, contents = .ok source ∧
        interpret o.settings source o.inputBytes = .ok result ∧
        e.output = result.output.push newline) ∧
      (e.code ≠ 0 → e.code = 1 ∧ e.output = #[]) := by
  obtain ⟨out, hends⟩ := exists_ends o contents
  rw [hends.execute_eq]
  cases hends with
  | unreadable hcontents =>
    refine ⟨_, rfl, iff_of_false Nat.one_ne_zero ?_, fun hcode => absurd hcode Nat.one_ne_zero,
      fun _ => ⟨rfl, rfl⟩⟩
    rintro ⟨source, p, hsource, -⟩
    rw [hcontents] at hsource
    cases hsource
  | refused hcontents hload _ =>
    refine ⟨_, rfl, iff_of_false Nat.one_ne_zero ?_, fun hcode => absurd hcode Nat.one_ne_zero,
      fun _ => ⟨rfl, rfl⟩⟩
    rintro ⟨source, p, hsource, hp⟩
    rw [hcontents] at hsource
    cases hsource
    rw [hload] at hp
    cases hp
  | gaveUp hcontents hlong => exact absurd ⟨_, hcontents, hlong⟩ hlength
  | noRoom _ _ hviewer' _ | opened _ _ hviewer' _ =>
    exact absurd (hviewer.symm.trans hviewer') Bool.false_ne_true
  | @finished source p hcontents hload _ =>
    refine ⟨_, rfl, iff_of_true rfl ⟨source, p, hcontents, hload⟩, fun _ => ?_,
      fun hcode => absurd rfl hcode⟩
    refine ⟨source, p.finish p.start, hcontents, ?_, rfl⟩
    rw [interpret, hload]
    rfl

/-- Without the viewer, the budget has no effect. -/
theorem execute_budget (hviewer : o.viewer = false) (contents : Except String (Array UInt8))
    (budget : Nat) : { o with budget }.execute contents = o.execute contents := by
  obtain ⟨out, hends⟩ := exists_ends o contents
  rw [hends.execute_eq]
  cases hends with
  | unreadable hcontents => exact Ends.execute_eq (.unreadable hcontents)
  | refused hcontents hload hfault => exact Ends.execute_eq (.refused hcontents hload hfault)
  | gaveUp hcontents hlong => exact Ends.execute_eq (.gaveUp hcontents hlong)
  | noRoom _ _ hviewer' _ | opened _ _ hviewer' _ =>
    exact absurd (hviewer.symm.trans hviewer') Bool.false_ne_true
  | finished hcontents hload _ => exact Ends.execute_eq (.finished hcontents hload hviewer)

-- ---------------------------------------------------------------------------
-- With the viewer
-- ---------------------------------------------------------------------------

/-- With the viewer, a command that exits has failed, without any output. -/
theorem exit_of_viewer (hviewer : o.viewer = true) (h : o.execute contents = .exit e) :
    e.code = 1 ∧ e.output = #[] := by
  obtain ⟨out, hends⟩ := exists_ends o contents
  rw [hends.execute_eq] at h
  cases hends with
  | unreadable | refused | noRoom =>
    cases h
    exact ⟨rfl, rfl⟩
  | opened | gaveUp => cases h
  | finished _ _ hviewer' => exact absurd (hviewer'.symm.trans hviewer) Bool.false_ne_true

/-- With the viewer, a command exits if there is no program, or no room for its first frame. -/
theorem exits_iff_of_viewer (hviewer : o.viewer = true) (hlength : ¬ o.TooLong contents) :
    (∃ e, o.execute contents = .exit e) ↔
      (∃ reason, contents = .error reason) ∨
      (∃ source fault, contents = .ok source ∧
        Program.load o.settings source o.inputBytes = .error fault) ∨
      o.budget < 72 + o.settings.tapeSize := by
  obtain ⟨out, hends⟩ := exists_ends o contents
  rw [hends.execute_eq]
  cases hends with
  | unreadable hcontents => exact iff_of_true ⟨_, rfl⟩ (.inl ⟨_, hcontents⟩)
  | refused hcontents hload _ =>
    exact iff_of_true ⟨_, rfl⟩ (.inr (.inl ⟨_, _, hcontents, hload⟩))
  | gaveUp hcontents hlong => exact absurd ⟨_, hcontents, hlong⟩ hlength
  | noRoom _ hload _ hroom =>
    rw [Program.frameSize, (Program.parts_of_load hload).1] at hroom
    exact iff_of_true ⟨_, rfl⟩ (.inr (.inr hroom))
  | opened hcontents hload _ hroom =>
    rw [Program.frameSize, (Program.parts_of_load hload).1] at hroom
    refine iff_of_false ?_ ?_
    · rintro ⟨e, hexit⟩
      cases hexit
    · rintro (⟨reason, herror⟩ | ⟨source, fault, hsource, hfault⟩ | hsmall)
      · rw [hcontents] at herror
        cases herror
      · rw [hcontents] at hsource
        cases hsource
        rw [hload] at hfault
        cases hfault
      · exact Nat.not_lt_of_le hroom hsmall
  | finished _ _ hviewer' => exact absurd (hviewer'.symm.trans hviewer) Bool.false_ne_true

-- ---------------------------------------------------------------------------
-- Quiet and aloud
-- ---------------------------------------------------------------------------

/-- What a command reports before it fails. -/
def notes (o : Options) : Except String (Array UInt8) → String
  | .error _ => ""
  | .ok source => o.loadedNote source

/-- How a command ends, after some notes, and how it ends when it is quiet. -/
inductive Hushes (notes : String) : Outcome → Outcome → Prop where
  | failed {message : String} : Hushes notes (failure notes message) (failure "" message)
  | gaveUp {code : Nat} : Hushes notes (.crash { code, report := notes }) (.crash { code })
  | opened {report : String} {recording : Recording} :
      Hushes notes (.view report recording) (.view "" recording)
  | finished {output : Array UInt8} {report : String} :
      Hushes notes (.exit { code := 0, output, report }) (.exit { code := 0, output, report := "" })

theorem note_of_quiet (hquiet : o.quiet = true) (line : String) : o.note line = "" := if_pos hquiet

theorem loadedNote_of_quiet (hquiet : o.quiet = true) (source : Array UInt8) :
    o.loadedNote source = "" :=
  note_of_quiet hquiet _

theorem runNotes_of_quiet (hquiet : o.quiet = true) (p : Program) (r : Program.Result) :
    o.runNotes p r = "" := by
  rw [runNotes, note_of_quiet hquiet, note_of_quiet hquiet, String.append_empty]

/-- A quiet command ends in the same way. -/
theorem hushes_quiet (o : Options) (contents : Except String (Array UInt8)) :
    Hushes (o.notes contents) (o.execute contents) ({ o with quiet := true }.execute contents) := by
  have hloaded := loadedNote_of_quiet (rfl : { o with quiet := true }.quiet = true)
  have hrun := runNotes_of_quiet (rfl : { o with quiet := true }.quiet = true)
  -- no reason to end in one way or another mentions quiet, so each case holds of both commands
  obtain ⟨out, hends⟩ := exists_ends o contents
  rw [hends.execute_eq]
  cases hends with
  | unreadable hcontents =>
    have hquiet : Ends { o with quiet := true } contents _ := .unreadable hcontents
    rw [hquiet.execute_eq, hcontents]
    exact .failed
  | refused hcontents hload hfault =>
    have hquiet : Ends { o with quiet := true } contents _ := .refused hcontents hload hfault
    rw [hquiet.execute_eq, hloaded, hcontents]
    exact .failed
  | gaveUp hcontents hlong =>
    have hquiet : Ends { o with quiet := true } contents _ := .gaveUp hcontents hlong
    rw [hquiet.execute_eq, hloaded, hcontents]
    exact .gaveUp
  | noRoom hcontents hload hviewer hroom =>
    have hquiet : Ends { o with quiet := true } contents _ := .noRoom hcontents hload hviewer hroom
    rw [hquiet.execute_eq, hloaded, hcontents]
    exact .failed
  | opened hcontents hload hviewer hroom =>
    have hquiet : Ends { o with quiet := true } contents _ := .opened hcontents hload hviewer hroom
    rw [hquiet.execute_eq, hloaded]
    exact .opened
  | finished hcontents hload hviewer =>
    have hquiet : Ends { o with quiet := true } contents _ := .finished hcontents hload hviewer
    rw [hquiet.execute_eq, hloaded, hrun, String.append_empty]
    exact .finished

/-- A quiet command exits when the same command aloud does, with the same code and output. It reports
nothing on success, and nothing but the error on failure. -/
theorem exit_of_quiet (h : o.execute contents = .exit e) :
    ∃ e', { o with quiet := true }.execute contents = .exit e' ∧ e'.code = e.code ∧
      e'.output = e.output ∧ (e.code = 0 → e'.report = "") ∧
      (e.code ≠ 0 → ∃ message : String, e'.report = s!"Error: {message}\n" ∧
        e.report = o.notes contents ++ e'.report) := by
  have hhushes := o.hushes_quiet contents
  rw [h] at hhushes
  generalize { o with quiet := true }.execute contents = out at hhushes
  cases hhushes with
  | @failed message =>
    have hreport := String.empty_append (s := s!"Error: {message}\n")
    refine ⟨_, rfl, rfl, rfl, fun hcode => absurd hcode Nat.one_ne_zero, fun _ => ⟨message, hreport, ?_⟩⟩
    exact congrArg (o.notes contents ++ ·) hreport.symm
  | finished => exact ⟨_, rfl, rfl, rfl, fun _ => rfl, fun hcode => absurd rfl hcode⟩

/-- A quiet command gives up when the same command aloud does, and reports nothing before. -/
theorem crash_of_quiet (h : o.execute contents = .crash e) :
    e.report = o.notes contents ∧
      { o with quiet := true }.execute contents = .crash { e with report := "" } := by
  have hcrash := crash_eq h
  have hhushes := o.hushes_quiet contents
  rw [h] at hhushes
  generalize { o with quiet := true }.execute contents = out at hhushes
  cases hhushes with
  | gaveUp => exact ⟨rfl, rfl⟩

end Options

-- ---------------------------------------------------------------------------
-- The whole command
-- ---------------------------------------------------------------------------

/-- Whatever the arguments and the contents of the source are. The process gives up if and only if the source
can be read, the settings pass their check and the brackets fit, but the tape is too long; all else holds where
it does not.

Without the viewer, a command exits, and with code 0 if and only if the engine accepts the source, the input
and the settings that the arguments give; then its output is that of the run and one newline, and otherwise its
code is 1 and it has no output. The budget has no effect. With the viewer, a command that exits before there is
anything to view has code 1 and no output. It does so if and only if the source cannot be read, the engine
refuses, or the budget has no room for one frame.

Beside a command that exits, the same command made quiet exits with the same code and output. It reports
nothing if it succeeds, and nothing but the error of the other one if it fails. Where the one gives up, the
other does. -/
theorem delivers (path : String) (input : Option String) (flags : List Flag)
    (amounts : List (Amount × Nat)) (contents : Except String (Array UInt8)) :
    let amount (a : Amount) (usual : Nat) : Nat := (amounts.lookup a).getD usual
    let settings : Settings :=
      { tapeSize := amount .tapeSize 2048, bracketCapacity := amount .bracketCapacity 1024
        instructionLimit := amount .instructionLimit 33554432
        outputCapacity := amount .outputCapacity 65536
        sevenBit := .eightBit ∉ flags, zeroClears := .zeroClears ∈ flags }
    let budget := amount .budget 268435456
    let bytes := (input.getD "").toUTF8.data
    let tooLong : Prop := ∃ source pairing, contents = .ok source ∧ settings.check = .ok () ∧
      Pairing.ofSource settings.bracketCapacity source = .ok pairing ∧
      Word.last / 2 < settings.tapeSize
    ∃ o, Draft.request ⟨some path, input, flags, amounts⟩ = .run o ∧
      (((∃ e, o.execute contents = .crash e) ↔ tooLong) ∧
        ∀ e, o.execute contents = .crash e → e.code = 101 ∧ e.output = #[]) ∧
      (.viewer ∉ flags →
        (¬ tooLong → ∃ e, o.execute contents = .exit e ∧
          (e.code = 0 ↔ ∃ source p, contents = .ok source ∧
            Program.load settings source bytes = .ok p) ∧
          (e.code = 0 → ∃ source result, contents = .ok source ∧
            interpret settings source bytes = .ok result ∧ e.output = result.output.push newline) ∧
          (e.code ≠ 0 → e.code = 1 ∧ e.output = #[])) ∧
        ∀ other, ∃ o', Draft.request ⟨some path, input, flags, (.budget, other) :: amounts⟩ = .run o' ∧
          o'.execute contents = o.execute contents) ∧
      (.viewer ∈ flags →
        (∀ e, o.execute contents = .exit e → e.code = 1 ∧ e.output = #[]) ∧
        (¬ tooLong →
          ((∃ e, o.execute contents = .exit e) ↔
            (∃ reason, contents = .error reason) ∨
            (∃ source fault, contents = .ok source ∧
              Program.load settings source bytes = .error fault) ∨
            budget < 72 + settings.tapeSize))) ∧
      ∃ o', Draft.request ⟨some path, input, .quiet :: flags, amounts⟩ = .run o' ∧
        (∀ e, o.execute contents = .crash e →
          e.report = o.notes contents ∧ o'.execute contents = .crash { e with report := "" }) ∧
        ∀ e, o.execute contents = .exit e →
          ∃ e', o'.execute contents = .exit e' ∧ e'.code = e.code ∧ e'.output = e.output ∧
            (e.code = 0 → e'.report = "") ∧
            (e.code ≠ 0 → ∃ message : String, e'.report = s!"Error: {message}\n" ∧
              e.report = o.notes contents ++ e'.report) := by
  intro amount settings budget bytes tooLong
  obtain ⟨o, hrequest, hviewer, hsettings, hbytes, hbudget⟩ :=
    Draft.exists_request path input flags amounts
  change o.settings = settings at hsettings
  change o.inputBytes = bytes at hbytes
  change o.budget = budget at hbudget
  have hlong : o.TooLong contents ↔ tooLong := by
    constructor
    · rintro ⟨source, hcontents, husable, ⟨pairing, hpaired⟩, hlength⟩
      exact ⟨source, pairing, hcontents, hsettings ▸ husable, hsettings ▸ hpaired, hsettings ▸ hlength⟩
    · rintro ⟨source, pairing, hcontents, husable, hpaired, hlength⟩
      exact ⟨source, hcontents, hsettings ▸ husable, ⟨pairing, hsettings ▸ hpaired⟩, hsettings ▸ hlength⟩
  rw [← hlong, ← hsettings, ← hbytes, ← hbudget]
  refine ⟨o, hrequest, ⟨Options.exists_crash_iff, fun e => Options.crash_eq⟩, fun hflag => ?_,
    fun hflag => ?_, _, Draft.request_quiet hrequest, fun e => Options.crash_of_quiet,
    fun e => Options.exit_of_quiet⟩
  · rw [decide_eq_false hflag] at hviewer
    refine ⟨Options.exit_of_not_viewer hviewer, fun other => ⟨_, Draft.request_budget hrequest other, ?_⟩⟩
    exact Options.execute_budget hviewer contents other
  · rw [decide_eq_true hflag] at hviewer
    exact ⟨fun e => Options.exit_of_viewer hviewer, Options.exits_iff_of_viewer hviewer⟩

/-- Run on the input `a`, the source `,.` is answered with `a` and a newline. With the viewer, a budget of
111 bytes has no room for a frame of 40 cells, and said quietly that is all there is to say. -/
theorem delivers_run_and_refusal :
    (∃ o e,
      Draft.request ⟨some "cat.bf", some "a", [], [(.tapeSize, 40), (.instructionLimit, 9)]⟩ = .run o ∧
      o.execute (.ok #[0x2c, 0x2e]) = .exit e ∧ e.code = 0 ∧ e.output = #[0x61, 0x0a]) ∧
    ∃ o e,
      Draft.request ⟨some "cat.bf", none, [.quiet, .viewer], [(.tapeSize, 40), (.budget, 111)]⟩ =
        .run o ∧
      o.execute (.ok #[0x2c, 0x2e]) = .exit e ∧ e.code = 1 ∧ e.output = #[] ∧
      ∃ message : String, e.report = s!"Error: {message}\n" := by
  constructor
  · obtain ⟨o, hrequest, -, hrun, -, -⟩ :=
      delivers "cat.bf" (some "a") [] [(.tapeSize, 40), (.instructionLimit, 9)] (.ok #[0x2c, 0x2e])
    obtain ⟨e, hexit, hcode, houtput, -⟩ :=
      (hrun List.not_mem_nil).1 fun ⟨_, _, _, _, _, hlong⟩ => absurd hlong (by decide)
    let p : Program := ⟨{ tapeSize := 40, instructionLimit := 9 }, #[0x2c, 0x2e], "a".toUTF8.data,
      ⟨#[], #[none, none], #[none, none]⟩, rfl, rfl, rfl⟩
    have hzero : e.code = 0 := hcode.2 ⟨_, p, rfl, p.load_self⟩
    obtain ⟨source, result, hsource, hresult, hpushed⟩ := houtput hzero
    cases hsource
    obtain rfl : p.finish p.start = result := Except.ok.inj (p.interpret_self.symm.trans hresult)
    exact ⟨o, e, hrequest, hexit, hzero, hpushed.trans (by decide +kernel)⟩
  · obtain ⟨o, -, -, -, hview, o', hquiet, -, hhushed⟩ :=
      delivers "cat.bf" none [.viewer] [(.tapeSize, 40), (.budget, 111)] (.ok #[0x2c, 0x2e])
    obtain ⟨hfailed, hexits⟩ := hview (by decide)
    have hshort := hexits fun ⟨_, _, _, _, _, hlong⟩ => absurd hlong (by decide)
    obtain ⟨e, hexit⟩ := hshort.2 (.inr (.inr (by decide)))
    obtain ⟨hone, hempty⟩ := hfailed e hexit
    obtain ⟨e', hexit', hcode, houtput, -, hreport⟩ := hhushed e hexit
    obtain ⟨message, hmessage, -⟩ := hreport (hone ▸ Nat.one_ne_zero)
    exact ⟨o', e', hquiet, hexit', hcode.trans hone, houtput.trans hempty, message, hmessage⟩

/-- A tape of half the words there are passes the check of the settings. Nothing else is wrong with the command,
but it neither runs nor fails: the process gives up, with neither of the two codes. -/
theorem gives_up_on_long_tape :
    ∃ o,
      Draft.request ⟨some "prog.bf", none, [], [(.tapeSize, 9223372036854775808)]⟩ = .run o ∧
      o.settings.check = .ok () ∧ Pairing.ofSource o.settings.bracketCapacity #[] = .ok (.empty 0) ∧
      o.execute (.ok #[]) =
        .crash { code := 101, report := "Loaded prog.bf (0 bytes, 0 bytes of input)\n" } ∧
      ¬ ∃ e, o.execute (.ok #[]) = .exit e ∧ (e.code = 0 ∨ e.code = 1) := by
  let o : Options := { source := "prog.bf", settings := { tapeSize := 9223372036854775808 } }
  have hrequest :
      Draft.request ⟨some "prog.bf", none, [], [(.tapeSize, 9223372036854775808)]⟩ = .run o := rfl
  have husable : o.settings.check = .ok () := rfl
  have hpaired : Pairing.ofSource o.settings.bracketCapacity #[] = .ok (.empty 0) := rfl
  have hlong : Program.TooLong o.settings #[] := ⟨husable, ⟨_, hpaired⟩, by decide⟩
  have hloaded : o.loadedNote #[] = "Loaded prog.bf (0 bytes, 0 bytes of input)\n" := by decide +kernel
  have hexecute : o.execute (.ok #[]) = .crash { code := 101, report := o.loadedNote #[] } :=
    Options.Ends.execute_eq (.gaveUp rfl hlong)
  rw [hloaded] at hexecute
  refine ⟨o, hrequest, husable, hpaired, hexecute, ?_⟩
  rintro ⟨e, hexit, -⟩
  rw [hexecute] at hexit
  cases hexit

end Command

end TapeDebugger
