import TileRobot.CommandLine.Command
import TileRobot.Proofs.Text.Parts

/-!
# What the reading of arguments keeps

The arguments of a command are taken one after the other, each as an option or an operand. So a
property of what is known of the command holds at the end if it holds at the start and all that can
be taken keeps it (`Intake.Keeps.takeAll`). In this way a level that is to be solved has a name
(`level_ne_empty_of_ofArguments`), and then the same level can be asked for in a run, with any text
for the program (`ofArguments_runArguments`).
-/

namespace TileRobot.CommandLine

variable {α β : Type} {intake : Intake α} {motive : α → Prop} {a b : α} {arguments : List String}

theorem liftFault_eq_ok_iff {r : Except UsageFault α} : liftFault r = .ok a ↔ r = .ok a := by
  rcases r with f | c
  · exact ⟨nofun, nofun⟩
  · exact ⟨fun h ↦ congrArg Except.ok (Except.ok.inj h),
      fun h ↦ congrArg Except.ok (Except.ok.inj h)⟩

theorem liftFault_bind_eq_ok_iff {r : Except UsageFault α} {f : α → Except Stop β} {c : β} :
    liftFault r >>= f = .ok c ↔ ∃ a, r = .ok a ∧ f a = .ok c := by
  simp only [Text.bind_eq_ok_iff, liftFault_eq_ok_iff]

/-! ### All that is taken -/

namespace Intake

/-- All that a command takes, be it an option with a value, one without or an operand, keeps a
property of what is known. -/
structure Keeps (intake : Intake α) (motive : α → Prop) : Prop where
  /-- Options with a value keep it. -/
  option : ∀ {name take a value b}, intake.option? name = some take → motive a →
    take a value = .ok b → motive b
  /-- Options without a value keep it. -/
  flag : ∀ {name take a b}, intake.flag? name = some take → motive a → take a = .ok b → motive b
  /-- Operands keep it. -/
  operand : ∀ {a value b}, motive a → intake.operand a value = .ok b → motive b

theorem Keeps.takeOperands (hk : intake.Keeps motive) (ha : motive a)
    (h : intake.takeOperands a arguments = .ok b) : motive b := by
  rw [Intake.takeOperands, liftFault_eq_ok_iff] at h
  induction arguments generalizing a with
  | nil =>
    obtain rfl := Except.ok.inj h
    exact ha
  | cons argument rest ih =>
    rw [List.foldlM_cons] at h
    obtain ⟨c, hc, h⟩ := Text.bind_eq_ok_iff.1 h
    exact ih (hk.operand ha hc) h

/-- **What is kept by all that a command takes is kept by the reading of its arguments.** -/
theorem Keeps.takeAll (hk : intake.Keeps motive) (ha : motive a)
    (h : intake.takeAll a arguments = .ok b) : motive b := by
  fun_induction Intake.takeAll intake a arguments with
  | case1 =>
    obtain rfl := Except.ok.inj h
    exact ha
  | case2 => exact hk.takeOperands ha h
  | case3 a argument rest text _ _ name take value hoption _ ih =>
    obtain ⟨c, hc, h⟩ := liftFault_bind_eq_ok_iff.1 h
    exact ih c (hk.option hoption ha hc) h
  | case4 a argument text _ _ name take hoption value rest _ _ ih =>
    obtain ⟨c, hc, h⟩ := liftFault_bind_eq_ok_iff.1 h
    exact ih c (hk.option hoption ha hc) h
  | case8 a argument rest text _ _ name _ take hflag _ ih =>
    rw [hflag] at h
    obtain ⟨c, hc, h⟩ := liftFault_bind_eq_ok_iff.1 h
    exact ih c (hk.flag hflag ha hc) h
  | case7 | case9 | case10 | case11 => simp_all
  | case14 a argument rest _ _ _ _ ih =>
    obtain ⟨c, hc, h⟩ := liftFault_bind_eq_ok_iff.1 h
    exact ih c (hk.operand ha hc) h
  | _ => contradiction

end Intake

/-! ### Levels -/

/-- A level that is taken has a name. -/
theorem ne_empty_of_takeLevel {level? : Option String} {value level : String}
    (h : takeLevel level? value = .ok level) : level ≠ "" := by
  simp only [takeLevel] at h
  split at h
  · contradiction
  split at h
  · contradiction
  · rename_i hvalue
    obtain rfl := Except.ok.inj h
    rintro rfl
    exact hvalue rfl

/-- Whatever a command `solve` takes, its level has a name. -/
theorem SolveDraft.intake_keeps : SolveDraft.intake.Keeps fun d ↦ ∀ l ∈ d.level?, l ≠ "" where
  option := by
    intro name take d value d' hoption hd h
    simp only [SolveDraft.intake] at hoption
    split at hoption
    case h_4 => contradiction
    all_goals
      obtain rfl := Option.some.inj hoption
      obtain ⟨n, -, h⟩ := Text.bind_eq_ok_iff.1 h
      split at h
      · cases h
      · obtain rfl := Except.ok.inj h
        exact hd
  flag h := by contradiction
  operand := by
    intro d value d' hd h
    obtain ⟨level, hlevel, h⟩ := Text.bind_eq_ok_iff.1 h
    obtain rfl := Except.ok.inj h
    exact fun l hl ↦ Option.some.inj hl ▸ ne_empty_of_takeLevel hlevel

theorem requestOf_eq_ok_perform_iff {topic : Topic} {r : Except Stop Command} {command : Command} :
    requestOf topic r = .ok (.perform command) ↔ r = .ok command := by
  rcases r with (- | f) | c
  · exact ⟨nofun, nofun⟩
  · exact ⟨nofun, nofun⟩
  · simp only [requestOf, Except.ok.injEq, Request.perform.injEq]

theorem level_ne_empty_of_readSolve {level : String} {limits : Search.Limits}
    (h : readSolve arguments = .ok (.solve level limits)) : level ≠ "" := by
  obtain ⟨d, hd, h⟩ := Text.bind_eq_ok_iff.1 h
  have hlevel := SolveDraft.intake_keeps.takeAll (fun l hl ↦ absurd hl (Option.not_mem_none l)) hd
  split at h
  · contradiction
  · rename_i l hl
    obtain rfl : l = level := (Command.solve.inj (Except.ok.inj h)).1
    exact hlevel l hl

/-- **A level that is to be solved has a name.** -/
theorem level_ne_empty_of_ofArguments {level : String} {limits : Search.Limits}
    (h : Request.ofArguments arguments = .ok (.perform (.solve level limits))) : level ≠ "" := by
  simp only [Request.ofArguments] at h
  split at h
  · contradiction
  · exact level_ne_empty_of_readSolve (requestOf_eq_ok_perform_iff.1 h)
  · have hrun := requestOf_eq_ok_perform_iff.1 h
    obtain ⟨d, -, hrun⟩ := Text.bind_eq_ok_iff.1 hrun
    split at hrun <;> cases hrun
  · simp only [readHelp] at h
    split at h <;> cases h
  · cases h
  · cases h
  · split at h <;> cases h

/-- The arguments that ask to run a program on a level, whatever characters the two begin with. -/
def runArguments (level program : String) (trace : Bool) : List String :=
  "run" :: ((if trace then ["--trace"] else []) ++ ["--", level, program])

/-- **The run of a program on a level with a name can be asked for.** -/
theorem ofArguments_runArguments {level : String} (hlevel : level ≠ "") (program : String)
    (trace : Bool) : Request.ofArguments (runArguments level program trace) =
      .ok (.perform (.run level program trace)) := by
  have htake : takeLevel none level = .ok level := by
    rw [takeLevel, if_neg (mt String.isEmpty_iff.1 hlevel)]
  have hoperands : RunDraft.intake.takeOperands { trace } [level, program] =
      .ok ⟨some level, some program, trace⟩ := by
    show liftFault ((takeLevel none level >>= fun l ↦
      (pure { level? := some l, trace } : Except UsageFault RunDraft)) >>= fun d ↦
        [program].foldlM RunDraft.intake.operand d) = _
    rw [htake]
    rfl
  have htakeAll : RunDraft.intake.takeAll {}
      ((if trace then ["--trace"] else []) ++ ["--", level, program]) =
        .ok ⟨some level, some program, trace⟩ := by
    rw [← hoperands]
    rcases trace with - | - <;> rfl
  show requestOf .run (readRun _) = _
  rw [requestOf_eq_ok_perform_iff, readRun, htakeAll]
  rfl

end TileRobot.CommandLine
