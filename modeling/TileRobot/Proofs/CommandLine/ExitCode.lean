import TileRobot.CommandLine.Execute
import TileRobot.Proofs.Level.Loading
import TileRobot.Proofs.Search.FirstSolution
import TileRobot.Proofs.Search.Safety

/-!
# When input is invalid

The program answers with the code for invalid input in several places: when a level cannot be
loaded, when a text is no program for it, but also when a search or a run ends with a fault. The
last two never happen. A level that could be loaded has a routine (`bounds_ne_nil_of_challengeOf`),
so no search for its challenge stops for a fault and no program without faults has one when it is
run.
Hence the code says that the input is invalid in the sense of `Invalid`, and nothing else
(`code_execute_eq_invalidCode_iff`).

Files and the clock are plain functions here.
-/

namespace TileRobot.CommandLine

variable {textOf? : String → Id (Option String)} {clock : Nat → Id Nat} {fuel : Nat}
  {challenge : Challenge} {limits : Search.Limits} {p : Program} {program : String} {trace : Bool}
  {command : Command}

/-! ### Loaded levels -/

/-- A challenge from the text of a file is that of the level in the text. -/
theorem exists_level_of_challengeOf {text? : Option String}
    (h : challengeOf text? = .ok challenge) :
    ∃ text l, text? = some text ∧ Level.read? text = some l ∧ l.challenge = .ok challenge := by
  simp only [challengeOf] at h
  split at h
  · contradiction
  split at h
  · contradiction
  · rename_i text _ l hl
    rcases hc : l.challenge with fault | c <;> rw [hc] at h
    · contradiction
    · exact ⟨text, l, rfl, hl, hc.trans (congrArg Except.ok (Except.ok.inj h))⟩

theorem bounds_ne_nil_of_challenge {l : Level} (h : l.challenge = .ok challenge) :
    challenge.bounds ≠ [] := by
  obtain ⟨b, -, -, -, hbounds, rfl⟩ := Level.challenge_eq_ok_iff.1 h
  exact hbounds

theorem bounds_ne_nil_of_challengeOf {text? : Option String}
    (h : challengeOf text? = .ok challenge) : challenge.bounds ≠ [] := by
  obtain ⟨_, l, -, -, hl⟩ := exists_level_of_challengeOf h
  exact bounds_ne_nil_of_challenge hl

/-! ### Exit codes -/

theorem solvedCode_ne : Reply.solvedCode ≠ Reply.invalidCode := by decide

theorem unsolvedCode_ne : Reply.unsolvedCode ≠ Reply.invalidCode := by decide

theorem unfinishedCode_ne : Reply.unfinishedCode ≠ Reply.invalidCode := by decide

theorem code_shown_ne (solved : Bool) (v : Json.Value) :
    (Reply.shown solved v).code ≠ Reply.invalidCode := by
  rcases solved with - | -
  · exact unsolvedCode_ne
  · exact solvedCode_ne

theorem code_replyToEnding_ne (p : Program) (outcome : Machine.Outcome) (lines : List String) :
    (replyToEnding p (.finished outcome) lines).code ≠ Reply.invalidCode :=
  code_shown_ne _ (.ofFields [("program", .ofString p.render), ("outcome", .ofString outcome.name)])

/-- The reply to a search has another code, since no search stops for a fault. -/
theorem code_solve_ne (hbounds : challenge.bounds ≠ []) :
    (solve clock fuel challenge limits).run.code ≠ Reply.invalidCode := by
  have hsearch := Search.search_ne_fault hbounds clock fuel limits
  show (replyToSearch (Search.search clock fuel challenge limits) _).code ≠ _
  rcases hr : Search.search clock fuel challenge limits with (f | -) | result
  · exact absurd hr (hsearch f)
  · exact unfinishedCode_ne
  · exact code_shown_ne _ _

/-- How a run is accounted for does not matter to how it ends. -/
theorem map_runOrTrace (fuel : Nat) (s : Scene) (p : Program) (trace : Bool) :
    (runOrTrace fuel s p trace).map Prod.fst = (Machine.run fuel s p).map Machine.Halt.ending := by
  rcases trace with - | -
  · rw [runOrTrace, if_neg Bool.false_ne_true, Option.map_map]
    rfl
  · rw [runOrTrace, if_pos rfl, Option.map_map, Machine.run, ← Machine.halt_traceFrom p fuel #[],
      Option.map_map]
    rfl

/-- **The reply to a program has the code for invalid input exactly if the program is faulty.** -/
theorem code_replyToProgram_eq_iff (hbounds : challenge.bounds ≠ []) :
    (replyToProgram fuel challenge program trace).code = Reply.invalidCode ↔
      (∃ f, Program.read program = .error f) ∨
        ∃ p f, Program.read program = .ok p ∧ challenge.fault? p = some f := by
  rw [replyToProgram]
  rcases Program.read program with f | p
  · exact ⟨fun _ ↦ Or.inl ⟨f, rfl⟩, fun _ ↦ rfl⟩
  simp only [reduceCtorEq, exists_false, false_or, Except.ok.injEq, exists_and_left,
    exists_eq_left']
  rcases hfault : challenge.fault? p with - | f
  · refine iff_of_false ?_ (fun ⟨_, h⟩ ↦ Option.some_ne_none _ h.symm)
    rcases hrun : runOrTrace fuel challenge.scene p trace with - | ⟨outcome | f, lines⟩
    · exact unfinishedCode_ne
    · exact code_replyToEnding_ne p outcome lines
    · have hmap := (congrArg (Option.map Prod.fst) hrun).symm.trans (map_runOrTrace _ _ _ _)
      obtain ⟨k, hk, hending⟩ := Option.map_eq_some_iff.1 hmap.symm
      exact absurd hending (challenge.ending_ne_faulted hbounds hfault hk f)
  · exact iff_of_true rfl ⟨f, rfl⟩

/-! ### Invalid input -/

/-- The file of the level that a command is about. -/
def Command.level : Command → String
  | solve level _ => level
  | run level _ _ => level

/-- The input of a command is invalid when its level cannot be loaded, or when it is to run what is
no program or has a fault. -/
inductive Invalid (textOf? : String → Id (Option String)) : Command → Prop where
  /-- The level cannot be loaded. -/
  | level {command : Command} {message : String}
    (unloaded : challengeOf (textOf? command.level) = .error message) : Invalid textOf? command
  /-- The text is no program. -/
  | text {level program : String} {trace : Bool} {challenge : Challenge} {f : SyntaxFault}
    (loaded : challengeOf (textOf? level) = .ok challenge)
    (unread : Program.read program = .error f) : Invalid textOf? (.run level program trace)
  /-- The program has a fault. -/
  | program {level program : String} {trace : Bool} {challenge : Challenge} {p : Program}
    {f : ProgramFault} (loaded : challengeOf (textOf? level) = .ok challenge)
    (read : Program.read program = .ok p) (faulty : challenge.fault? p = some f) :
    Invalid textOf? (.run level program trace)

/-- The answer to a command `solve` is that to the challenge of its level. -/
theorem perform_solve (textOf? : String → Id (Option String)) (clock : Nat → Id Nat) (fuel : Nat)
    (level : String) (limits : Search.Limits) :
    (perform textOf? clock fuel (.solve level limits)).run =
      match challengeOf (textOf? level) with
      | .error message => Reply.invalid message
      | .ok challenge => (solve clock fuel challenge limits).run := by
  show (match challengeOf (textOf? level) with
    | .error message => (pure (Reply.invalid message) : Id Reply)
    | .ok challenge => solve clock fuel challenge limits).run = _
  split <;> rfl

/-- The answer to a command `run` is that to its program on the challenge of its level. -/
theorem perform_run (textOf? : String → Id (Option String)) (clock : Nat → Id Nat) (fuel : Nat)
    (level program : String) (trace : Bool) :
    (perform textOf? clock fuel (.run level program trace)).run =
      match challengeOf (textOf? level) with
      | .error message => Reply.invalid message
      | .ok challenge => replyToProgram fuel challenge program trace := by
  show (match challengeOf (textOf? level) with
    | .error message => (pure (Reply.invalid message) : Id Reply)
    | .ok challenge => pure (replyToProgram fuel challenge program trace)).run = _
  split <;> rfl

/-- A command is answered with the code for invalid input exactly if its input is invalid. -/
theorem code_perform_eq_iff :
    (perform textOf? clock fuel command).run.code = Reply.invalidCode ↔
      Invalid textOf? command := by
  rcases command with ⟨level, limits⟩ | ⟨level, program, trace⟩
  · rw [perform_solve]
    rcases hlevel : challengeOf (textOf? level) with message | challenge
    · exact iff_of_true rfl (.level hlevel)
    · refine iff_of_false (code_solve_ne (bounds_ne_nil_of_challengeOf hlevel)) ?_
      rintro ⟨hnone⟩
      rw [Command.level, hlevel] at hnone
      contradiction
  · rw [perform_run]
    rcases hlevel : challengeOf (textOf? level) with message | challenge
    · exact iff_of_true rfl (.level hlevel)
    · refine (code_replyToProgram_eq_iff (bounds_ne_nil_of_challengeOf hlevel)).trans ?_
      constructor
      · rintro (⟨f, hf⟩ | ⟨p, f, hp, hf⟩)
        · exact .text hlevel hf
        · exact .program hlevel hp hf
      · rintro (hnone | ⟨-, hf⟩ | ⟨hloaded, hp, hf⟩)
        · rw [Command.level, hlevel] at hnone
          contradiction
        · exact Or.inl ⟨_, hf⟩
        · obtain rfl := Except.ok.inj (hlevel.symm.trans hloaded)
          exact Or.inr ⟨_, _, hp, hf⟩

/-- **The code for invalid input is given only for that.** -/
theorem code_execute_eq_invalidCode_iff (textOf? : String → Id (Option String))
    (clock : Nat → Id Nat) (fuel : Nat) (arguments : List String) :
    (execute textOf? clock fuel arguments).run.code = Reply.invalidCode ↔
      ∃ command, Request.ofArguments arguments = .ok (.perform command) ∧
        Invalid textOf? command := by
  rw [execute]
  rcases Request.ofArguments arguments with f | command | topic | -
  · exact iff_of_false unsolvedCode_ne nofun
  · simp only [Except.ok.injEq, Request.perform.injEq, exists_eq_left']
    exact code_perform_eq_iff
  · exact iff_of_false solvedCode_ne nofun
  · exact iff_of_false solvedCode_ne nofun

/-- **No fault gets past the checks.** For a challenge with a routine no search stops for a fault,
whatever its limits and the clock, and a program in which the challenge finds no fault ends with
none, on whatever scene it is run. The challenges of levels have a routine. So the code for invalid
input is given for a level that cannot be loaded, for a text that is no program and for a program
with a fault, and for nothing else. -/
theorem faults_are_caught :
    (∀ challenge : Challenge, challenge.bounds ≠ [] →
      (∀ (clock : Nat → Id Nat) (fuel : Nat) (limits : Search.Limits) (f : ProgramFault),
        Search.search clock fuel challenge limits ≠ .error (.fault f)) ∧
      ∀ p, challenge.fault? p = none → ∀ (fuel : Nat) (s : Scene) (h : Machine.Halt)
        (f : ProgramFault), Machine.run fuel s p = some h → h.ending ≠ .faulted f) ∧
    (∀ (l : Level) (challenge : Challenge), l.challenge = .ok challenge → challenge.bounds ≠ []) ∧
    ∀ (textOf? : String → Id (Option String)) (clock : Nat → Id Nat) (fuel : Nat)
      (arguments : List String),
      (execute textOf? clock fuel arguments).run.code = Reply.invalidCode ↔
        ∃ command, Request.ofArguments arguments = .ok (.perform command) ∧
          Invalid textOf? command :=
  ⟨fun challenge hbounds ↦ ⟨Search.search_ne_fault hbounds, fun _ hp _ _ _ f hrun ↦
    challenge.ending_ne_faulted hbounds hp hrun f⟩, fun _ _ ↦ bounds_ne_nil_of_challenge,
    code_execute_eq_invalidCode_iff⟩

/-- Two blue tiles, to be solved with one slot. -/
def oneStepLevel : Level := ⟨none, none, ["BB"], ⟨⟨0, 0⟩, .east⟩, [⟨0, 1⟩], [1], []⟩

/-- The level can be loaded, a step forward can be run on it without a fault, and so can whatever a
search tries. -/
theorem faults_are_caught_oneStep :
    oneStepLevel.challenge = .ok Search.oneStep ∧ Search.oneStep.bounds ≠ [] ∧
      (∀ (limits : Search.Limits) (f : ProgramFault),
        Search.search (fun _ ↦ (0 : Id Nat)) 1 Search.oneStep limits ≠ .error (.fault f)) ∧
      Search.oneStep.fault? ⟨[[some ⟨.forward, none⟩]]⟩ = none ∧
      ∃ h, Machine.run 1 Machine.twoTiles ⟨[[some ⟨.forward, none⟩]]⟩ = some h ∧
        ∀ f, h.ending ≠ .faulted f := by
  have hlevel : oneStepLevel.challenge = .ok Search.oneStep := rfl
  have hbounds := faults_are_caught.2.1 oneStepLevel _ hlevel
  have hfault : Search.oneStep.fault? ⟨[[some ⟨.forward, none⟩]]⟩ = none := by decide
  have hrun : Machine.run 1 Machine.twoTiles ⟨[[some ⟨.forward, none⟩]]⟩ =
      some ⟨.finished .solved, Machine.twoTiles.enter ⟨0, 1⟩⟩ :=
    Machine.runFrom_of_ending (Machine.Evidence.not_repeats_empty _) rfl
  obtain ⟨hsearch, hprogram⟩ := faults_are_caught.1 Search.oneStep hbounds
  exact ⟨hlevel, hbounds, hsearch _ 1, hfault, _, hrun, fun f ↦ hprogram _ hfault 1 _ _ f hrun⟩

end TileRobot.CommandLine
