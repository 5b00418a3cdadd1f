import TileRobot.Proofs.CommandLine.Arguments
import TileRobot.Proofs.CommandLine.ExitCode
import TileRobot.Proofs.Json.Lines
import TileRobot.Proofs.Program.RoundTrip

/-!
# What a search prints is confirmed by a run

A search that finds a program prints it in a line of its report, and the text in this line can be
given back to the program as it stands: a run of it on the same level has the same outcome. Three
things come together here.

* The line shows the written form of the program that was found and nothing else
  (`eq_render_of_mem_report`), since no character of a written program is escaped.
* The program is read again from its written form. The routines that it calls are declared, there
  are as many as the level has bounds, and so many a text can only write if it has as many
  characters (`numbered_of_challengeOf`).
* The program has no fault, and its run comes to the outcome that the search has seen
  (`replyToProgram_of_run`), with an account of it or without.
-/

namespace TileRobot

open Json (Value Letter)

/-! ### Written programs in records -/

theorem Program.render_char_of_mem_render {p : Program} {c : Char} (hc : c ∈ p.render.toList) :
    (Letter.char c).render = [c] := by
  rcases p.forall_mem_render c hc with hmark | hmem
  · exact Json.render_char (Nat.le_of_succ_le (toNat_of_isMark hmark).1)
      (ne_of_isMark hmark (by decide)) (ne_of_isMark hmark (by decide))
  · have hall : ∀ d ∈ [' ', ',', '[', ']', '+'], (Letter.char d).render = [d] :=
      List.all_iff_forall_prop.1 rfl
    exact hall c hmem

namespace CommandLine

/-- The line of a record that shows a text as its program. -/
def programLine (text : String) : String := "  \"program\": \"" ++ text ++ "\","

theorem toList_programLine (text : String) : (programLine text).toList =
    "  \"program\": \"".toList ++ text.toList ++ ['\x22', ','] :=
  String.toList_append.trans (congrArg (· ++ "\",".toList) String.toList_append)

/-- The line of a program is the line for the text that is written for it. -/
theorem fieldLine_program (p : Program) :
    String.ofList (Value.fieldLine ("program", .ofString p.render) ++ [',']) =
      programLine p.render := by
  have hstring := Json.renderString_letters fun c hc ↦ p.render_char_of_mem_render hc
  rw [← String.toList_inj, String.toList_ofList, toList_programLine, Value.fieldLine,
    Value.ofString, Value.renderScalar, hstring]
  simp only [List.append_assoc, List.cons_append, List.nil_append]
  rfl

/-! ### Reports and answers -/

section Lines

variable {p : Program} {text : String} {attempts nanoseconds : Nat}

/-- The lines of a report on a program that was found. -/
theorem spreadLines_report : (Search.Report.toJson ⟨.found p attempts, nanoseconds⟩).spreadLines =
    ["\x7b", String.ofList (Value.fieldLine ("status", .ofString "found") ++ [',']),
      String.ofList (Value.fieldLine ("attempts", .integer attempts) ++ [',']),
      programLine p.render,
      String.ofList (Value.fieldLine ("timeElapsedMs",
        .integer (Search.Report.milliseconds ⟨.found p attempts, nanoseconds⟩))), "\x7d"] := by
  rw [← fieldLine_program]
  refine Value.spreadLines_ofFields (List.cons_ne_nil _ _) (List.forall_mem_cons.2 ⟨.string _,
    List.forall_mem_cons.2 ⟨.integer _, List.forall_mem_cons.2 ⟨.string _,
      List.forall_mem_singleton.2 (.integer _)⟩⟩⟩)

/-- The line of a field whose name begins with another letter shows no program. -/
theorem programLine_ne_fieldLine {name : String} {c : Char} {s rest : List Char} {v : Value}
    (hplain : ∀ d ∈ name.toList, (Letter.char d).render = [d]) (hname : name.toList = c :: s)
    (hc : c ≠ 'p') : programLine text ≠ String.ofList (Value.fieldLine (name, v) ++ rest) := by
  intro hline
  rw [← String.toList_inj, String.toList_ofList, toList_programLine, Value.fieldLine,
    Json.renderString_letters hplain, hname] at hline
  exact hc (Option.some.inj (congrArg (·[3]?) hline)).symm

theorem programLine_ne_singleton (c : Char) : programLine text ≠ String.ofList [c] := by
  intro hline
  rw [← String.toList_inj, String.toList_ofList, toList_programLine] at hline
  exact Option.some_ne_none ' ' (congrArg (·[1]?) hline)

/-- **A report shows one text as its program**, the written form of what was found. -/
theorem eq_render_of_mem_report (h : programLine text ∈
    (Search.Report.toJson ⟨.found p attempts, nanoseconds⟩).spreadLines) : text = p.render := by
  rw [spreadLines_report] at h
  simp only [List.mem_cons, List.not_mem_nil, or_false] at h
  rcases h with h | h | h | h | h | h
  · exact absurd h (programLine_ne_singleton '\x7b')
  · exact absurd h (programLine_ne_fieldLine (List.all_iff_forall_prop.1 rfl) (c := 's') rfl
      (by decide))
  · exact absurd h (programLine_ne_fieldLine (List.all_iff_forall_prop.1 rfl) (c := 'a') rfl
      (by decide))
  · rw [← String.toList_inj, toList_programLine, toList_programLine] at h
    exact String.toList_inj.1 (List.append_cancel_left (List.append_cancel_right h))
  · rw [← List.append_nil (Value.fieldLine _)] at h
    exact absurd h (programLine_ne_fieldLine (List.all_iff_forall_prop.1 rfl) (c := 't') rfl
      (by decide))
  · exact absurd h (programLine_ne_singleton '\x7d')

/-- The answer to a run that has solved the level shows the program and the outcome. -/
theorem replyToEnding_solved (p : Program) (lines : List String) :
    replyToEnding p (.finished .solved) lines =
      ⟨Reply.solvedCode, ["\x7b", programLine p.render, "  \"outcome\": \"Solved\"", "\x7d"],
        lines⟩ := by
  have hlines : (Value.ofFields [("program", .ofString p.render),
      ("outcome", .ofString Machine.Outcome.solved.name)]).spreadLines =
        ["\x7b", programLine p.render, "  \"outcome\": \"Solved\"", "\x7d"] := by
    rw [← fieldLine_program]
    exact Value.spreadLines_ofFields (List.cons_ne_nil _ _)
      (List.forall_mem_cons.2 ⟨.string _, List.forall_mem_singleton.2 (.string _)⟩)
  exact congrArg (Reply.mk Reply.solvedCode · lines) hlines

end Lines

/-! ### Programs that were found -/

variable {textOf? : String → Id (Option String)} {clock : Nat → Id Nat} {fuel : Nat}
  {challenge : Challenge} {limits : Search.Limits} {p : Program} {text : String}

/-- The routines that a program for a level calls have numbers with a place in 64 bits, unless the
text of the level is longer than that. -/
theorem numbered_of_challengeOf (hlevel : challengeOf (some text) = .ok challenge)
    (hlength : text.length < Text.limit64) (hp : challenge.fault? p = none) : p.Numbered := by
  obtain ⟨_, l, htext, hl, hc⟩ := exists_level_of_challengeOf hlevel
  obtain rfl := Option.some.inj htext
  obtain ⟨b, -, -, -, -, rfl⟩ := Level.challenge_eq_ok_iff.1 hc
  have hfits : p.Fits l.bounds := Program.fault?_eq_none_iff.1 hp
  have hbounds := Level.length_bounds_le hl
  have hsize := hfits.1
  intro r hr i hi t ht
  have htarget := Program.closed_of_fits hfits r hr i hi t ht
  omega

/-- A search that is answered with the code for a solved level has found a program, and the answer
is the report on it. -/
theorem exists_found_of_code
    (hcode : (solve clock fuel challenge limits).run.code = Reply.solvedCode) :
    ∃ p attempts nanoseconds,
      Search.search clock fuel challenge limits = .ok (.found p attempts) ∧
        (solve clock fuel challenge limits).run.output =
          (Search.Report.toJson ⟨.found p attempts, nanoseconds⟩).spreadLines := by
  have hreply : ∃ nanoseconds, (solve clock fuel challenge limits).run =
      replyToSearch (Search.search clock fuel challenge limits) nanoseconds := ⟨_, rfl⟩
  obtain ⟨nanoseconds, hreply⟩ := hreply
  rw [hreply] at hcode ⊢
  generalize Search.search clock fuel challenge limits = r at hcode ⊢
  rcases r with (f | -) | (⟨p, attempts⟩ | _ | _)
  · exact absurd hcode (show Reply.invalidCode ≠ Reply.solvedCode by decide)
  · exact absurd hcode (show Reply.unfinishedCode ≠ Reply.solvedCode by decide)
  · exact ⟨p, attempts, nanoseconds, rfl, rfl⟩
  · exact absurd hcode (show Reply.unsolvedCode ≠ Reply.solvedCode by decide)
  · exact absurd hcode (show Reply.unsolvedCode ≠ Reply.solvedCode by decide)

/-- **A program without faults that solves the scene is answered so**, also when the run may take
more steps, and with an account of it or without. -/
theorem replyToProgram_of_run {h : Machine.Halt} {fuel' : Nat} (hread : Program.read text = .ok p)
    (hp : challenge.fault? p = none) (hrun : Machine.run fuel challenge.scene p = some h)
    (hsolved : h.ending = .finished .solved) (hfuel : fuel ≤ fuel') (trace : Bool) :
    ∃ lines, replyToProgram fuel' challenge text trace =
      ⟨Reply.solvedCode, ["\x7b", programLine p.render, "  \"outcome\": \"Solved\"", "\x7d"],
        lines⟩ := by
  have hrun' : Machine.run fuel' challenge.scene p = some h := Machine.runFrom_of_le hfuel hrun
  have hmap : (runOrTrace fuel' challenge.scene p trace).map Prod.fst =
      some (.finished .solved) := by
    rw [map_runOrTrace, hrun', Option.map_some, hsolved]
  obtain ⟨⟨_, lines⟩, hlines, rfl⟩ := Option.map_eq_some_iff.1 hmap
  refine ⟨lines, ?_⟩
  simp only [replyToProgram, hread, hp, hlines]
  exact replyToEnding_solved p lines

/-! ### Answers with the code for a solved level -/

/-- When the arguments ask for a search and the answer has the code for a solved level, the level
was loaded, the search has found a program, and the answer is the report on it. -/
theorem exists_found_of_code_execute {arguments : List String} {level : String}
    (hsolve : Request.ofArguments arguments = .ok (.perform (.solve level limits)))
    (hcode : (execute textOf? clock fuel arguments).run.code = Reply.solvedCode) :
    ∃ challenge p attempts nanoseconds, challengeOf (textOf? level) = .ok challenge ∧
      Search.search clock fuel challenge limits = .ok (.found p attempts) ∧
        (execute textOf? clock fuel arguments).run.output =
          (Search.Report.toJson ⟨.found p attempts, nanoseconds⟩).spreadLines := by
  simp only [execute, hsolve, perform_solve] at hcode ⊢
  rcases hlevel : challengeOf (textOf? level) with message | challenge <;> rw [hlevel] at hcode
  · exact absurd hcode (show Reply.invalidCode ≠ Reply.solvedCode by decide)
  · obtain ⟨p, attempts, nanoseconds, hfound, houtput⟩ := exists_found_of_code hcode
    exact ⟨challenge, p, attempts, nanoseconds, rfl, hfound, houtput⟩

/-- A text of the level with two blue tiles. -/
def oneStepText : String :=
  "\x7b\"board\": [\"BB\"], \"robot\": \x7b\"row\": 0, \"col\": 0, \"direction\": \"east\"\x7d, " ++
    "\"goals\": [[0, 1]], \"functionLengths\": [1]\x7d"

/-- Every file holds this text. -/
def oneStepFile (_ : String) : Id (Option String) := some oneStepText

theorem challengeOf_oneStepFile (level : String) :
    challengeOf (oneStepFile level) = .ok Search.oneStep := by
  have hread : Level.read? oneStepText = some oneStepLevel := by decide +kernel
  simp only [oneStepFile, challengeOf, hread]
  rfl

theorem ofArguments_oneStep : Request.ofArguments ["solve", "level.json", "--start-index", "8"] =
    .ok (.perform (.solve "level.json" { start := 8 })) := rfl

theorem execute_oneStep (clock : Nat → Id Nat) : ∃ nanoseconds,
    (execute oneStepFile clock 2 ["solve", "level.json", "--start-index", "8"]).run =
      replyToSearch (.ok (.found ⟨[[some ⟨.forward, some .blue⟩]]⟩ 1)) nanoseconds := by
  simp only [execute, ofArguments_oneStep, perform_solve, challengeOf_oneStepFile]
  exact ⟨_, congrArg (replyToSearch · _) (Search.search_oneStep clock)⟩

/-- **What a search prints as a program is confirmed by a run.** Let the arguments ask for a search,
let it be answered with the code for a solved level, and let the answer show a text as the program.
Then that text can be given to a run on the same level, and all arguments that ask for such a run,
with an account of it or without, are answered with the code for a solved level, the same text and
the outcome `Solved`. The run may take as many steps as the search allowed its trials, or more.

A text of `2 ^ 64` characters does not exist outside of the model, but only the lack of it keeps the
numbers of the routines so small that they are read again. -/
theorem run_confirms_solve {fuel' : Nat} {arguments : List String} {level : String}
    (hsolve : Request.ofArguments arguments = .ok (.perform (.solve level limits)))
    (hlength : ∀ levelText, textOf? level = some levelText → levelText.length < Text.limit64)
    (hcode : (execute textOf? clock fuel arguments).run.code = Reply.solvedCode)
    (hprinted : programLine text ∈ (execute textOf? clock fuel arguments).run.output)
    (hfuel : fuel ≤ fuel') (clock' : Nat → Id Nat) :
    (∀ trace, Request.ofArguments (runArguments level text trace) =
        .ok (.perform (.run level text trace))) ∧
      ∀ arguments' trace,
        Request.ofArguments arguments' = .ok (.perform (.run level text trace)) →
          ∃ lines, (execute textOf? clock' fuel' arguments').run =
            ⟨Reply.solvedCode, ["\x7b", programLine text, "  \"outcome\": \"Solved\"", "\x7d"],
              lines⟩ := by
  refine ⟨ofArguments_runArguments (level_ne_empty_of_ofArguments hsolve) text, ?_⟩
  intro arguments' trace hrequest
  obtain ⟨challenge, p, attempts, nanoseconds, hlevel, hfound, houtput⟩ :=
    exists_found_of_code_execute hsolve hcode
  obtain rfl : text = p.render := eq_render_of_mem_report (houtput ▸ hprinted)
  obtain ⟨hfault, h, hrun, hsolved⟩ := Search.run_of_search_found hfound
  have hread : Program.read p.render = .ok p := by
    obtain ⟨levelText, -, htext, -, -⟩ := exists_level_of_challengeOf hlevel
    have hsize := Program.size_pos_of_fits (Program.fault?_eq_none_iff.1 hfault)
      (bounds_ne_nil_of_challengeOf hlevel)
    rw [htext] at hlevel
    exact Program.read_render (List.length_pos_iff.1 hsize)
      (numbered_of_challengeOf hlevel (hlength levelText htext) hfault)
  simp only [execute, hrequest, perform_run, hlevel]
  exact replyToProgram_of_run hread hfault hrun hsolved hfuel trace

/-- The step on blue that a search finds from index eight on is confirmed by a run with an account
of it. -/
theorem run_confirms_solve_oneStep :
    ∃ lines, (execute oneStepFile (fun _ ↦ (0 : Nat)) 2
      ["run", "level.json", "[ (B)|forward ]", "--trace"]).run =
        ⟨Reply.solvedCode, ["\x7b", programLine "[ (B)|forward ]", "  \"outcome\": \"Solved\"",
          "\x7d"], lines⟩ := by
  obtain ⟨nanoseconds, hexecute⟩ := execute_oneStep fun _ ↦ (0 : Nat)
  have hlength : ∀ levelText, oneStepFile "level.json" = some levelText →
      levelText.length < Text.limit64 := by
    intro levelText hlevel
    obtain rfl := Option.some.inj hlevel
    decide +kernel
  have hcode := (congrArg Reply.code hexecute).trans (show _ = Reply.solvedCode from rfl)
  have hprinted : programLine "[ (B)|forward ]" ∈ (execute oneStepFile (fun _ ↦ (0 : Nat)) 2
      ["solve", "level.json", "--start-index", "8"]).run.output := by
    rw [hexecute]
    show _ ∈ (Search.Report.toJson _).spreadLines
    rw [spreadLines_report]
    exact List.mem_of_getElem? (i := 3) (congrArg some (congrArg programLine (by decide)))
  exact (run_confirms_solve ofArguments_oneStep hlength hcode hprinted le_rfl _).2 _ true rfl

end CommandLine

end TileRobot
