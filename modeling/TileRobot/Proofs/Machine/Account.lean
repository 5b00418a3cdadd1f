import TileRobot.Proofs.Machine.Lines
import TileRobot.Proofs.Machine.Trace

/-!
# Replaying an account

Whoever has the lines of an account and the scene of the start has all that a run did: the changes
told by the lines, made one after the other, lead to the board and the robot at its end (`replay`),
the numbers told by the lines count the goals down to those left (`CountsDown`), and the lines about
slots name the filled slots that the run came to (`visits`).

All this is shown for events first. What the events of one step tell is what the step does
(`tells_step`), so what has happened along a path tells what has become of the scene
(`tells_happened`), and so does the account of a run (`Accounts.tells`). That the readers get from
the lines what the events are about is shown in the module on lines.

An account does not tell how many steps there were, for a step onto an empty slot and a step at
which a routine ends leave no line. They are counted by the number of steps that a run must be
allowed before it gives an answer (`Accounts.exists_visits`).
-/

namespace TileRobot.Machine

variable {p : Program} {c d : Config} {s t u : Scene} {a : Trace} {h : Halt}
  {events events' : List Event} {k m n fuel : Nat} {l l' : List Nat}

/-! ### Changes made again -/

/-- The board and the robot after a change. -/
def Change.apply : Board × Robot → Change → Board × Robot
  | (board, robot), position q => (board, { robot with position := q })
  | (board, robot), heading o => (board, { robot with heading := o })
  | (board, robot), tile q color => (board.repaint q color, robot)

/-- The board and the robot after the changes of which lines tell, in order. -/
def replay (lines : List String) (start : Board × Robot) : Board × Robot :=
  (lines.filterMap Change.read?).foldl Change.apply start

/-! ### Counting down -/

/-- The numbers go down by one each, from just below the first number to the last. -/
inductive CountsDown : Nat → List Nat → Nat → Prop where
  /-- There are no numbers in between. -/
  | none {n : Nat} : CountsDown n [] n
  /-- The number just below comes first. -/
  | next {n m : Nat} {l : List Nat} (rest : CountsDown n l m) : CountsDown (n + 1) (n :: l) m

theorem CountsDown.append (hkm : CountsDown k l m) (hmn : CountsDown m l' n) :
    CountsDown k (l ++ l') n := by
  induction hkm with
  | none => exact hmn
  | next _ ih => exact .next (ih hmn)

/-! ### What the events of a step tell -/

/-- The events tell how a scene becomes another: their changes lead from its board and its robot to
those of the other, and their numbers count its goals down to those of the other. -/
structure Tells (events : List Event) (s t : Scene) : Prop where
  /-- The changes lead from the board and the robot to those of the other scene. -/
  changes : (events.filterMap Event.change?).foldl Change.apply (s.board, s.robot) =
    (t.board, t.robot)
  /-- The numbers count the goals down to those of the other scene. -/
  goals : CountsDown s.goals.size (events.filterMap Event.left?) t.goals.size

theorem tells_nil (s : Scene) : Tells [] s s where
  changes := rfl
  goals := .none

theorem Tells.append (hst : Tells events s t) (htu : Tells events' t u) :
    Tells (events ++ events') s u where
  changes := by rw [List.filterMap_append, List.foldl_append, hst.changes, htu.changes]
  goals := by
    rw [List.filterMap_append]
    exact hst.goals.append htu.goals

/-- An event that tells of no change and of no number can go before. -/
theorem Tells.cons {e : Event} (hchange : e.change? = none) (hleft : e.left? = none)
    (hst : Tells events s t) : Tells (e :: events) s t where
  changes := by rw [List.filterMap_cons_none hchange, hst.changes]
  goals := by
    rw [List.filterMap_cons_none hleft]
    exact hst.goals

namespace Performs

variable {o : Operation}

/-- **What an operation does is what its events tell.** -/
theorem tells (hperforms : Performs s o events t) : Tells events s t := by
  rcases hperforms with ⟨-, hgoal⟩ | ⟨-, hgoal⟩ | - | - | - | - | - | -
  case moved =>
    refine ⟨rfl, ?_⟩
    show CountsDown s.goals.size [] (s.goals.erase s.robot.ahead).size
    rw [Goals.erase_eq_self hgoal]
    exact .none
  case collected =>
    refine ⟨rfl, ?_⟩
    show CountsDown s.goals.size [(s.goals.erase s.robot.ahead).size] _
    rw [← Goals.size_erase hgoal]
    exact .next .none
  case blocked => exact tells_nil s
  case left => exact ⟨rfl, .none⟩
  case right => exact ⟨rfl, .none⟩
  case painted => exact ⟨rfl, .none⟩
  case kept => exact tells_nil s
  case called => exact tells_nil s

/-- An operation comes to no slot. -/
theorem isVisit_eq_false (hperforms : Performs s o events t) :
    ∀ e ∈ events, e.isVisit = false := by
  cases hperforms <;> simp [Event.isVisit]

end Performs

/-- **What a step does is what its events tell.** -/
theorem tells_step (p : Program) (c : Config) :
    Tells (step p c).events c.scene (step p c).next.scene := by
  rcases step_visits p c with ⟨frame, i, stack, -, htakes⟩ | ⟨hscene, hevents, hskipped⟩
  · rw [htakes.step_eq]
    exact .cons rfl rfl (performs p.size c.scene stack i.operation).tells
  · rw [hscene, hevents]
    rcases hvisit : visit? p c with - | e
    · exact tells_nil c.scene
    · obtain ⟨frame, i, rfl⟩ := hskipped e hvisit
      exact .cons rfl rfl (tells_nil c.scene)

/-- **The slot that a step comes to is the only one that its events name.** -/
theorem filter_events_step (p : Program) (c : Config) :
    (step p c).events.filter Event.isVisit = (visit? p c).toList := by
  rcases step_visits p c with ⟨frame, i, stack, hvisit, htakes⟩ | ⟨-, hevents, hskipped⟩
  · have hrest : (perform p.size c.scene stack i.operation).events.filter Event.isVisit = [] :=
      List.filter_eq_nil_iff.2 fun e he ↦ by simp [(performs _ _ _ _).isVisit_eq_false e he]
    rw [htakes.step_eq, hvisit, Step.events_precede, List.filter_cons_of_pos rfl, hrest]
    rfl
  · rw [hevents]
    rcases hvisit : visit? p c with - | e
    · rfl
    · obtain ⟨frame, i, rfl⟩ := hskipped e hvisit
      rfl

/-! ### Along the path -/

/-- The filled slots that the machine comes to in its first `n` steps, in order. -/
def visits (p : Program) (c : Config) (n : Nat) : List Event :=
  (List.range n).filterMap fun k ↦ (after? p c k).bind (visit? p)

theorem visits_succ (hn : after? p c n = some d) :
    visits p c (n + 1) = visits p c n ++ (visit? p d).toList := by
  rw [visits, List.range_succ, List.filterMap_append]
  rcases hvisit : visit? p d with - | e <;> simp [visits, hn, hvisit]

/-- **What has happened tells what has become of the scene.** -/
theorem tells_happened (hn : after? p c n = some d) : Tells (happened p c n) c.scene d.scene := by
  induction n generalizing d with
  | zero =>
    obtain rfl := Option.some.inj hn
    exact tells_nil c.scene
  | succ n ih =>
    obtain ⟨e, he, hnext⟩ := exists_next?_of_after?_succ hn
    obtain ⟨-, rfl⟩ := next?_eq_some_iff.1 hnext
    rw [happened_succ he]
    exact (ih he).append (tells_step p e)

theorem filter_happened (hn : after? p c n = some d) :
    (happened p c n).filter Event.isVisit = visits p c n := by
  induction n generalizing d with
  | zero => rfl
  | succ n ih =>
    obtain ⟨e, he, -⟩ := exists_next?_of_after?_succ hn
    rw [happened_succ he, List.filter_append, ih he, filter_events_step, visits_succ he]

/-! ### At the end of a run -/

namespace Accounts

theorem tells (ha : Accounts p c a) : Tells a.events c.scene a.halt.scene := by
  rcases ha with ⟨hn, -, -⟩ | ⟨hn, -, hends⟩
  · exact tells_happened hn
  · obtain ⟨-, rfl⟩ := ends_iff.2 hends
    exact (tells_happened hn).append (tells_step p _)

/-- **An account names the slots of the steps that were made**, which are as many as the run must be
allowed before it gives an answer. The last of these is not made if it would end a repetition. -/
theorem exists_visits (ha : Accounts p (Config.start s) a) :
    ∃ n, run n s p = none ∧ (∃ h, run (n + 1) s p = some h) ∧
      a.events.filter Event.isVisit = visits p (Config.start s)
        (if a.halt.ending = .finished .loopDetected then n else n + 1) := by
  rcases ha with @⟨n, d, hn, hfresh, i, hrep⟩ | @⟨n, d, e, u, hn, hfresh, hends⟩
  · refine ⟨n, run_eq_none_of_fresh hn hfresh, exists_run_of_repetition hrep, ?_⟩
    rw [if_pos rfl]
    exact filter_happened hn
  · obtain ⟨k, hk, -⟩ := exists_run_of_haltsAt (haltsAt_iff.2 ⟨d, hn, hends⟩ : HaltsAt p _ n ⟨e, u⟩)
    refine ⟨n, run_eq_none_of_fresh hn hfresh, ⟨k, hk⟩, ?_⟩
    rw [if_neg hends.ne_loopDetected, List.filter_append, filter_happened hn, filter_events_step,
      visits_succ hn]

end Accounts

/-- **The trace of a run is a faithful account of it that can be replayed.** Keeping it does not
change the answer. From the lines of a run that gives an answer, and from the scene of the start,
one gets the board and the robot at its end; the numbers of goals left go down by one each, to the
number of those left at the end. The lines about slots are those of the filled slots that the steps
of the run come to, in order, each taken up or skipped as its guard says, and a line ends with the
word exactly where the slot is skipped. A line for an outcome is there if and only if the run ends
by the rules, and then it is the last line and the only one of its kind. -/
theorem trace_replayable (s : Scene) (p : Program) :
    (∀ fuel, (trace fuel s p).map Trace.halt = run fuel s p) ∧
      (∀ frame i, TellsSkip (Event.skipped frame i).render ∧
        ¬ TellsSkip (Event.taken frame i).render) ∧
      ∀ fuel h, run fuel s p = some h → ∃ a, trace fuel s p = some a ∧ a.halt = h ∧
        replay a.lines (s.board, s.robot) = (h.scene.board, h.scene.robot) ∧
        CountsDown s.goals.size (a.lines.filterMap goalsLeft?) h.scene.goals.size ∧
        (∃ n, run n s p = none ∧ run (n + 1) s p = some h ∧
          a.lines.filter (TellsSlot ·) = (visits p (Config.start s)
            (if h.ending = .finished .loopDetected then n else n + 1)).map Event.render) ∧
        (∀ o, h.ending = .finished o → ∃ before, a.lines = before ++ [s!"outcome: {o.name}"] ∧
          ∀ line ∈ before, ¬ TellsOutcome line) ∧
        ((∃ line ∈ a.lines, TellsOutcome line) ↔ ∃ o, h.ending = .finished o) := by
  refine ⟨fun fuel ↦ halt_traceFrom p fuel #[] ∅ (Config.start s),
    fun frame i ↦ ⟨tellsSkip_render_skipped, not_tellsSkip_render_taken⟩, fun fuel h hrun ↦ ?_⟩
  obtain ⟨events, htrace⟩ := exists_trace_of_run hrun
  have ha := accounts_of_trace htrace
  obtain ⟨hchanges, hgoals⟩ := ha.tells
  obtain ⟨n, hnone, ⟨k, hk⟩, hvisits⟩ := ha.exists_visits
  obtain rfl := run_unique hrun hk
  refine ⟨⟨events, h⟩, htrace, rfl, ?_, ?_, ⟨n, hnone, hk, ?_⟩, fun o ho ↦ ?_, ?_⟩
  · rw [replay, Trace.filterMap_change]
    exact hchanges
  · rw [Trace.filterMap_left]
    exact hgoals
  · rw [Trace.filter_slot, hvisits]
  · exact ⟨_, Trace.lines_of_finished ho, fun line hline ↦ Trace.not_tellsOutcome hline⟩
  · exact Trace.exists_outcome_iff

/-- A red tile above a green one with a goal on it, the robot on the red one facing west. -/
def goalBelow : Scene where
  board := ⟨1, 2, #[some .red, some .green], rfl⟩
  robot := ⟨⟨0, 0⟩, .west⟩
  goals := .ofList [⟨1, 0⟩]

/-- Turns, would paint a blue tile green, leaves a slot empty, paints the tile blue and goes on. -/
def turnPaintMove : Program :=
  ⟨[[some ⟨.left, none⟩, some ⟨.paint .green, some .blue⟩, none, some ⟨.paint .blue, none⟩,
    some ⟨.forward, none⟩]]⟩

/-- The run makes five steps. Four of them come to a filled slot, and one of these is skipped. -/
theorem trace_replayable_turnPaintMove :
    ∃ h a, run 5 goalBelow turnPaintMove = some h ∧ trace 5 goalBelow turnPaintMove = some a ∧
      h.ending = .finished .solved ∧
      replay a.lines (goalBelow.board, goalBelow.robot) =
        (⟨1, 2, #[some .blue, some .green], rfl⟩, ⟨⟨1, 0⟩, .south⟩) ∧
      CountsDown 1 (a.lines.filterMap goalsLeft?) 0 ∧
      a.lines.filter (TellsSlot ·) =
        ["F1[0] left", "F1[1] (B)|TO:G: skipped", "F1[3] TO:B", "F1[4] forward"] ∧
      ∃ before, a.lines = before ++ ["outcome: Solved"] ∧ ∀ line ∈ before, ¬ TellsOutcome line := by
  have hhalts : HaltsAt turnPaintMove (Config.start goalBelow) 4 ⟨.finished .solved,
      ⟨⟨1, 2, #[some .blue, some .green], rfl⟩, ⟨⟨1, 0⟩, .south⟩, ∅⟩⟩ := ⟨_, rfl, rfl, rfl⟩
  have hrun := run_of_haltsAt_of_nodup hhalts (by decide)
  obtain ⟨-, -, hlines⟩ := trace_replayable goalBelow turnPaintMove
  obtain ⟨a, htrace, -, hreplay, hgoals, ⟨n, hnone, hsome, hslots⟩, houtcome, -⟩ := hlines 5 _ hrun
  -- fewer steps would not have been enough, and more would not have been needed
  obtain ⟨m, hm, hhaltsAt⟩ := exists_haltsAt_of_run hsome (by decide)
  obtain ⟨rfl, -⟩ := hhaltsAt.unique hhalts
  have hn : n = 4 := by
    by_contra hne
    have hlater := runFrom_of_le (show 5 ≤ n by omega) hrun
    exact Option.some_ne_none _ (hlater.symm.trans hnone)
  subst hn
  exact ⟨_, a, hrun, htrace, rfl, hreplay, hgoals, hslots.trans (by decide), houtcome _ rfl⟩

end TileRobot.Machine
