import TileRobot.Proofs.Machine.Trace

/-!
# How goals are collected

Goals are taken away by moves and by nothing else: a step leaves exactly the goals that were there
and that the robot does not enter with it (`mem_goals_step`). Hence the goals left at any time are
those of the start that have not been entered so far (`mem_goals_of_after?`).

A step after which the machine goes on leaves a goal, so the goals are never found to be complete
only later: a run that solves a scene stops with the move onto the last goal, unless there was none
from the start (`exists_last_move`).
-/

namespace TileRobot.Machine

variable {p : Program} {c d : Config} {s : Scene} {t : Trace} {q : Position} {fuel n : Nat}

/-! ### One step -/

/-- The step from a configuration carries a forward out, with which the robot enters `q`. -/
def Moves (p : Program) (c : Config) (q : Position) : Prop :=
  ∃ frame i stack, Takes p c frame i stack ∧ i.operation = .forward ∧
    c.scene.board.Passable c.scene.robot.ahead ∧ c.scene.robot.ahead = q

namespace Performs

variable {u : Scene} {o : Operation} {events : List Event}

theorem moved_mem_iff (hperforms : Performs s o events u) : .moved q ∈ events ↔
    o = .forward ∧ s.board.Passable s.robot.ahead ∧ s.robot.ahead = q := by
  rcases hperforms with ⟨hahead, -⟩ | ⟨hahead, -⟩ | hahead | - | - | - | - | -
  case moved => simp [hahead, eq_comm]
  case collected => simp [hahead, eq_comm]
  case blocked => simp [hahead]
  all_goals simp

/-- Only a forward that is carried out takes a goal away, the one on the tile that is entered. -/
theorem mem_goals (hperforms : Performs s o events u) :
    q ∈ u.goals ↔ q ∈ s.goals ∧ .moved q ∉ events := by
  cases hperforms <;> simp [Scene.enter]

end Performs

/-- What the account of a step calls a move is one. -/
theorem moved_mem_events_iff : .moved q ∈ (step p c).events ↔ Moves p c q := by
  rcases step_cases p c with ⟨frame, i, stack, htakes⟩ | ⟨-, hidle⟩
  · rw [htakes.step_eq, Step.events_precede, List.mem_cons, (performs _ _ _ _).moved_mem_iff]
    constructor
    · rintro (htaken | ⟨hforward, hahead, rfl⟩)
      · contradiction
      · exact ⟨frame, i, stack, htakes, hforward, hahead, rfl⟩
    · rintro ⟨frame', i', stack', htakes', hforward, hahead, rfl⟩
      obtain ⟨-, rfl⟩ : frame = frame' ∧ i = i' := by
        have hevents := congrArg Step.events (htakes.step_eq.symm.trans htakes'.step_eq)
        simpa using (List.cons.inj hevents).1
      exact Or.inr ⟨hforward, hahead, rfl⟩
  · constructor
    · intro hmoved
      rcases hidle with hnone | ⟨frame, i, hskipped⟩
      · rw [hnone] at hmoved
        contradiction
      · rw [hskipped] at hmoved
        simp at hmoved
    · rintro ⟨frame, i, stack, htakes, -⟩
      rw [htakes.step_eq, Step.events_precede] at hidle
      simp at hidle

/-- **A step leaves exactly the goals that the robot does not enter with it.** -/
theorem mem_goals_step : q ∈ (step p c).next.scene.goals ↔
    q ∈ c.scene.goals ∧ .moved q ∉ (step p c).events := by
  rcases step_cases p c with ⟨frame, i, stack, htakes⟩ | ⟨hscene, hidle⟩
  · rw [htakes.step_eq, Step.next_precede, Step.events_precede, (performs _ _ _ _).mem_goals]
    simp
  · rw [hscene]
    rcases hidle with hnone | ⟨frame, i, hskipped⟩
    · simp [hnone]
    · simp [hskipped]

/-- Where goals are left, an operation ends the run solved exactly if it leaves none. -/
theorem Stops.solved_iff {declared : Nat} {o : Operation} {e : Ending} {u : Scene}
    (hs : Stops declared s o e u) (hgoals : s.goals.isEmpty = false) :
    e = .finished .solved ↔ u.goals.isEmpty = true := by
  rcases hs with - | ⟨-, harrived⟩ | -
  · simp [hgoals]
  · simp [harrived]
  · simp [hgoals]

/-- A step ends the run solved exactly if it leaves no goal, unless it is the step without a frame
and without goals. -/
theorem Ends.solved_iff {e : Ending} {u : Scene} (hends : Ends p c e u)
    (hc : c.stack ≠ [] ∨ c.scene.goals.isEmpty = false) :
    e = .finished .solved ↔ u.goals.isEmpty = true := by
  rcases hends with - | hgoals | ⟨hgoals, -⟩ | ⟨hgoals, -, -, -, hstops⟩
  case exhausted =>
    have hgoals := hc.resolve_left fun hne ↦ hne rfl
    simp [hgoals]
  case solved => simp [hgoals]
  case undeclared => simp [hgoals]
  case stopped => exact hstops.solved_iff hgoals

/-- A step that ends the run solved, though goals were left, is a move onto the only one. -/
theorem exists_arrival {u : Scene} (hends : Ends p c (.finished .solved) u)
    (hgoals : c.scene.goals.isEmpty = false) : ∃ frame i q, q ∈ c.scene.goals ∧
      u = c.scene.enter q ∧ (step p c).events = [.taken frame i, .moved q, .collected 0] := by
  generalize he : Ending.finished .solved = e at hends
  rcases hends with - | hnone | - | ⟨-, htop, hfilled, hguard, hstops⟩
  case exhausted => contradiction
  case solved =>
    rw [hnone] at hgoals
    contradiction
  case undeclared => contradiction
  case stopped s frame below r i =>
    have htakes : Takes p ⟨s, frame :: below⟩ frame i _ := .intro hgoals htop hfilled hguard
    have hstep := htakes.step_eq
    generalize i.operation = o at hstep hstops
    rcases hstops with - | ⟨hahead, harrived⟩ | -
    case blocked => contradiction
    case undeclared => contradiction
    -- the move takes a goal away, for otherwise those that were left would be left still
    have hmem : s.robot.ahead ∈ s.goals := by
      by_contra hnot
      have hsame : (s.enter s.robot.ahead).goals = s.goals := Goals.erase_eq_self hnot
      rw [hsame, hgoals] at harrived
      contradiction
    refine ⟨frame, i, s.robot.ahead, hmem, rfl, ?_⟩
    rw [hstep, Step.events_precede, perform, moveAhead, if_pos hahead]
    simp only [if_pos hmem, Goals.isEmpty_iff_size.1 harrived]

/-! ### Along the path -/

/-- **The goals left are those of the start that have not been entered.** -/
theorem mem_goals_of_after? (hn : after? p c n = some d) :
    q ∈ d.scene.goals ↔ q ∈ c.scene.goals ∧ .moved q ∉ happened p c n := by
  induction n generalizing d with
  | zero =>
    obtain rfl := Option.some.inj hn
    simp [happened]
  | succ n ih =>
    obtain ⟨e, he, hnext⟩ := exists_next?_of_after?_succ hn
    obtain ⟨-, rfl⟩ := next?_eq_some_iff.1 hnext
    rw [mem_goals_step, ih he, happened_succ he, List.mem_append, not_or, and_assoc]

/-- After a step with which the machine goes on, goals are left. -/
theorem isEmpty_goals_of_after? (hn : after? p c n = some d) (hpos : 0 < n) :
    d.scene.goals.isEmpty = false := by
  obtain ⟨m, rfl⟩ := Nat.exists_eq_add_of_lt hpos
  rw [Nat.zero_add] at hn
  obtain ⟨e, -, hnext⟩ := exists_next?_of_after?_succ hn
  exact isEmpty_goals_next hnext

/-- One of the goals left is then a goal of the start that has not been entered. -/
theorem exists_mem_goals_of_after? (hn : after? p c n = some d) (hpos : 0 < n) :
    ∃ q ∈ c.scene.goals, .moved q ∉ happened p c n := by
  have hgoals := isEmpty_goals_of_after? hn hpos
  by_contra hnone
  refine Bool.eq_false_iff.1 hgoals (Goals.isEmpty_iff.2 fun q hq ↦ ?_)
  exact hnone ⟨q, (mem_goals_of_after? hn).1 hq⟩

/-! ### At the end of a run -/

namespace Accounts

/-- What holds along the path holds where a run stops. -/
theorem mem_goals (ht : Accounts p c t) :
    q ∈ t.halt.scene.goals ↔ q ∈ c.scene.goals ∧ .moved q ∉ t.events := by
  rcases ht with ⟨hn, -, -⟩ | ⟨hn, -, hends⟩
  · exact mem_goals_of_after? hn
  · obtain ⟨-, rfl⟩ := ends_iff.2 hends
    rw [mem_goals_step, mem_goals_of_after? hn, List.mem_append, not_or, and_assoc]

/-- **A run ends solved exactly if no goal is left at its end**, since it starts with a frame. -/
theorem solved_iff (ht : Accounts p (Config.start s) t) :
    t.halt.ending = .finished .solved ↔ t.halt.scene.goals.isEmpty = true := by
  rcases ht with ⟨hn, -, i, -, ⟨-, e, f, -, he, -, hf⟩, -⟩ | ⟨hn, -, hends⟩
  · obtain rfl := Option.some.inj (he.symm.trans hn)
    obtain ⟨-, hgoals, -⟩ := fingerprint?_eq_some_iff.1 hf
    simp [hgoals]
  · refine hends.solved_iff ?_
    rename_i n d _ _
    -- there is a frame at the start, and every later step has left a goal
    rcases Nat.eq_zero_or_pos n with rfl | hpos
    · obtain rfl := Option.some.inj hn
      exact Or.inl (List.cons_ne_nil _ _)
    · exact Or.inr (isEmpty_goals_of_after? hn hpos)

/-- Without goals a run stops before anything has happened. -/
theorem events_eq_nil (ht : Accounts p (Config.start s) t) (hgoals : s.goals.isEmpty = true) :
    t.events = [] := by
  have hzero : ∀ n d, after? p (Config.start s) n = some d → n = 0 := fun n d hn ↦ by
    by_contra hne
    obtain ⟨q, hq, -⟩ := exists_mem_goals_of_after? hn (Nat.pos_of_ne_zero hne)
    exact Goals.isEmpty_iff.1 hgoals q hq
  rcases ht with ⟨hn, -, i, hlt, -⟩ | ⟨hn, -, -⟩
  · have := hzero _ _ hn
    omega
  · obtain rfl := hzero _ _ hn
    obtain rfl := Option.some.inj hn
    rw [Config.start, step_of_isEmpty hgoals]
    rfl

/-- **A run that solves a scene stops with the move onto the last goal**: with this move the robot
enters a goal that it has not entered before, and it has entered all others. -/
theorem exists_last_move (ht : Accounts p (Config.start s) t) (hgoals : s.goals.isEmpty = false)
    (hsolved : t.halt.ending = .finished .solved) :
    ∃ before frame i q, t.events = before ++ [.taken frame i, .moved q, .collected 0] ∧
      q ∈ s.goals ∧ .moved q ∉ before ∧ ∀ r ∈ s.goals, r ≠ q → .moved r ∈ before := by
  have hleft := (ht.solved_iff).1 hsolved
  have hentered : ∀ r, r ∉ t.halt.scene.goals := Goals.isEmpty_iff.1 hleft
  rcases ht with - | ⟨hn, -, hends⟩
  · simp at hsolved
  · rename_i n d e u
    obtain rfl : e = .finished .solved := hsolved
    have hleftBefore : d.scene.goals.isEmpty = false := by
      rcases Nat.eq_zero_or_pos n with rfl | hpos
      · obtain rfl := Option.some.inj hn
        exact hgoals
      · exact isEmpty_goals_of_after? hn hpos
    obtain ⟨frame, i, q, hq, rfl, hevents⟩ := exists_arrival hends hleftBefore
    obtain ⟨hstart, hbefore⟩ := (mem_goals_of_after? hn).1 hq
    refine ⟨happened p (Config.start s) n, frame, i, q, by rw [hevents], hstart, hbefore, ?_⟩
    intro r hr hne
    by_contra hnot
    exact hentered r (Goals.mem_erase.2 ⟨(mem_goals_of_after? hn).2 ⟨hr, hnot⟩, hne⟩)

end Accounts

/-- **Goals are accounted for exactly.** At each step that the machine comes to, what its account
calls a move is a forward that is carried out, the goals left are those of the start that have not
been entered, and after the first step there are such goals. For each run there is an account. The
goals left at its end are those that have not been entered, and the run ends solved exactly if there
were none at the start or all have been entered: in the first case nothing happens at all, in the
second the run stops with the move onto the last one, which has not been entered before. In
particular a goal on the tile where the robot starts has to be entered like any other. -/
theorem goals_accounted_for (s : Scene) (p : Program) :
    (∀ n d, after? p (Config.start s) n = some d →
      (∀ q, .moved q ∈ (step p d).events ↔ Moves p d q) ∧
        (∀ q, q ∈ d.scene.goals ↔ q ∈ s.goals ∧ .moved q ∉ happened p (Config.start s) n) ∧
          (0 < n → ∃ q ∈ s.goals, .moved q ∉ happened p (Config.start s) n)) ∧
      ∀ fuel h, run fuel s p = some h → ∃ events, trace fuel s p = some ⟨events, h⟩ ∧
        (∀ q, q ∈ h.scene.goals ↔ q ∈ s.goals ∧ .moved q ∉ events) ∧
        (h.ending = .finished .solved ↔
          s.goals.isEmpty = true ∨ ∀ q ∈ s.goals, .moved q ∈ events) ∧
        (s.goals.isEmpty = true → events = []) ∧
        (s.goals.isEmpty = false → h.ending = .finished .solved →
          ∃ before frame i q, events = before ++ [.taken frame i, .moved q, .collected 0] ∧
            q ∈ s.goals ∧ .moved q ∉ before ∧ ∀ r ∈ s.goals, r ≠ q → .moved r ∈ before) ∧
        (s.robot.position ∈ s.goals → h.ending = .finished .solved →
          .moved s.robot.position ∈ events) := by
  refine ⟨fun n d hn ↦ ⟨fun q ↦ moved_mem_events_iff, fun q ↦ mem_goals_of_after? hn,
    exists_mem_goals_of_after? hn⟩, fun fuel h hrun ↦ ?_⟩
  obtain ⟨events, htrace⟩ := exists_trace_of_run hrun
  have ht := accounts_of_trace htrace
  have hsolved : h.ending = .finished .solved ↔ ∀ q ∈ s.goals, .moved q ∈ events := by
    rw [ht.solved_iff, Goals.isEmpty_iff]
    simp only [ht.mem_goals, not_and, not_not]
    rfl
  refine ⟨events, htrace, fun q ↦ ht.mem_goals, ?_, ht.events_eq_nil, ht.exists_last_move,
    fun hstart hend ↦ hsolved.1 hend _ hstart⟩
  rw [hsolved]
  refine (or_iff_right_of_imp fun hnone q hq ↦ ?_).symm
  exact absurd hq (Goals.isEmpty_iff.1 hnone q)

/-- A red tile and a blue one with a goal on each, the robot on the red one facing the blue one. -/
def goalsOnBoth : Scene where
  board := ⟨2, 1, #[some .red, some .blue], rfl⟩
  robot := ⟨⟨0, 0⟩, .east⟩
  goals := .ofList [⟨0, 0⟩, ⟨0, 1⟩]

/-- Goes one tile on, turns round and goes back. -/
def thereAndBack : Program :=
  ⟨[[some ⟨.forward, none⟩, some ⟨.left, none⟩, some ⟨.left, none⟩, some ⟨.forward, none⟩]]⟩

/-- After the first step the goal on the tile of the start is left, and the run stops when the robot
is back there. -/
theorem goals_accounted_for_thereAndBack :
    (goalsOnBoth.goals.isEmpty = false ∧ goalsOnBoth.robot.position ∈ goalsOnBoth.goals) ∧
      (∃ d, after? thereAndBack (Config.start goalsOnBoth) 1 = some d ∧ ⟨0, 0⟩ ∈ d.scene.goals ∧
        ∃ q ∈ goalsOnBoth.goals, .moved q ∉ happened thereAndBack (Config.start goalsOnBoth) 1) ∧
      ∃ h events, run 4 goalsOnBoth thereAndBack = some h ∧ h.ending = .finished .solved ∧
        trace 4 goalsOnBoth thereAndBack = some ⟨events, h⟩ ∧
          .moved goalsOnBoth.robot.position ∈ events ∧
            ∃ before frame i q, events = before ++ [.taken frame i, .moved q, .collected 0] ∧
              .moved q ∉ before := by
  have hhalts : HaltsAt thereAndBack (Config.start goalsOnBoth) 3
      ⟨.finished .solved, ⟨goalsOnBoth.board, ⟨⟨0, 0⟩, .west⟩, ∅⟩⟩ := ⟨_, rfl, rfl, rfl⟩
  have hrun := run_of_haltsAt_of_nodup hhalts (by decide)
  have hgoals : goalsOnBoth.goals.isEmpty = false := rfl
  have hstart : goalsOnBoth.robot.position ∈ goalsOnBoth.goals := by decide
  obtain ⟨hpath, hruns⟩ := goals_accounted_for goalsOnBoth thereAndBack
  obtain ⟨-, hleft, hsome⟩ := hpath 1 _ rfl
  obtain ⟨events, htrace, -, -, -, hlast, hentered⟩ := hruns 4 _ hrun
  obtain ⟨before, frame, i, q, hevents, -, hnew, -⟩ := hlast hgoals rfl
  exact ⟨⟨hgoals, hstart⟩, ⟨_, rfl, (hleft _).2 ⟨hstart, by decide⟩, hsome Nat.one_pos⟩,
    _, events, hrun, rfl, htrace, hentered hstart rfl, before, frame, i, q, hevents, hnew⟩

end TileRobot.Machine
