import TileRobot.Proofs.Machine.Replay

/-!
# When a report of a loop is right

The watch for loops compares the robot and the top frame and not what is under it. So a routine that
is left and entered again at the same place is a loop to it, whether or not it was left by going
back to its caller. What is behind a report shows at the frames under the top.

* A loop that is reported is made for ever exactly if the frames that were reached in it are on top
  again at its end. If they are, it is a round (`Repetition.goesRound_of_restores`). If it is made
  for ever, there is a step at which the stack is lowest (`exists_above`), and on the way down to
  it the frames are run one after the other, in each round the same ones
  (`exists_append_of_looksLike`).
* A machine may run for ever although the loop that is reported is not the one that keeps it going.
  Whether it does is told by its returns (`runsForever_start_iff`).

`loopDetected_sound_iff` has both, and `loopDetected_of_halts` is a report that is wrong.
-/

namespace TileRobot.Machine

variable {p : Program} {c c' d e : Config} {s t : Scene} {frame : Frame}
  {top below below' : List Frame} {i j k n : Nat}

/-! ### The same steps over other frames -/

/-- Two configurations have the same board, robot and top frame. -/
def LooksLike (d e : Config) : Prop :=
  e.scene.board = d.scene.board ∧ e.scene.robot = d.scene.robot ∧ e.stack.head? = d.stack.head?

/-- The frames that a step on a tile of some color puts in the place of the top frame, if it goes
on. -/
def framesAfter (p : Program) (color : Option Color) (frame : Frame) : List Frame :=
  match p.routines[frame.routine]? with
  | none => []
  | some r =>
    let called := ((r.instruction? frame.slot).filter (·.AppliesOn color)).bind Instruction.target?
    called.toList.map (⟨·, 0⟩) ++ resume r.length frame []

theorem Acts.pushed_eq {declared : Nat} {i : Instruction} {b : Bool} {pushed : List Frame}
    (ha : Acts declared s i.operation b t pushed) : pushed = i.target?.toList.map (⟨·, 0⟩) := by
  rw [Instruction.target?]
  generalize i.operation = o at ha
  cases ha <;> rfl

/-- **What a step makes of the stack** is known by the top frame and the color of the tile. -/
theorem stack_of_next? (hnext : next? p ⟨s, frame :: below⟩ = some d) :
    d.stack = framesAfter p s.color frame ++ below := by
  obtain ⟨b, -, hgoes⟩ := exists_goes_of_next? hnext
  rcases hgoes with ⟨htop, hidle⟩ | ⟨htop, hfilled, hguard, hacts⟩
  · rename_i r
    have hcalled : (r.instruction? frame.slot).filter (·.AppliesOn s.color) = none :=
      Option.filter_eq_none_iff.2 fun i hi ↦ by simpa using hidle i hi
    simp only [framesAfter, htop, hcalled]
    exact resume_append r.length frame [] below
  · rename_i pushed r i
    have hcalled : (r.instruction? frame.slot).filter (·.AppliesOn s.color) = some i :=
      Option.filter_eq_some_iff.2 ⟨hfilled, decide_eq_true hguard⟩
    simp only [framesAfter, htop, hcalled, Option.bind_some, ← hacts.pushed_eq, List.append_assoc]
    exact congrArg (pushed ++ ·) (resume_append r.length frame [] below)

/-- On a way that goes down to given frames, each frame above them is run at some step. So a way
that looks the same goes down over the same frames, whatever is under them. -/
theorem exists_append_of_looksLike (hstack : c.stack = top ++ below)
    (hn : after? p c n = some d) (hlast : d.stack = frame :: below)
    (habove : ∀ k ≤ n, ∀ e, after? p c k = some e → Above below e)
    (hlooks : ∀ k ≤ n, ∃ d e, after? p c k = some d ∧ after? p c' k = some e ∧ LooksLike d e) :
    ∃ below', c'.stack = top ++ below' ∧
      ∃ e, after? p c' n = some e ∧ e.stack = frame :: below' := by
  induction n generalizing c c' top with
  | zero =>
    obtain rfl : c = d := Option.some.inj hn
    obtain rfl : top = [frame] := List.append_cancel_right (hstack.symm.trans hlast)
    obtain ⟨c₁, e, hc₁, he, -, -, hhead⟩ := hlooks 0 le_rfl
    obtain rfl := Option.some.inj hc₁
    obtain rfl := Option.some.inj he
    rw [hlast, List.head?_cons] at hhead
    obtain ⟨below', hbelow'⟩ := List.head?_eq_some_iff.1 hhead
    exact ⟨below', hbelow', c', rfl, hbelow'⟩
  | succ n ih =>
    obtain ⟨s, stack⟩ := c
    obtain ⟨t, stack'⟩ := c'
    -- both run the same frame first, and what lies under it is the rest of the way
    obtain ⟨above, hne, hcover⟩ := habove 0 (Nat.zero_le _) _ rfl
    obtain rfl : top = above := List.append_cancel_right (hstack.symm.trans hcover)
    obtain ⟨first, top, rfl⟩ := List.exists_cons_of_ne_nil hne
    obtain rfl : stack = first :: (top ++ below) := hstack
    obtain ⟨c₀, c₀', hc₀, hc₀', hboard, hrobot, hhead⟩ := hlooks 0 (Nat.zero_le _)
    obtain rfl := Option.some.inj hc₀
    obtain rfl := Option.some.inj hc₀'
    obtain ⟨under, rfl⟩ := List.head?_eq_some_iff.1 hhead
    have hcolor : t.color = s.color := by
      rw [Scene.color, Scene.color, show t.board = s.board from hboard,
        show t.robot = s.robot from hrobot]
    obtain ⟨c₁, c₁', hc₁, hc₁', -⟩ := hlooks 1 (by omega)
    have hstack₁ := stack_of_next? hc₁
    have hstack₁' := stack_of_next? hc₁'
    rw [hcolor] at hstack₁'
    rw [← List.append_assoc] at hstack₁
    rw [Nat.add_comm, after?_add_of_eq_some hc₁] at hn
    obtain ⟨below', hbelow', e, he, hlast'⟩ := ih hstack₁ hn
      (fun k hk e he ↦ habove (1 + k) (by omega) e ((after?_add_of_eq_some hc₁ k).trans he))
      fun k hk ↦ by
        obtain ⟨d', e', hd', he', hlooks'⟩ := hlooks (1 + k) (by omega)
        rw [after?_add_of_eq_some hc₁] at hd'
        rw [after?_add_of_eq_some hc₁'] at he'
        exact ⟨d', e', hd', he', hlooks'⟩
    rw [hstack₁', List.append_assoc] at hbelow'
    obtain rfl : under = top ++ below' := List.append_cancel_left hbelow'
    refine ⟨below', rfl, e, ?_, hlast'⟩
    rw [Nat.add_comm, after?_add_of_eq_some hc₁', he]

/-! ### The lowest step -/

/-- If the machine runs for ever, there is a step at which all frames but one will never be reached,
and have not been reached since a given step. -/
theorem exists_above (hrun : RunsForever p c) (i : Nat) :
    ∃ k t frame below, i ≤ k ∧ after? p c k = some ⟨t, frame :: below⟩ ∧
      ∀ l, i ≤ l → ∀ e, after? p c l = some e → Above below e := by
  obtain ⟨k, ⟨t, stack⟩, hik, hk, hlow⟩ := exists_lowest hrun i
  obtain ⟨e, he⟩ := hrun (k + 1)
  have hnext : next? p ⟨t, stack⟩ = some e := (after?_succ_of_eq_some hk).symm.trans he
  obtain ⟨frame, below, rfl⟩ := List.exists_cons_of_ne_nil (stack_ne_nil_of_next? hnext)
  -- the frames at the bottom of the given step, as many as are left alone
  obtain ⟨⟨s, stack⟩, hi⟩ := hrun i
  obtain ⟨top, bottom, rfl, hlength⟩ :
      ∃ top bottom, stack = top ++ bottom ∧ bottom.length = below.length := by
    refine ⟨stack.take (stack.length - below.length), stack.drop (stack.length - below.length),
      (List.take_append_drop _ _).symm, ?_⟩
    have hle : below.length + 1 ≤ stack.length := hlow i le_rfl _ hi
    rw [List.length_drop]
    omega
  have habove : ∀ l, i ≤ l → ∀ f, after? p c l = some f → Above bottom f := fun l hl f hf ↦
    above_of_lt_length hi (fun m hm g hg ↦ hlength ▸ hlow m hm g hg) hl hf
  obtain ⟨above, -, hstack⟩ := habove k hik _ hk
  obtain ⟨-, rfl⟩ := List.append_inj' (show [frame] ++ below = above ++ bottom from hstack)
    hlength.symm
  exact ⟨k, t, frame, below, hik, hk, habove⟩

/-- **What is made for ever has its frames on top again.** -/
theorem GoesRound.restores (hrounds : GoesRound p c i j) (hij : i ≤ j) : Restores p c i j := by
  have hrun : RunsForever p c := runsForever_iff.2 hrounds.forever
  obtain ⟨k, t, frame, below, hik, hk, habove⟩ := exists_above hrun i
  obtain ⟨m, rfl⟩ := Nat.exists_eq_add_of_le hik
  obtain ⟨d, hi⟩ := hrun i
  obtain ⟨e, hj⟩ := hrun j
  obtain ⟨top, -, hstack⟩ := habove i le_rfl d hi
  obtain ⟨below', hstack', f, hf, hlast⟩ := exists_append_of_looksLike hstack
    ((after?_add_of_eq_some hi m).symm.trans hk) rfl
    (fun l _ f hf ↦ habove (i + l) (by omega) f ((after?_add_of_eq_some hi l).trans hf))
    fun l _ ↦ by
      obtain ⟨d', e', hd', he', hlooks⟩ := hrounds.round (i + l) (Nat.le_add_right i l)
      rw [after?_add_of_eq_some hi] at hd'
      rw [show i + l + (j - i) = j + l by omega, after?_add_of_eq_some hj] at he'
      exact ⟨d', e', hd', he', hlooks⟩
  -- in the next round the lowest step is not lower, so more frames are left behind
  obtain ⟨above', hne, hcover⟩ :=
    habove (j + m) (by omega) f ((after?_add_of_eq_some hj m).trans hf)
  obtain ⟨first, above, rfl⟩ := List.exists_cons_of_ne_nil hne
  obtain ⟨-, rfl⟩ := List.cons.inj (hlast.symm.trans hcover)
  exact ⟨d, e, top, above, below, hi, hj, hstack, hstack', fun l hil _ ↦ habove l hil⟩

/-! ### Whether a reported loop is one -/

/-- **When a report of a loop is right.** A loop is reported exactly if a fingerprint comes back
with no change of color in between. What was done in between is done again for ever exactly if the
frames that were reached in between are on top again, and in that case the machine without the watch
never halts, as was reported. They are on top again in each loop that is reported of a program that
calls in last slots only. In general the machine never halts if and only if a scene and a top frame
come back without the frames under it having been reached, be it in the loop that was reported or
later. -/
theorem loopDetected_sound_iff (s : Scene) (p : Program) :
    (EndsWith s p (.finished .loopDetected) ↔ ∃ i j, Repetition p (Config.start s) i j) ∧
      (∀ i j, Repetition p (Config.start s) i j →
        (GoesRound p (Config.start s) i j ↔ Restores p (Config.start s) i j) ∧
          (Restores p (Config.start s) i j → ∀ h, ¬ Halts p (Config.start s) h)) ∧
        (p.CallsLast → EndsWith s p (.finished .loopDetected) →
          ∀ h, ¬ Halts p (Config.start s) h) ∧
          ((∀ h, ¬ Halts p (Config.start s) h) ↔ ∃ i j, Return p (Config.start s) i j) := by
  refine ⟨endsWith_loopDetected_iff, fun i j hrep ↦ ⟨⟨?_, hrep.goesRound_of_restores⟩, ?_⟩, ?_, ?_⟩
  · exact fun hrounds ↦ hrounds.restores hrep.lt.le
  · exact fun hres ↦ (hrep.goesRound_of_restores hres).forever
  · intro hp hloop
    obtain ⟨i, j, hrep⟩ := endsWith_loopDetected_iff.1 hloop
    exact (hrep.goesRound_of_restores (hrep.restores (untouched_of_callsLast hp hrep))).forever
  · rw [← runsForever_iff, runsForever_start_iff]

/-- Calls a routine without slots and starts over. -/
def callAgain : Program := ⟨[[some ⟨.call 1, none⟩, some ⟨.call 0, none⟩], []]⟩

theorem repetition_callTwice : Repetition callTwice (Config.start twoTiles) 1 3 :=
  repetition_of_paintsWith_nil (by decide) (by decide) rfl rfl rfl rfl

/-- Three loops that are reported. In the first the routine without slots is entered and left, and
when it is entered again, its caller is under it as before, although it was reached in between. The
second is one of a program that calls last. In the third the caller has gone on in between, and the
machine halts. -/
theorem loopDetected_sound_twoTiles :
    (Repetition callAgain (Config.start twoTiles) 1 4 ∧
        Restores callAgain (Config.start twoTiles) 1 4 ∧
          EndsWith twoTiles callAgain (.finished .loopDetected) ∧
            ∀ h, ¬ Halts callAgain (Config.start twoTiles) h) ∧
      (spin.CallsLast ∧ EndsWith twoTiles spin (.finished .loopDetected) ∧
        ∀ h, ¬ Halts spin (Config.start twoTiles) h) ∧
        Repetition callTwice (Config.start twoTiles) 1 3 ∧
          ¬ Restores callTwice (Config.start twoTiles) 1 3 := by
  have hagain : Repetition callAgain (Config.start twoTiles) 1 4 :=
    repetition_of_paintsWith_nil (by decide) (by decide) rfl rfl rfl rfl
  have hspin : Repetition spin (Config.start twoTiles) 0 8 :=
    repetition_of_paintsWith_nil (by decide) (by decide) rfl rfl rfl rfl
  have hres : Restores callAgain (Config.start twoTiles) 1 4 := by
    refine ⟨_, _, [⟨1, 0⟩, ⟨0, 1⟩], [], [], rfl, rfl, rfl, rfl, fun k hk hkj f hf ↦ ?_⟩
    obtain rfl | rfl | rfl | rfl : k = 1 ∨ k = 2 ∨ k = 3 ∨ k = 4 := by omega
    all_goals
      obtain rfl := Option.some.inj hf
      exact ⟨_, List.cons_ne_nil _ _, (List.append_nil _).symm⟩
  have hlast : spin.CallsLast := by decide
  obtain ⟨hreported, hright, -, -⟩ := loopDetected_sound_iff twoTiles callAgain
  obtain ⟨hreported', -, hcalls, -⟩ := loopDetected_sound_iff twoTiles spin
  obtain ⟨-, hwrong, -, -⟩ := loopDetected_sound_iff twoTiles callTwice
  have hspun := hreported'.2 ⟨0, 8, hspin⟩
  exact ⟨⟨hagain, hres, hreported.2 ⟨1, 4, hagain⟩, (hright 1 4 hagain).2 hres⟩,
    ⟨hlast, hspun, hcalls hlast hspun⟩, repetition_callTwice,
    fun hframes ↦ (hwrong 1 3 repetition_callTwice).2 hframes _ halts_callTwice⟩

/-- A report that is wrong: entering the second routine once more is taken for a loop, but the
machine goes on and solves the scene. -/
theorem loopDetected_of_halts :
    EndsWith twoTiles callTwice (.finished .loopDetected) ∧
      Halts callTwice (Config.start twoTiles) ⟨.finished .solved, twoTiles.enter ⟨0, 1⟩⟩ :=
  ⟨endsWith_loopDetected_iff.2 ⟨1, 3, repetition_callTwice⟩, halts_callTwice⟩

end TileRobot.Machine
