import TileRobot.Proofs.Machine.Path

/-!
# What stays along a path

Two things that every step keeps, and hence every path.

* **The scene can only wear down** (`follows_of_after?`, `follows_of_runFrom`): the board keeps its
  size and its passable positions, the robot stands where it began or on a passable position, and
  the goals left are some of those there were.
* **The frames stand in the program** (`stands_step`, `stands_of_after?`): each names a slot of a
  routine, or the first slot of a routine that has none. This includes the frames that are left when
  a step ends the run.
-/

namespace TileRobot

/-! ### Scenes -/

/-- A scene that can come after another: the same passable positions, the robot not moved or on one
of them, and no new goal. -/
structure Scene.Follows (t s : Scene) : Prop where
  /-- The number of columns is the same. -/
  width : t.board.width = s.board.width
  /-- The number of rows is the same. -/
  height : t.board.height = s.board.height
  /-- The passable positions are the same. -/
  passable : ∀ q, t.board.Passable q ↔ s.board.Passable q
  /-- The robot stands where it stood or on a passable position. -/
  position : t.robot.position = s.robot.position ∨ s.board.Passable t.robot.position
  /-- Goals have been taken away only. -/
  goals : t.goals.toList.Sublist s.goals.toList

theorem Scene.Follows.refl (s : Scene) : s.Follows s :=
  ⟨rfl, rfl, fun _ ↦ Iff.rfl, Or.inl rfl, List.Sublist.refl _⟩

theorem Scene.Follows.trans {u t s : Scene} (hut : u.Follows t) (hts : t.Follows s) :
    u.Follows s where
  width := hut.width.trans hts.width
  height := hut.height.trans hts.height
  passable q := (hut.passable q).trans (hts.passable q)
  position := by
    rcases hut.position with hposition | hpassable
    · rw [hposition]
      exact hts.position
    · exact Or.inr ((hts.passable _).1 hpassable)
  goals := hut.goals.trans hts.goals

theorem Scene.follows_enter {s : Scene} {q : Position} (hq : s.board.Passable q) :
    (s.enter q).Follows s :=
  ⟨rfl, rfl, fun _ ↦ Iff.rfl, Or.inr hq, List.filter_sublist⟩

theorem Scene.follows_turn (s : Scene) (n : Int) : (s.turn n).Follows s :=
  ⟨rfl, rfl, fun _ ↦ Iff.rfl, Or.inl rfl, List.Sublist.refl _⟩

theorem Scene.follows_repaint (s : Scene) (color : Color) : (s.repaint color).Follows s :=
  ⟨Board.width_repaint _ _ _, Board.height_repaint _ _ _, fun _ ↦ Board.passable_repaint,
    Or.inl rfl, List.Sublist.refl _⟩

namespace Machine

variable {p : Program} {c d : Config} {n : Nat}

theorem Acts.follows {declared : Nat} {s t : Scene} {o : Operation} {b : Bool}
    {pushed : List Frame} (ha : Acts declared s o b t pushed) : t.Follows s := by
  rcases ha with ⟨hahead, -⟩ | - | - | color | -
  · exact Scene.follows_enter hahead
  · exact s.follows_turn 1
  · exact s.follows_turn (-1)
  · exact s.follows_repaint color
  · exact .refl s

theorem follows_of_next? (hnext : next? p c = some d) : d.scene.Follows c.scene := by
  obtain ⟨b, -, - | ⟨-, -, -, hacts⟩⟩ := exists_goes_of_next? hnext
  · exact .refl _
  · exact hacts.follows

/-- **The scene can only wear down.** -/
theorem follows_of_after? (hn : after? p c n = some d) : d.scene.Follows c.scene := by
  induction n generalizing d with
  | zero =>
    obtain rfl : c = d := Option.some.inj hn
    exact .refl _
  | succ n ih =>
    obtain ⟨e, he, hnext⟩ := exists_next?_of_after?_succ hn
    exact (follows_of_next? hnext).trans (ih he)

theorem Stops.follows {declared : Nat} {s t : Scene} {o : Operation} {e : Ending}
    (hs : Stops declared s o e t) : t.Follows s := by
  rcases hs with - | ⟨hahead, -⟩ | -
  · exact .refl s
  · exact Scene.follows_enter hahead
  · exact .refl s

theorem Ends.follows {t : Scene} {e : Ending} (hends : Ends p c e t) : t.Follows c.scene := by
  rcases hends with - | - | - | ⟨-, -, -, -, hstops⟩
  case stopped => exact hstops.follows
  all_goals exact .refl _

/-- What holds along the path holds of the scene in which a run ends. -/
theorem follows_of_runFrom {fuel : Nat} {seen : Evidence} {h : Halt}
    (hrun : runFrom p fuel seen c = some h) : h.scene.Follows c.scene := by
  induction fuel generalizing seen c with
  | zero => contradiction
  | succ fuel ih =>
    by_cases hrep : seen.Repeats c
    · rw [runFrom_of_repeats hrep] at hrun
      obtain rfl := Option.some.inj hrun
      exact .refl _
    · rcases hend : (step p c).ending? with - | e
      · rw [runFrom_of_proceed hrep hend] at hrun
        exact (ih hrun).trans (follows_of_next? (next?_eq_some_iff.2 ⟨hend, rfl⟩))
      · rw [runFrom_of_ending hrep hend] at hrun
        obtain rfl := Option.some.inj hrun
        exact (ends_iff.1 ⟨hend, rfl⟩).follows

/-! ### Frames -/

/-- A frame stands in a program when it names a slot of a routine, or the first slot of a routine
without slots. -/
def Frame.Stands (p : Program) (frame : Frame) : Prop :=
  ∃ r, p.routines[frame.routine]? = some r ∧ frame.slot < max 1 r.length

/-- The frames that stand in a program, routine by routine. -/
def frames (p : Program) : List Frame :=
  p.routines.zipIdx.flatMap fun entry ↦
    (List.range (max 1 entry.1.length)).map (Frame.mk entry.2)

@[simp] theorem mem_frames {frame : Frame} : frame ∈ frames p ↔ frame.Stands p := by
  simp only [frames, List.mem_flatMap, List.mem_zipIdx_iff_getElem?, List.mem_map, List.mem_range,
    Frame.Stands, Prod.exists]
  constructor
  · rintro ⟨r, f, hr, slot, hslot, rfl⟩
    exact ⟨r, hr, hslot⟩
  · rintro ⟨r, hr, hslot⟩
    exact ⟨r, frame.routine, hr, frame.slot, hslot, rfl⟩

/-- All frames that are left to run stand in the program. -/
def Config.Stands (p : Program) (c : Config) : Prop := ∀ frame ∈ c.stack, frame.Stands p

theorem stands_of_lt_size {target : Nat} (htarget : target < p.size) :
    (⟨target, 0⟩ : Frame).Stands p :=
  ⟨p.routines[target], List.getElem?_eq_getElem htarget, Nat.le_max_left _ _⟩

theorem stands_start (hp : 0 < p.size) (s : Scene) : (Config.start s).Stands p := by
  intro frame hframe
  obtain rfl := List.mem_singleton.1 hframe
  exact stands_of_lt_size hp

/-- The frames after the top frame stand, as those under it do. -/
theorem stands_resume {frame : Frame} {below : List Frame} {r : Routine}
    (hr : p.routines[frame.routine]? = some r) (hbelow : ∀ f ∈ below, f.Stands p) :
    ∀ f ∈ resume r.length frame below, f.Stands p := by
  simp only [resume]
  split
  · rename_i hlt
    intro f hf
    rcases List.mem_cons.1 hf with rfl | hf
    · exact ⟨r, hr, hlt.trans_le (Nat.le_max_right _ _)⟩
    · exact hbelow f hf
  · exact hbelow

/-- The frames that an operation leaves stand, if those that it is given do. -/
theorem stands_perform {s : Scene} {stack : List Frame} (hstack : ∀ f ∈ stack, f.Stands p)
    (o : Operation) : ∀ f ∈ (perform p.size s stack o).next.stack, f.Stands p := by
  rcases o with - | - | - | color | target
  case forward =>
    by_cases hahead : s.board.Passable s.robot.ahead
    · rwa [next_perform_forward hahead]
    · rwa [perform_forward_of_not_passable hahead]
  case left => exact hstack
  case right => exact hstack
  case paint => rwa [next_perform_paint]
  case call =>
    by_cases htarget : target < p.size
    · rw [perform_call_of_lt htarget]
      intro f hf
      rcases List.mem_cons.1 hf with rfl | hf
      · exact stands_of_lt_size htarget
      · exact hstack f hf
    · rwa [perform_call_of_not_lt htarget]

/-- **A step leaves frames that stand**, whether the run goes on or ends with it. -/
theorem stands_step (hc : c.Stands p) : (step p c).next.Stands p := by
  obtain ⟨s, stack⟩ := c
  rcases stack with - | ⟨frame, below⟩
  · exact hc
  · have hbelow : ∀ f ∈ below, f.Stands p := fun f hf ↦ hc f (List.mem_cons_of_mem _ hf)
    rcases hg : s.goals.isEmpty with - | -
    · rw [step_cons hg]
      rcases hr : p.routines[frame.routine]? with - | r
      · rw [runFrame_of_undeclared hr]
        exact hbelow
      · have hresume := stands_resume hr hbelow
        rcases hi : r.instruction? frame.slot with - | i
        · rw [runFrame_of_empty hr hi]
          exact hresume
        · by_cases hguard : i.AppliesOn s.color
          · rw [runFrame_of_applies hr hi hguard]
            exact stands_perform hresume i.operation
          · rw [runFrame_of_skipped hr hi hguard]
            exact hresume
    · rw [step_of_isEmpty hg]
      exact hc

/-- **The frames stand in the program.** -/
theorem stands_of_after? (hn : after? p c n = some d) (hc : c.Stands p) : d.Stands p := by
  induction n generalizing d with
  | zero =>
    obtain rfl : c = d := Option.some.inj hn
    exact hc
  | succ n ih =>
    obtain ⟨e, he, hnext⟩ := exists_next?_of_after?_succ hn
    obtain ⟨-, rfl⟩ := next?_eq_some_iff.1 hnext
    exact stands_step (ih he)

end Machine

end TileRobot
