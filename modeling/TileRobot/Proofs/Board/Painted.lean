import TileRobot.Board.Basic

/-!
# Boards that are painted again and again

A board under painting is a map from its passable positions to colors. After any number of paints,
on the board and off it, a position that was passable at the start has the color it was painted with
last, or its first one if it was not painted, and every other position has none
(`colorAt_paintAll`). The law of a single paint, `colorAt_repaint`, is the step of the induction.

A paint changes the board exactly if it is reported to (`repaint_eq_self_iff`), and whether it does
can be told from the start and the paints before it (`painting_as_map`).
-/

namespace TileRobot.Board

variable {b : Board} {q : Position} {c : Color} {k : Nat} {paints : List (Position × Color)}

/-! ### One paint -/

/-- **A paint leaves the board as it is exactly if it has no effect.** -/
theorem repaint_eq_self_iff : b.repaint q c = b ↔ ¬ b.Repaints q c := by
  constructor
  · intro hsame hrepaints
    have hcolor := b.colorAt_repaint q q c
    rw [if_pos ⟨rfl, hrepaints.1⟩, hsame] at hcolor
    exact hrepaints.2 hcolor
  · exact repaint_of_not_repaints

/-! ### One paint after the other -/

/-- Paints positions one after the other: the board at the end, and for each paint whether it had an
effect. -/
def paintAll (b : Board) : List (Position × Color) → Board × List Bool
  | [] => (b, [])
  | (q, c) :: rest =>
    let (painted, effects) := (b.repaint q c).paintAll rest
    (painted, decide (b.Repaints q c) :: effects)

/-- The color with which a position is painted last, if it is painted at all. -/
def lastPaint? (paints : List (Position × Color)) (q : Position) : Option Color :=
  (paints.reverse.find? (·.1 = q)).map Prod.snd

/-- The color that a position has after the paints, if it is passable: that of the last paint, or
the one it had at the start. -/
def colorAfter (b : Board) (paints : List (Position × Color)) (q : Position) : Option Color :=
  (b.colorAt q).map (lastPaint? paints q).getD

theorem paintAll_append (b : Board) (paints rest : List (Position × Color)) :
    b.paintAll (paints ++ rest) = (((b.paintAll paints).1.paintAll rest).1,
      (b.paintAll paints).2 ++ ((b.paintAll paints).1.paintAll rest).2) := by
  induction paints generalizing b with
  | nil => rfl
  | cons paint paints ih =>
    rw [List.cons_append, paintAll, ih]
    rfl

theorem length_paintAll (b : Board) (paints : List (Position × Color)) :
    (b.paintAll paints).2.length = paints.length := by
  induction paints generalizing b with
  | nil => rfl
  | cons paint paints ih => exact congrArg Nat.succ (ih _)

theorem width_paintAll (b : Board) (paints : List (Position × Color)) :
    (b.paintAll paints).1.width = b.width := by
  induction paints generalizing b with
  | nil => rfl
  | cons paint paints ih => exact (ih _).trans (b.width_repaint _ _)

theorem height_paintAll (b : Board) (paints : List (Position × Color)) :
    (b.paintAll paints).1.height = b.height := by
  induction paints generalizing b with
  | nil => rfl
  | cons paint paints ih => exact (ih _).trans (b.height_repaint _ _)

/-! ### The board as a map -/

theorem lastPaint?_cons (paint : Position × Color) (paints : List (Position × Color))
    (q : Position) : lastPaint? (paint :: paints) q =
      (lastPaint? paints q).or (if paint.1 = q then some paint.2 else none) := by
  rw [lastPaint?, lastPaint?, List.reverse_cons, List.find?_append, Option.map_or]
  congr 1
  by_cases hq : paint.1 = q <;> simp [hq]

/-- The first of several paints can be counted to the start. -/
theorem colorAfter_cons (b : Board) (paint : Position × Color) (paints : List (Position × Color))
    (q : Position) :
    b.colorAfter (paint :: paints) q = (b.repaint paint.1 paint.2).colorAfter paints q := by
  rw [colorAfter, colorAfter, colorAt_repaint, lastPaint?_cons]
  by_cases hq : q = paint.1 ∧ b.Passable paint.1
  · obtain ⟨rfl, hpassable⟩ := hq
    obtain ⟨c, hc⟩ := passable_iff.1 hpassable
    rw [if_pos rfl, if_pos ⟨rfl, hpassable⟩, hc, Option.map_some, Option.map_some]
    rcases lastPaint? paints paint.1 with - | d <;> rfl
  · rw [if_neg hq]
    by_cases hpassable : b.Passable q
    · have hne : paint.1 ≠ q := fun heq ↦ hq ⟨heq.symm, heq ▸ hpassable⟩
      rw [if_neg hne, Option.or_none]
    · have hnone : b.colorAt q = none := Option.not_isSome_iff_eq_none.1 hpassable
      rw [hnone, Option.map_none, Option.map_none]

/-- **After any paints a position has the color of the last one**, or its color at the start. -/
theorem colorAt_paintAll (b : Board) (paints : List (Position × Color)) (q : Position) :
    (b.paintAll paints).1.colorAt q = b.colorAfter paints q := by
  induction paints generalizing b with
  | nil => exact Option.map_id_apply.symm
  | cons paint paints ih => exact (ih _).trans (b.colorAfter_cons paint paints q).symm

theorem passable_paintAll : (b.paintAll paints).1.Passable q ↔ b.Passable q := by
  rw [Passable, Passable, colorAt_paintAll, colorAfter, Option.isSome_map]

/-! ### Each paint in turn -/

/-- What each paint reports and does, the paints before it having been made. -/
theorem getElem?_paintAll (hk : paints[k]? = some (q, c)) :
    (b.paintAll paints).2[k]? = some (decide ((b.paintAll (paints.take k)).1.Repaints q c)) ∧
      (b.paintAll (paints.take (k + 1))).1 = (b.paintAll (paints.take k)).1.repaint q c := by
  obtain ⟨hlt, hget⟩ := List.getElem?_eq_some_iff.1 hk
  have hparts : paints = paints.take k ++ (q, c) :: paints.drop (k + 1) := by
    rw [← hget, ← List.drop_eq_getElem_cons hlt, List.take_append_drop]
  have hlength : (b.paintAll (paints.take k)).2.length = k := by
    rw [length_paintAll, List.length_take_of_le (Nat.le_of_lt hlt)]
  constructor
  · have hall := congrArg (fun l ↦ (b.paintAll l).2[k]?) hparts
    rw [hall, paintAll_append, List.getElem?_append_right (Nat.le_of_eq hlength), hlength,
      Nat.sub_self]
    rfl
  · have htake : paints.take (k + 1) = paints.take k ++ [(q, c)] := by
      rw [List.take_add_one, hk, Option.toList_some]
    rw [htake, paintAll_append]
    rfl

/-- **A board under painting behaves as a map from positions to colors.** After any paints, at
whatever positions, a position that was passable has the color of the last paint there, or the one
it had at the start if there was none, and no other position has a color. The size of the board and
its passable positions stay the same. Each paint reports an effect exactly if the position was
passable and did not have the color just before, and if it reports none, and only then, it leaves
the board as it was. -/
theorem painting_as_map (b : Board) (paints : List (Position × Color)) :
    (∀ q, (b.paintAll paints).1.colorAt q = b.colorAfter paints q) ∧
      (b.paintAll paints).1.width = b.width ∧ (b.paintAll paints).1.height = b.height ∧
      (∀ q, (b.paintAll paints).1.Passable q ↔ b.Passable q) ∧
      ∀ k q c, paints[k]? = some (q, c) → ∃ effect, (b.paintAll paints).2[k]? = some effect ∧
        (effect = true ↔ b.Passable q ∧ b.colorAfter (paints.take k) q ≠ some c) ∧
        (effect = false ↔
          (b.paintAll (paints.take (k + 1))).1 = (b.paintAll (paints.take k)).1) := by
  refine ⟨b.colorAt_paintAll paints, b.width_paintAll paints, b.height_paintAll paints,
    fun q ↦ passable_paintAll, fun k q c hk ↦ ?_⟩
  obtain ⟨hreport, hboard⟩ := getElem?_paintAll (b := b) hk
  refine ⟨_, hreport, ?_, ?_⟩
  · rw [decide_eq_true_iff, Repaints, passable_paintAll, colorAt_paintAll]
  · rw [decide_eq_false_iff_not, hboard, repaint_eq_self_iff]

/-- A green tile beside a hole, over a hole and a blue tile. -/
def twoTilesTwoHoles : Board := ⟨2, 2, #[some .green, none, none, some .blue], rfl⟩

/-- Paints beside a hole, in it, off the board and on a tile that is painted twice: the third paint
of the first tile finds it in its color. -/
theorem painting_as_map_twoTilesTwoHoles :
    ∃ paints : List (Position × Color),
      paints = [(⟨0, 0⟩, .red), (⟨0, 1⟩, .red), (⟨0, 0⟩, .blue), (⟨-1, 1⟩, .red), (⟨0, 0⟩, .blue)] ∧
      (twoTilesTwoHoles.paintAll paints).1.colorAt ⟨0, 0⟩ = some .blue ∧
      (twoTilesTwoHoles.paintAll paints).1.colorAt ⟨0, 1⟩ = none ∧
      paints[4]? = some (⟨0, 0⟩, .blue) ∧ (twoTilesTwoHoles.paintAll paints).2[4]? = some false ∧
      (twoTilesTwoHoles.paintAll paints).1 = (twoTilesTwoHoles.paintAll (paints.take 4)).1 := by
  refine ⟨_, rfl, ?_⟩
  obtain ⟨hcolor, -, -, -, heach⟩ := painting_as_map twoTilesTwoHoles
    [(⟨0, 0⟩, .red), (⟨0, 1⟩, .red), (⟨0, 0⟩, .blue), (⟨-1, 1⟩, .red), (⟨0, 0⟩, .blue)]
  obtain ⟨effect, hreport, heffect, hboard⟩ := heach 4 ⟨0, 0⟩ .blue rfl
  have hnone : effect = false := Bool.eq_false_iff.2 fun htrue ↦
    (heffect.1 htrue).2 rfl
  exact ⟨hcolor _, hcolor _, rfl, hnone ▸ hreport, hboard.1 hnone⟩

end TileRobot.Board
