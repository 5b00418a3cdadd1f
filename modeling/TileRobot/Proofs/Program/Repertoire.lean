import Mathlib.Data.List.Nodup
import Mathlib.Data.List.Pairwise
import TileRobot.Program.Repertoire

/-!
# Repertoires and paints

A repertoire lists each instruction once, unless it was given a paint twice
(`nodup_repertoire_iff`). The moves, the paints and the calls are different operations, and under
different guards no two instructions are the same.

The instructions under one guard stand in a row, and all these rows have the same length. So the
place of an instruction is a number of two digits, its guard and its operation
(`getElem?_repertoire`). The candidates of a space are numbered by such places, and with
`repertoire_exact` each place has a meaning that does not depend on how the list was made.

A program that is written from a repertoire paints with the paints of the repertoire only
(`Program.PaintsWith`).
-/

namespace TileRobot

namespace Program

/-- A program paints with colors from a list only. -/
def PaintsWith (p : Program) (paints : List Color) : Prop :=
  ∀ r ∈ p.routines, ∀ i ∈ Routine.instructions r, ∀ color ∈ i.paint?, color ∈ paints

instance (p : Program) (paints : List Color) : Decidable (p.PaintsWith paints) :=
  inferInstanceAs (Decidable (∀ r ∈ p.routines, ∀ i ∈ Routine.instructions r,
    ∀ color ∈ i.paint?, color ∈ paints))

theorem PaintsWith.mono {p : Program} {paints paints' : List Color} (hp : p.PaintsWith paints)
    (hsubset : ∀ color ∈ paints, color ∈ paints') : p.PaintsWith paints' :=
  fun r hr i hi color hcolor ↦ hsubset color (hp r hr i hi color hcolor)

end Program

variable {n : Nat} {paints : List Color}

theorem nodup_operations_iff : (operations n paints).Nodup ↔ paints.Nodup := by
  have hpaint : Function.Injective Operation.paint := fun _ _ ↦ Operation.paint.inj
  have hcall : Function.Injective Operation.call := fun _ _ ↦ Operation.call.inj
  have hmoves : [Operation.forward, .left, .right].Nodup := by decide
  rw [operations, List.append_assoc, List.nodup_append, List.nodup_append,
    List.nodup_map_iff hpaint, List.nodup_map_iff hcall]
  constructor
  · exact fun h ↦ h.2.1.1
  · -- no operation is of two of the three kinds
    intro hpaints
    refine ⟨hmoves, ⟨hpaints, List.nodup_range, ?_⟩, ?_⟩ <;> grind

/-- **A repertoire repeats no instruction exactly if no paint was given twice.** -/
theorem nodup_repertoire_iff : (repertoire n paints).Nodup ↔ paints.Nodup := by
  have hinstruction : ∀ guard : Option Color, Function.Injective
      fun operation ↦ ({ operation, guard } : Instruction) :=
    fun _ _ _ heq ↦ (Instruction.mk.inj heq).1
  rw [repertoire, List.nodup_flatMap]
  simp only [List.nodup_map_iff (hinstruction _), nodup_operations_iff]
  constructor
  · rintro ⟨hall, -⟩
    exact hall none (mem_guards none)
  · intro hpaints
    have hguards : guards.Nodup := by decide
    refine ⟨fun _ _ ↦ hpaints, hguards.imp fun hne ↦ ?_⟩
    simp only [Function.onFun, List.disjoint_left, List.mem_map]
    rintro _ ⟨_, -, rfl⟩ ⟨_, -, heq⟩
    exact hne (Instruction.mk.inj heq).2.symm

/-! ### Places -/

/-- Among rows of one length the place of an element is given by its row and its place in it. -/
theorem getElem?_flatMap_of_length {α β : Type} {f : α → List β} {m : Nat} {l : List α}
    (hlength : ∀ a ∈ l, (f a).length = m) (g : Nat) {k : Nat} (hk : k < m) :
    (l.flatMap f)[g * m + k]? = l[g]?.bind fun a ↦ (f a)[k]? := by
  induction l generalizing g with
  | nil => rfl
  | cons a l ih =>
    obtain ⟨ha, hl⟩ := List.forall_mem_cons.1 hlength
    rw [List.flatMap_cons]
    rcases g with - | g
    · rw [Nat.zero_mul, Nat.zero_add, List.getElem?_append_left (by omega)]
      rfl
    · have hplace : (g + 1) * m + k = m + (g * m + k) := by
        rw [Nat.add_one_mul, Nat.add_comm (g * m), Nat.add_assoc]
      rw [hplace, List.getElem?_append_right (by omega), ha, Nat.add_sub_cancel_left, ih hl g,
        List.getElem?_cons_succ]

/-- **The place of an instruction is its guard and its operation.** -/
theorem getElem?_repertoire (g : Nat) {k : Nat} (hk : k < 3 + paints.length + n) :
    (repertoire n paints)[g * (3 + paints.length + n) + k]? =
      guards[g]?.bind fun guard ↦ (operations n paints)[k]?.map fun operation ↦
        { operation, guard } := by
  have hlength : ∀ guard ∈ guards, ((operations n paints).map fun operation ↦
      ({ operation, guard } : Instruction)).length = 3 + paints.length + n := by
    intro guard _
    rw [List.length_map, length_operations]
  rw [repertoire, getElem?_flatMap_of_length hlength g hk]
  simp only [List.getElem?_map]

/-- **A repertoire is complete, without needless repetitions and in order.** It has as many
instructions as its size says. They are the moves, the paints given and the calls of routines that
there are, with any guard or none. One is listed twice only if a paint is. And they stand guard by
guard, red, green, blue and none, under each guard first the moves, then the paints as they were
given, then the calls by index. -/
theorem repertoire_exact (n : Nat) (paints : List Color) :
    (repertoire n paints).length = repertoireSize n paints.length ∧
      (∀ i : Instruction, i ∈ repertoire n paints ↔
        i.operation = .forward ∨ i.operation = .left ∨ i.operation = .right ∨
          (∃ color ∈ paints, i.operation = .paint color) ∨ ∃ t < n, i.operation = .call t) ∧
      ((repertoire n paints).Nodup ↔ paints.Nodup) ∧
      ∀ (g : Fin 4) (k : Fin (3 + paints.length + n)),
        (repertoire n paints)[g.val * (3 + paints.length + n) + k.val]? =
          ([Operation.forward, .left, .right] ++ paints.map .paint ++
            (List.range n).map .call)[k.val]?.map fun operation ↦
              { operation, guard := [some Color.red, some .green, some .blue, none][g] } := by
  refine ⟨length_repertoire n paints, fun i ↦ ?_, nodup_repertoire_iff, fun g k ↦ ?_⟩
  · rw [mem_repertoire, mem_operations]
    rcases i.operation with - | - | - | color | target <;> simp
  · have hguard : guards[g.val]? = some [some Color.red, some .green, some .blue, none][g] :=
      List.getElem?_eq_getElem g.isLt
    rw [getElem?_repertoire g.val k.isLt, hguard, Option.bind_some]
    rfl

/-- With two routines and the paints blue and red there are seven operations under each guard. The
fourth under the second guard paints blue where the tile is green. -/
example : (repertoire 2 [.blue, .red])[1 * 7 + 3]? = some ⟨.paint .blue, some .green⟩ := by decide

end TileRobot
