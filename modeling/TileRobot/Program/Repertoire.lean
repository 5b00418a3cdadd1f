import TileRobot.Program.Basic
/-!
# Repertoires

The instructions that a program may use: every operation that makes sense with a given number of
routines and given paints, under every guard. Their order is part of the meaning, since it numbers
the programs that can be written with them.

## Main statements

* `length_repertoire`: the number of instructions.
* `mem_repertoire`: which instructions they are.
-/

namespace TileRobot

/-- The guards in their order: the colors, then no guard. -/
def guards : List (Option Color) := Color.all.map some ++ [none]

/-- The operations that make sense with `n` routines and the given paints, in their order. -/
def operations (n : Nat) (paints : List Color) : List Operation :=
  [.forward, .left, .right] ++ paints.map .paint ++ (List.range n).map .call

/-- The instructions that make sense with `n` routines and the given paints, in their order: guard
by guard, and under each guard operation by operation. -/
def repertoire (n : Nat) (paints : List Color) : List Instruction :=
  guards.flatMap fun guard ↦ (operations n paints).map fun operation ↦ { operation, guard }

/-- The number of instructions for `n` routines and `k` paints. -/
def repertoireSize (n k : Nat) : Nat := 4 * (3 + k + n)

theorem mem_guards (guard : Option Color) : guard ∈ guards := by
  cases guard with
  | none => decide
  | some c => cases c <;> decide

theorem length_operations (n : Nat) (paints : List Color) :
    (operations n paints).length = 3 + paints.length + n := by
  simp [operations]
  omega

theorem length_repertoire (n : Nat) (paints : List Color) :
    (repertoire n paints).length = repertoireSize n paints.length := by
  simp only [repertoire, guards, Color.all, repertoireSize, List.map_cons, List.map_nil,
    List.cons_append, List.nil_append, List.flatMap_cons, List.flatMap_nil, List.length_append,
    List.length_map, length_operations, List.length_nil]
  omega

theorem mem_operations {n : Nat} {paints : List Color} {o : Operation} :
    o ∈ operations n paints ↔
      match o with
      | .paint c => c ∈ paints
      | .call t => t < n
      | _ => True := by
  cases o <;> simp [operations]

theorem mem_repertoire {n : Nat} {paints : List Color} {i : Instruction} :
    i ∈ repertoire n paints ↔ i.operation ∈ operations n paints := by
  simp only [repertoire, List.mem_flatMap, List.mem_map]
  constructor
  · rintro ⟨_, _, _, h, rfl⟩
    exact h
  · intro h
    exact ⟨i.guard, mem_guards i.guard, i.operation, h, rfl⟩

end TileRobot
