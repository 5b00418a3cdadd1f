import TileRobot.Proofs.Machine.Compaction
import TileRobot.Proofs.Search.Account
import TileRobot.Proofs.Space.Challenge

/-!
# Searches that have tried everything

A search without limits that ends without a solution has tried all programs of the space. That says
something about the programs with empty slots, too, although none of them was tried: one that solved
the scene would have a compacted form among the candidates, which would solve it as well
(`no_solution_of_exhausted`).
-/

namespace TileRobot.Search

variable {fuel i j m n attempts : Nat} {s : Scene} {p : Program} {space : Space}

/-! ### Failed candidates -/

/-- No more programs can fail than there are. -/
theorem Failed.le_size (hn : space.size < indexLimit) (hi : i ≤ space.size)
    (hfailed : Failed fuel s (space.cursor i) m) : i + m ≤ space.size := by
  by_contra hlt
  obtain ⟨p, hp, -⟩ := hfailed (space.size - i) (show space.size - i < m by omega)
  rw [Space.advanceBy_cursor (by omega) (by omega), Nat.add_sub_cancel' hi,
    (Space.current?_cursor_eq_none_iff hn).2 le_rfl] at hp
  contradiction

theorem Failed.trial_eq (hn : space.size < indexLimit) (him : i + m ≤ space.size)
    (hfailed : Failed fuel s (space.cursor i) m) (hj : j < m)
    (hp : (space.cursor (i + j)).current? = some p) : trial fuel s p = .ok false := by
  obtain ⟨q, hq, ht⟩ := hfailed j hj
  rw [Space.advanceBy_cursor (by omega) (by omega), hp] at hq
  rwa [Option.some.inj hq]

/-- The search that ends without a solution has tried the rest of the space. -/
theorem attempts_of_exhausted (hn : space.size < indexLimit) (hi : i ≤ space.size)
    (hdescribes : Describes fuel s (space.cursor i) n (.ok (.exhausted attempts))) :
    attempts = n + (space.size - i) ∧ Failed fuel s (space.cursor i) (space.size - i) := by
  obtain ⟨m, ha, hfailed, hnone⟩ := hdescribes
  have hle := hfailed.le_size hn hi
  rw [Space.advanceBy_cursor hle (by omega),
    Space.current?_cursor_eq_none_iff (show i + m < indexLimit by omega)] at hnone
  obtain rfl : m = space.size - i := by omega
  exact ⟨ha, hfailed⟩

/-! ### Programs with empty slots -/

/-- If the compacted form of a program fails, the program comes to its end without a solution. -/
theorem solves?_eq_false_of_compact (ht : trial fuel s p.compact = .ok false) :
    ∃ fuel', Machine.solves? fuel' s p = some false := by
  obtain ⟨h, outcome, hrun, hending, hfalse⟩ := trial_eq_ok_iff.1 ht
  obtain ⟨fuel', k, hk⟩ := Machine.exists_run_of_run_compact hrun
  refine ⟨fuel', ?_⟩
  rw [Machine.solves?, hk, Option.map_some, decide_eq_false]
  intro hsolved
  -- if the program solved the scene, so would its compacted form
  have hne : k.ending ≠ .finished .loopDetected := fun hloop ↦ by
    rw [hsolved] at hloop
    contradiction
  rw [Machine.run_unique hrun (Machine.run_compact_of_run hk hne), hsolved] at hending
  obtain rfl : .solved = outcome := Machine.Ending.finished.inj hending
  contradiction

/-- **An exhausted search leaves no solution.** If a search without limits ends without one, it has
made as many attempts as there are candidates, and no program solves the scene that fits the
challenge and paints with its colors only, wherever it has empty slots. -/
theorem no_solution_of_exhausted {challenge : Challenge} {clock : Nat → Id Nat}
    (hsize : challenge.space.size? = some n)
    (hexhausted : search clock fuel challenge {} = .ok (.exhausted attempts)) :
    attempts = n ∧ ∀ p, challenge.fault? p = none → p.PaintsWith challenge.paints →
      ∃ fuel', Machine.solves? fuel' challenge.scene p = some false := by
  obtain ⟨rfl, hn⟩ := Space.size_of_size?_eq_some hsize
  have hdescribes := describes_search clock fuel challenge {}
  rw [hexhausted] at hdescribes
  obtain ⟨ha, hfailed⟩ := attempts_of_exhausted hn (Nat.zero_le _) hdescribes
  refine ⟨by omega, fun p hfault hpaints ↦ ?_⟩
  obtain ⟨i, hi, hp⟩ :=
    (Space.exists_cursor_iff hn).2 (Challenge.admits_compact hfault hpaints)
  exact solves?_eq_false_of_compact
    (hfailed.trial_eq hn (by omega) (by omega) ((Nat.zero_add i).symm ▸ hp))

/-- Two blue tiles with a hole between them, the robot on the western one facing east, the goal on
the eastern one. A routine without slots is all there is to solve it with. -/
def apart : Challenge where
  scene := ⟨⟨3, 1, #[some .blue, none, some .blue], rfl⟩, ⟨⟨0, 0⟩, .east⟩, .ofList [⟨0, 2⟩]⟩
  bounds := [0]
  paints := []

theorem trial_apart : trial 2 apart.scene ⟨[[]]⟩ = .ok false := by
  refine trial_eq_ok_iff.2 ⟨⟨.finished .exhausted, apart.scene⟩, .exhausted, ?_, rfl, rfl⟩
  rw [Machine.run, Machine.runFrom_of_proceed (Machine.Evidence.not_repeats_empty _) rfl]
  exact Machine.runFrom_of_ending (Machine.Evidence.not_repeats_nil _ _) rfl

/-- The routine without slots is the only candidate. -/
theorem current?_apart : (apart.space.cursor 0).current? = some ⟨[[]]⟩ := by
  simp [Space.Cursor.current?, Space.cursor, Phrase.unrank?, Phrase.unrankFrom, Space.program,
    Space.routine, Challenge.space, apart, Word.count?, Word.countFrom?, belowLimit?, indexLimit]

theorem advance_apart : (apart.space.cursor 0).advance = apart.space.cursor 1 :=
  Space.advance_cursor (by decide) (by decide)

theorem current?_apart_one : (apart.space.cursor 1).current? = none :=
  (Space.current?_cursor_eq_none_iff (by decide)).2 (by decide)

theorem search_apart (clock : Nat → Id Nat) :
    search clock 2 apart {} = .ok (.exhausted 1) := by
  have hlast : (apart.space.cursor 0).advance.current? = none := by
    rw [advance_apart, current?_apart_one]
  exact (searchFrom_of_failed current?_apart trial_apart).trans (searchFrom_of_none hlast)

/-- The search in `apart` is exhausted after one attempt, and there is no solution. -/
theorem no_solution_apart : apart.space.size? = some 1 ∧
    search (fun _ ↦ (0 : Id Nat)) 2 apart {} = .ok (.exhausted 1) ∧
      ∀ p, apart.fault? p = none → p.PaintsWith apart.paints →
        ∃ fuel', Machine.solves? fuel' apart.scene p = some false :=
  have hsize : apart.space.size? = some 1 := by decide
  have hexhausted := search_apart fun _ ↦ 0
  ⟨hsize, hexhausted, (no_solution_of_exhausted hsize hexhausted).2⟩

end TileRobot.Search
