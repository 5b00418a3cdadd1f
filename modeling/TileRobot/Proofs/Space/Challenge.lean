import TileRobot.Challenge
import TileRobot.Proofs.Program.Compact
import TileRobot.Proofs.Program.Repertoire
import TileRobot.Proofs.Space.Candidates

/-!
# The candidates of a challenge

A program that was written for a challenge may have empty slots, and the programs of the space of
the challenge have none. Apart from that they are the same: `Challenge.admits_iff` says that the
space admits the programs that fit the bounds, have no empty slot and paint with the given colors
only. Compacting keeps a program within a challenge, so every program that may be written has a
compacted form among the candidates (`Challenge.admits_compact`).

So there are two descriptions of the programs that may be written: by what is in the repertoire, and
by what the check for faults lets through. `Challenge.exists_candidate_iff` says that they agree,
and that a program has one index only if no paint was given twice.
-/

namespace TileRobot

namespace Program

variable {p : Program}

theorem fits_compact {bounds : List Nat} (hp : p.Fits bounds) : p.compact.Fits bounds := by
  obtain ⟨hsize, hentries⟩ := hp
  refine ⟨p.size_compact.trans hsize, ?_⟩
  intro entry hentry
  rw [compact, List.zip_map_left] at hentry
  obtain ⟨⟨r, bound⟩, hmem, rfl⟩ := List.mem_map.1 hentry
  obtain ⟨hlen, htargets⟩ := hentries (r, bound) hmem
  refine ⟨?_, ?_⟩
  · show r.compact.length ≤ bound
    rw [Routine.length_compact]
    exact (Routine.length_instructions_le r).trans hlen
  · show ∀ i ∈ r.compact.instructions, ∀ t ∈ i.target?, t < p.compact.size
    rwa [Routine.instructions_compact, p.size_compact]

theorem paintsWith_compact {paints : List Color} (hp : p.PaintsWith paints) :
    p.compact.PaintsWith paints := by
  intro row hrow
  obtain ⟨r, hr, rfl⟩ := List.mem_map.1 hrow
  rw [Routine.instructions_compact]
  exact hp r hr

end Program

namespace Challenge

variable {c : Challenge} {p : Program} {n : Nat}

/-- The instructions that may be used are those that call a routine and paint with a color of the
challenge, if they call or paint at all. -/
theorem mem_repertoire {i : Instruction} : i ∈ c.repertoire ↔
    (∀ t ∈ i.target?, t < c.size) ∧ ∀ color ∈ i.paint?, color ∈ c.paints := by
  rw [repertoire, TileRobot.mem_repertoire, mem_operations]
  obtain ⟨operation, guard⟩ := i
  rcases operation with - | - | - | color | target <;>
    simp [Instruction.target?, Instruction.paint?]

/-- **The candidates of a challenge**: the programs that fit it, have no empty slot and paint with
its colors only. -/
theorem admits_iff : c.space.Admits p ↔
    c.fault? p = none ∧ (∀ r ∈ p.routines, none ∉ r) ∧ p.PaintsWith c.paints := by
  rw [fault?, Program.fault?_eq_none_iff, Program.Fits, Space.Admits, List.forall₂_iff_zip]
  constructor
  · rintro ⟨hsize, hentries⟩
    have hrow : ∀ r ∈ p.routines, ∀ slot ∈ r, ∃ i ∈ c.repertoire, slot = some i := by
      intro r hr
      obtain ⟨bound, hmem⟩ := Program.exists_mem_zip_of_mem hsize hr
      exact (hentries hmem).2
    have hmem : ∀ r ∈ p.routines, ∀ i ∈ Routine.instructions r, i ∈ c.repertoire := by
      intro r hr i hi
      obtain ⟨j, hj, heq⟩ := hrow r hr _ (Routine.mem_instructions.1 hi)
      exact Option.some.inj heq ▸ hj
    refine ⟨⟨hsize, ?_⟩, ?_, ?_⟩
    · rintro ⟨r, bound⟩ hentry
      refine ⟨(hentries hentry).1, fun i hi t ht ↦ ?_⟩
      have hlt := (mem_repertoire.1 (hmem r (List.of_mem_zip hentry).1 i hi)).1 t ht
      exact hlt.trans_eq hsize.symm
    · intro r hr hnone
      obtain ⟨i, -, heq⟩ := hrow r hr none hnone
      contradiction
    · exact fun r hr i hi ↦ (mem_repertoire.1 (hmem r hr i hi)).2
  · rintro ⟨⟨hsize, hentries⟩, hfilled, hpaints⟩
    refine ⟨hsize, fun {r bound} hentry ↦ ⟨(hentries _ hentry).1, fun slot hslot ↦ ?_⟩⟩
    have hr := (List.of_mem_zip hentry).1
    rcases slot with - | i
    · exact absurd hslot (hfilled r hr)
    · have hi : i ∈ Routine.instructions r := Routine.mem_instructions.2 hslot
      refine ⟨i, mem_repertoire.2 ⟨fun t ht ↦ ?_, hpaints r hr i hi⟩, rfl⟩
      exact ((hentries _ hentry).2 i hi t ht).trans_eq hsize

/-- **Every program that may be written has a compacted form among the candidates.** -/
theorem admits_compact (hfault : c.fault? p = none) (hpaints : p.PaintsWith c.paints) :
    c.space.Admits p.compact := by
  refine admits_iff.2 ⟨?_, ?_, Program.paintsWith_compact hpaints⟩
  · exact Program.fault?_eq_none_iff.2 (Program.fits_compact (Program.fault?_eq_none_iff.1 hfault))
  · intro row hrow hnone
    obtain ⟨r, -, rfl⟩ := List.mem_map.1 hrow
    obtain ⟨i, -, hi⟩ := List.mem_map.1 hnone
    contradiction

/-- **The programs of the space are the filled programs that may be written.** A program stands at
some index below the number of programs exactly if the challenge finds no fault in it, none of its
slots is empty, and it paints with the colors of the challenge only. If no color is listed twice, it
stands at one index only. -/
theorem exists_candidate_iff (hsize : c.space.size? = some n) (p : Program) :
    ((∃ i < n, (c.space.cursor i).current? = some p) ↔
        c.fault? p = none ∧ (∀ r ∈ p.routines, none ∉ r) ∧ p.PaintsWith c.paints) ∧
      (c.paints.Nodup → ∀ i < n, ∀ j < n, (c.space.cursor i).current? = some p →
        (c.space.cursor j).current? = some p → i = j) := by
  obtain ⟨rfl, hn⟩ := Space.size_of_size?_eq_some hsize
  refine ⟨(Space.exists_cursor_iff hn).trans admits_iff, ?_⟩
  intro hpaints i hi j hj hip hjp
  have hletters : c.space.letters.Nodup := nodup_repertoire_iff.2 hpaints
  exact Space.cursor_injective hletters (hi.trans hn) (hj.trans hn) hip hjp

/-- One red tile, to be left with a routine of at most two slots that may paint the tile green. -/
def redTile : Challenge where
  scene := ⟨⟨1, 1, #[some .red], rfl⟩, ⟨⟨0, 0⟩, .north⟩, .ofList [⟨0, 1⟩]⟩
  bounds := [2]
  paints := [.green]

/-- Painting the tile green if it is red, and then starting again, is one of the 421 programs that
may be written, and it is at one index only. -/
theorem exists_candidate_redTile : redTile.space.size? = some 421 ∧ ∃ i < 421,
    (redTile.space.cursor i).current? =
        some ⟨[[some ⟨.paint .green, some .red⟩, some ⟨.call 0, none⟩]]⟩ ∧
      ∀ j < 421, (redTile.space.cursor j).current? =
        some ⟨[[some ⟨.paint .green, some .red⟩, some ⟨.call 0, none⟩]]⟩ → i = j := by
  have hsize : redTile.space.size? = some 421 := by decide
  have hcandidate :=
    exists_candidate_iff hsize ⟨[[some ⟨.paint .green, some .red⟩, some ⟨.call 0, none⟩]]⟩
  obtain ⟨i, hi, hip⟩ := hcandidate.1.2 ⟨by decide, by decide, by decide⟩
  exact ⟨hsize, i, hi, hip, fun j hj hjp ↦ hcandidate.2 (by decide) i hi j hj hip hjp⟩

end Challenge

end TileRobot
