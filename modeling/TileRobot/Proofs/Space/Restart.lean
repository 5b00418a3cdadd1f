import TileRobot.Proofs.Space.Candidates

/-!
# Moving on and starting again

A cursor can be moved on from place to place, or it can be put at an index directly. The two come to
the same as long as they stay in the space: what is found by counting programs off is found by
dividing the index (`Space.advanceBy_cursor_eq_cursor`). This holds in a space of any size, also in
one that has more programs than there are indices, since then no index is past the end.

At the end the two differ. A cursor that is moved on stays at the place after the last program,
whereas it can be put at any index. `Space.advanceBy_cursor_eq` says where it comes to in general.
-/

namespace TileRobot.Space

variable {s : Space} {c : Cursor} {i k : Nat}

namespace Cursor

/-! ### Past the end -/

theorem advance_of_current?_eq_none (hc : c.current? = none) : c.advance = c :=
  advance_of_phrase?_eq_none (Option.map_eq_none_iff.1 hc)

theorem advanceBy_of_current?_eq_none (hc : c.current? = none) (k : Nat) : c.advanceBy k = c := by
  induction k with
  | zero => rfl
  | succ k ih => rw [advanceBy, advance_of_current?_eq_none hc, ih]

/-! ### Moving on twice -/

theorem advanceBy_add (c : Cursor) (m n : Nat) :
    c.advanceBy (m + n) = (c.advanceBy m).advanceBy n := by
  induction m generalizing c with
  | zero => rw [Nat.zero_add, advanceBy]
  | succ m ih => rw [Nat.succ_add, advanceBy, advanceBy, ih]

theorem space_advanceBy (c : Cursor) (k : Nat) : (c.advanceBy k).space = c.space := by
  induction k generalizing c with
  | zero => rfl
  | succ k ih => rw [advanceBy, ih, space_advance]

theorem index_le_index_advance (c : Cursor) : c.index ≤ c.advance.index := by
  rw [advance]
  split
  · exact le_rfl
  · exact Nat.le_succ _

theorem index_le_index_advanceBy (c : Cursor) (k : Nat) : c.index ≤ (c.advanceBy k).index := by
  induction k generalizing c with
  | zero => exact le_rfl
  | succ k ih => exact c.index_le_index_advance.trans (ih c.advance)

theorem Valid.advanceBy (hc : c.Valid) (k : Nat) : (c.advanceBy k).Valid := by
  induction k generalizing c with
  | zero => exact hc
  | succ k ih => exact ih hc.advance

end Cursor

/-- Wherever a cursor has come to, the program there is one of the space. -/
theorem admits_of_current? {p : Program} (hi : i < indexLimit)
    (hp : ((s.cursor i).advanceBy k).current? = some p) : s.Admits p := by
  have hadmits := ((valid_cursor hi).advanceBy k).admits hp
  rwa [Cursor.space_advanceBy] at hadmits

/-! ### Where a cursor comes to -/

/-- **A cursor that is moved on stops after the last program.** One that was put past it stays. -/
theorem advanceBy_cursor_eq (hlimit : i + k < indexLimit) :
    (s.cursor i).advanceBy k = s.cursor (max i (min (i + k) s.size)) := by
  rcases Nat.lt_or_ge i s.size with hi | hi
  · rw [Nat.max_eq_right (by omega)]
    rcases Nat.le_total (i + k) s.size with hle | hge
    · rw [Nat.min_eq_left hle, advanceBy_cursor hle hlimit]
    · -- the last program is passed on the way, and from there on nothing changes
      obtain ⟨m, rfl⟩ := Nat.exists_eq_add_of_le (show s.size - i ≤ k by omega)
      have hlast : (s.cursor s.size).current? = none :=
        (current?_cursor_eq_none_iff (by omega)).2 le_rfl
      rw [Nat.min_eq_right hge, Cursor.advanceBy_add, advanceBy_cursor (by omega) (by omega),
        Nat.add_sub_cancel' hi.le, Cursor.advanceBy_of_current?_eq_none hlast]
  · have hpast : (s.cursor i).current? = none := (current?_cursor_eq_none_iff (by omega)).2 hi
    rw [Nat.max_eq_left (by omega), Cursor.advanceBy_of_current?_eq_none hpast]

/-- Moving on comes to a program exactly where there is one so many indices on. -/
theorem current?_advanceBy_cursor_eq_none_iff (hlimit : i + k < indexLimit) :
    ((s.cursor i).advanceBy k).current? = none ↔ s.size ≤ i + k := by
  rw [advanceBy_cursor_eq hlimit, current?_cursor_eq_none_iff (by omega)]
  omega

/-- The bound on an index that is asked for where the size is known is one by the size itself. -/
theorem add_le_size (hlimit : i + k < indexLimit) (hn : ∀ n, s.size? = some n → i + k ≤ n) :
    i + k ≤ s.size := by
  by_contra hlt
  have hsize : s.size? = some s.size := s.size?_eq.trans (belowLimit?_of_lt (by omega))
  exact hlt (hn s.size hsize)

/-- **Moving on comes to the same cursor as starting again**, at the same index and with the same
letters and so the same program, or past the last one as well. That is so for all indices up to the
end of the space, or up to the limit if the space reaches beyond it. -/
theorem advanceBy_cursor_eq_cursor (hlimit : i + k < indexLimit)
    (hn : ∀ n, s.size? = some n → i + k ≤ n) : (s.cursor i).advanceBy k = s.cursor (i + k) :=
  advanceBy_cursor (add_le_size hlimit hn) hlimit

/-- A routine of at most one slot and one of at most two hundred, to be filled with moves and turns:
more programs than there are indices. -/
def walks : Space := ⟨[1, 200], [⟨.forward, none⟩, ⟨.left, none⟩]⟩

theorem size?_walks : walks.size? = none := by decide

end TileRobot.Space
