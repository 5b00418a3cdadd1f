import TileRobot.Position
/-!
# Goals

The set of positions that a robot has yet to visit. A set is seen through membership, and two sets
with the same members are equal (`Goals.ext`), because the members are kept in order and without
repetitions.
-/

namespace TileRobot

/-- A finite set of positions, listed in order. -/
structure Goals where
  /-- The members, by row and then by column. -/
  toList : List Position
  /-- The members are listed in strictly increasing order. -/
  sorted : toList.Pairwise (· < ·)
deriving DecidableEq

namespace Goals

instance : EmptyCollection Goals where
  emptyCollection := ⟨[], List.Pairwise.nil⟩

instance : Inhabited Goals := ⟨∅⟩

instance : Membership Position Goals where
  mem g p := p ∈ g.toList

theorem mem_toList {g : Goals} {p : Position} : p ∈ g.toList ↔ p ∈ g := Iff.rfl

instance (p : Position) (g : Goals) : Decidable (p ∈ g) :=
  inferInstanceAs (Decidable (p ∈ g.toList))

/-- The number of members. -/
def size (g : Goals) : Nat := g.toList.length

/-- Whether there is no member. -/
def isEmpty (g : Goals) : Bool := g.toList.isEmpty

@[simp] theorem notMem_empty (p : Position) : p ∉ (∅ : Goals) := List.not_mem_nil

theorem isEmpty_iff_size {g : Goals} : g.isEmpty = true ↔ g.size = 0 := by
  simp [isEmpty, size]

/-- A set of goals is empty when no position is a member. -/
theorem isEmpty_iff {g : Goals} : g.isEmpty = true ↔ ∀ p, p ∉ g := by
  rw [isEmpty, List.isEmpty_iff]
  exact List.eq_nil_iff_forall_not_mem

/-- Lists in strictly increasing order with the same members are equal. -/
theorem eq_of_sorted_of_mem_iff : ∀ {l k : List Position}, l.Pairwise (· < ·) →
    k.Pairwise (· < ·) → (∀ p, p ∈ l ↔ p ∈ k) → l = k
  | [], k, _, _, h => (List.eq_nil_iff_forall_not_mem.2 fun p hp ↦ by simpa using (h p).2 hp).symm
  | p :: l, [], _, _, h => by simpa using (h p).1 (by simp)
  | p :: l, q :: k, hl, hk, h => by
    rw [List.pairwise_cons] at hl hk
    -- the heads agree, since each is the least member of its list
    have hpq : p = q := by
      rcases List.mem_cons.1 ((h p).1 (by simp)) with e | hp
      · exact e
      rcases List.mem_cons.1 ((h q).2 (by simp)) with e | hq
      · exact e.symm
      · exact absurd (Position.lt_trans (hl.1 q hq) (hk.1 p hp)) (Position.lt_irrefl p)
    subst hpq
    have htail : ∀ r, r ∈ l ↔ r ∈ k := by
      intro r
      have hr := h r
      simp only [List.mem_cons] at hr
      constructor
      · intro hm
        rcases hr.1 (.inr hm) with rfl | hm'
        · exact absurd (hl.1 r hm) (Position.lt_irrefl r)
        · exact hm'
      · intro hm
        rcases hr.2 (.inr hm) with rfl | hm'
        · exact absurd (hk.1 r hm) (Position.lt_irrefl r)
        · exact hm'
    rw [eq_of_sorted_of_mem_iff hl.2 hk.2 htail]

/-- Sets of goals with the same members are equal. -/
theorem ext {g h : Goals} (e : ∀ p, p ∈ g ↔ p ∈ h) : g = h := by
  obtain ⟨l, hl⟩ := g
  obtain ⟨k, hk⟩ := h
  have hlk : l = k := eq_of_sorted_of_mem_iff hl hk e
  subst hlk
  rfl

/-! ### Adding and removing -/

/-- The list with `p` put at its place, unless it is there already. -/
def insertSorted (p : Position) : List Position → List Position
  | [] => [p]
  | q :: l =>
    if p < q then p :: q :: l
    else if p = q then q :: l
    else q :: insertSorted p l

theorem mem_insertSorted {p q : Position} {l : List Position} :
    q ∈ insertSorted p l ↔ q = p ∨ q ∈ l := by
  induction l with
  | nil => simp [insertSorted]
  | cons r l ih =>
    simp only [insertSorted]
    split
    · simp
    · split
      · rename_i h
        simp [h]
      · simp only [List.mem_cons, ih]
        grind

theorem sorted_insertSorted {p : Position} {l : List Position} (h : l.Pairwise (· < ·)) :
    (insertSorted p l).Pairwise (· < ·) := by
  induction l with
  | nil => simp [insertSorted]
  | cons q l ih =>
    rw [List.pairwise_cons] at h
    simp only [insertSorted]
    split
    · rename_i hpq
      refine List.pairwise_cons.2 ⟨?_, List.pairwise_cons.2 h⟩
      intro r hr
      rcases List.mem_cons.1 hr with rfl | hr
      · exact hpq
      · exact Position.lt_trans hpq (h.1 r hr)
    · split
      · exact List.pairwise_cons.2 h
      · rename_i hpq hne
        refine List.pairwise_cons.2 ⟨?_, ih h.2⟩
        intro r hr
        rcases mem_insertSorted.1 hr with rfl | hr
        · exact Position.lt_of_ne_of_not_lt (Ne.symm hne) hpq
        · exact h.1 r hr

/-- The set with `p` as a further member. -/
def insert (g : Goals) (p : Position) : Goals where
  toList := insertSorted p g.toList
  sorted := sorted_insertSorted g.sorted

/-- The set without `p`. -/
def erase (g : Goals) (p : Position) : Goals where
  toList := g.toList.filter (· ≠ p)
  sorted := g.sorted.filter _

/-- The set of the positions in a list. -/
def ofList (l : List Position) : Goals :=
  l.foldl insert ∅

@[simp] theorem mem_insert {g : Goals} {p q : Position} : q ∈ g.insert p ↔ q = p ∨ q ∈ g :=
  mem_insertSorted

@[simp] theorem mem_erase {g : Goals} {p q : Position} : q ∈ g.erase p ↔ q ∈ g ∧ q ≠ p := by
  simp [← mem_toList, erase]

theorem mem_foldl_insert {g : Goals} {q : Position} {l : List Position} :
    q ∈ l.foldl insert g ↔ q ∈ l ∨ q ∈ g := by
  induction l generalizing g with
  | nil => simp
  | cons p l ih =>
    rw [List.foldl_cons, ih, mem_insert, List.mem_cons]
    grind

@[simp] theorem mem_ofList {q : Position} {l : List Position} : q ∈ ofList l ↔ q ∈ l := by
  rw [ofList, mem_foldl_insert]
  simp

theorem erase_eq_self {g : Goals} {p : Position} (h : p ∉ g) : g.erase p = g := by
  apply ext
  intro q
  rw [mem_erase]
  constructor
  · exact And.left
  · intro hq
    exact ⟨hq, fun e ↦ h (e ▸ hq)⟩

/-- Removing a member lowers the size by one. -/
theorem size_erase {g : Goals} {p : Position} (h : p ∈ g) : (g.erase p).size + 1 = g.size := by
  obtain ⟨l, hl⟩ := g
  change (l.filter (· ≠ p)).length + 1 = l.length
  change p ∈ l at h
  have hnodup : l.Nodup := List.nodup_iff_pairwise_ne.2 (hl.imp Position.ne_of_lt)
  clear hl
  induction l with
  | nil => contradiction
  | cons q l ih =>
    rw [List.nodup_cons] at hnodup
    by_cases hq : q = p
    · subst hq
      have hfilter : l.filter (· ≠ q) = l :=
        List.filter_eq_self.2 fun r hr ↦ by
          simpa using fun e : r = q ↦ hnodup.1 (e ▸ hr)
      rw [List.filter_cons_of_neg (by simp), hfilter, List.length_cons]
    · have hmem : p ∈ l := by
        rcases List.mem_cons.1 h with e | e
        · exact absurd e.symm hq
        · exact e
      rw [List.filter_cons_of_pos (by simpa using hq), List.length_cons, ih hmem hnodup.2,
        List.length_cons]

end Goals

end TileRobot
