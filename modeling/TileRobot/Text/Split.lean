/-!
# Cutting text at a separator

`cut?` splits a text at the first occurrence of a separator, `pieces` at every occurrence, from
left to right and without overlaps. A text always has at least one piece, and putting the
separator back between the pieces gives the text again (`intercalate_pieces`).
-/

namespace TileRobot.Text

/-- What follows `lead` in a text that starts with it, or `none` if the text starts otherwise. -/
def strip? : (lead s : List Char) → Option (List Char)
  | [], s => some s
  | _ :: _, [] => none
  | a :: lead, c :: s => if a = c then strip? lead s else none

theorem strip?_eq_some_iff {lead s rest : List Char} :
    strip? lead s = some rest ↔ s = lead ++ rest := by
  induction lead generalizing s with
  | nil => simp [strip?]
  | cons a lead ih =>
    cases s with
    | nil => simp [strip?]
    | cons c s =>
      by_cases h : a = c
      · simp [strip?, h, ih]
      · simp [strip?, h, Ne.symm h]

/-- The part of a text before the first occurrence of `sep` and the part after it, or `none` if
`sep` does not occur. -/
def cut? (sep : List Char) : List Char → Option (List Char × List Char)
  | [] => (strip? sep []).map fun rest ↦ ([], rest)
  | c :: s =>
    match strip? sep (c :: s) with
    | some rest => some ([], rest)
    | none => (cut? sep s).map fun (before, rest) ↦ (c :: before, rest)

theorem eq_append_of_cut? {sep s before rest : List Char} (h : cut? sep s = some (before, rest)) :
    s = before ++ sep ++ rest := by
  induction s generalizing before with
  | nil =>
    simp only [cut?, Option.map_eq_some_iff, Prod.mk.injEq] at h
    obtain ⟨r, hr, rfl, rfl⟩ := h
    simpa using strip?_eq_some_iff.1 hr
  | cons c s ih =>
    simp only [cut?] at h
    split at h
    · rename_i r hr
      simp only [Option.some.injEq, Prod.mk.injEq] at h
      obtain ⟨rfl, rfl⟩ := h
      simpa using strip?_eq_some_iff.1 hr
    · simp only [Option.map_eq_some_iff, Prod.mk.injEq] at h
      obtain ⟨⟨b, r⟩, hbr, rfl, rfl⟩ := h
      simpa using ih hbr

theorem length_lt_of_cut? {sep s before rest : List Char} (hsep : sep ≠ [])
    (h : cut? sep s = some (before, rest)) : rest.length < s.length := by
  have hs := congrArg List.length (eq_append_of_cut? h)
  have hpos := List.length_pos_iff.2 hsep
  simp only [List.length_append] at hs
  omega

/-- The parts of a text between the occurrences of `sep`, found from left to right. -/
def pieces (sep : List Char) (s : List Char) (hsep : sep ≠ [] := by decide) : List (List Char) :=
  match _h : cut? sep s with
  | none => [s]
  | some (before, rest) => before :: pieces sep rest hsep
termination_by s.length
decreasing_by exact length_lt_of_cut? hsep _h

theorem pieces_of_cut?_eq_none {sep s : List Char} (hsep : sep ≠ []) (h : cut? sep s = none) :
    pieces sep s hsep = [s] := by
  rw [pieces]
  split
  · rfl
  · rename_i h'
    rw [h] at h'
    contradiction

theorem pieces_of_cut?_eq_some {sep s before rest : List Char} (hsep : sep ≠ [])
    (h : cut? sep s = some (before, rest)) :
    pieces sep s hsep = before :: pieces sep rest hsep := by
  rw [pieces]
  split
  · rename_i h'
    rw [h] at h'
    contradiction
  · rename_i h'
    rw [h] at h'
    cases h'
    rfl

theorem pieces_ne_nil (sep s : List Char) (hsep : sep ≠ []) : pieces sep s hsep ≠ [] := by
  rw [pieces]
  split <;> simp

/-- Putting the separator back between the pieces gives the text again. -/
theorem intercalate_pieces (sep s : List Char) (hsep : sep ≠ []) :
    sep.intercalate (pieces sep s hsep) = s := by
  fun_induction pieces sep s hsep with
  | case1 s h => simp [List.intercalate]
  | case2 s before rest h ih =>
    rw [List.intercalate] at ih ⊢
    obtain ⟨p, ps, hp⟩ := List.exists_cons_of_ne_nil (pieces_ne_nil sep rest hsep)
    rw [hp] at ih ⊢
    rw [eq_append_of_cut? h, List.intersperse_cons_cons, List.flatten_cons, List.flatten_cons, ih,
      List.append_assoc]

end TileRobot.Text
