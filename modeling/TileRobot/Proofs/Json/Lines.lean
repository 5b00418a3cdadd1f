import TileRobot.Json.Writer
import TileRobot.Proofs.Text.Parts

/-!
# The lines of a spread record

A record whose fields are strings and integers is written with one line for each field, between a
line for each brace (`spreadLines_ofFields`). The lines can be told apart because no line feed
stands within them: in strings it is escaped, and integers have none.

A string of characters that need no escape stands between its quotes as it is
(`renderString_letters`).
-/

namespace TileRobot.Json

/-! ### Characters of scalars -/

theorem newline_notMem_unitEscape (n : Nat) : '\n' ∉ unitEscape n := by
  have hdigit : ∀ m, '\n' ≠ hexDigit m := fun m ↦ by
    have hall : ∀ d < 16, '\n' ≠ Nat.digitChar d := by decide
    exact hall _ (Nat.mod_lt m (by decide))
  simp only [unitEscape, List.mem_cons, hdigit, List.not_mem_nil, or_false, or_self]
  decide

/-- A line feed is escaped. -/
theorem newline_notMem_render (x : Letter) : '\n' ∉ x.render := by
  rcases x with c | n
  · simp only [Letter.render]
    split
    · decide
    split
    · decide
    split
    · decide
    split
    · decide
    split
    · decide
    · rename_i hc
      split
      · decide
      split
      · decide
      split
      · exact newline_notMem_unitEscape _
      · exact fun hmem ↦ hc (List.mem_singleton.1 hmem).symm
  · exact newline_notMem_unitEscape n

theorem newline_notMem_renderString (l : List Letter) : '\n' ∉ renderString l := by
  have hletters : '\n' ∉ l.flatMap Letter.render := fun hmem ↦ by
    obtain ⟨x, -, hx⟩ := List.mem_flatMap.1 hmem
    exact newline_notMem_render x hx
  rw [renderString, List.mem_append, List.mem_cons]
  rintro ((h | h) | h)
  · exact absurd h (by decide)
  · exact hletters h
  · exact absurd h (by decide)

theorem newline_notMem_renderInteger (n : Int) : '\n' ∉ renderInteger n := by
  have hdigits : '\n' ∉ Text.digits n.natAbs := Text.notMem_digits (by decide) _
  rw [renderInteger]
  split
  · intro hmem
    rcases List.mem_cons.1 hmem with h | h
    · exact absurd h (by decide)
    · exact hdigits h
  · exact hdigits

/-- A character that is neither a control character nor a quote nor a backslash stands as it is. -/
theorem render_char {c : Char} (hc : 0x20 ≤ c.toNat) (hquote : c ≠ '\x22') (hslash : c ≠ '\\') :
    (Letter.char c).render = [c] := by
  have hcontrol : ∀ d : Char, d.toNat < 0x20 → c ≠ d := fun d hd h ↦ by
    rw [← h] at hd
    omega
  rw [Letter.render, if_neg hquote, if_neg hslash, if_neg (hcontrol _ (by decide)),
    if_neg (hcontrol _ (by decide)), if_neg (hcontrol _ (by decide)),
    if_neg (hcontrol _ (by decide)), if_neg (hcontrol _ (by decide)), if_neg (by omega)]

/-- A text without characters that need an escape stands between its quotes as it is. -/
theorem renderString_letters {s : String} (hs : ∀ c ∈ s.toList, (Letter.char c).render = [c]) :
    renderString (letters s) = '\x22' :: (s.toList ++ ['\x22']) := by
  rw [renderString, letters, List.flatMap_map, List.flatMap_congr hs, List.flatMap_singleton']
  rfl

/-! ### Lines -/

namespace Value

/-- A value is simple when it is a string or an integer. -/
inductive Simple : Value → Prop where
  /-- A string. -/
  | string (l : List Letter) : Simple (.string l)
  /-- An integer. -/
  | integer (n : Int) : Simple (.integer n)

theorem Simple.newline_notMem {v : Value} (hv : v.Simple) : '\n' ∉ v.renderScalar := by
  rcases hv with l | n
  · exact newline_notMem_renderString l
  · exact newline_notMem_renderInteger n

theorem Simple.spreadChars_eq {v : Value} (hv : v.Simple) (depth : Nat) :
    v.spreadChars depth = v.renderScalar := by
  rcases hv with l | n
  · rw [spreadChars]
    all_goals exact nofun
  · rw [spreadChars]
    all_goals exact nofun

/-- The line of a field, without the comma after it. -/
def fieldLine (field : String × Value) : List Char :=
  [' ', ' '] ++ renderString (letters field.1) ++ ':' :: ' ' :: field.2.renderScalar

/-- The lines of the fields of a record. -/
def fieldLines : List (String × Value) → List (List Char)
  | [] => []
  | [field] => [fieldLine field]
  | field :: next :: fields => (fieldLine field ++ [',']) :: fieldLines (next :: fields)

theorem newline_notMem_fieldLines {fields : List (String × Value)}
    (hfields : ∀ f ∈ fields, f.2.Simple) : ∀ line ∈ fieldLines fields, '\n' ∉ line := by
  have hline : ∀ f ∈ fields, '\n' ∉ fieldLine f := fun f hf hmem ↦ by
    simp only [fieldLine, List.mem_append, List.mem_cons, List.not_mem_nil, or_false] at hmem
    rcases hmem with ((h | h) | h) | h | h | h
    · exact absurd h (by decide)
    · exact absurd h (by decide)
    · exact newline_notMem_renderString _ h
    · exact absurd h (by decide)
    · exact absurd h (by decide)
    · exact (hfields f hf).newline_notMem h
  induction fields with
  | nil => exact nofun
  | cons f fields ih =>
    obtain ⟨hf, hrest⟩ := List.forall_mem_cons.1 hline
    have hlines := ih (fun g hg ↦ hfields g (List.mem_cons_of_mem _ hg)) hrest
    rcases fields with - | ⟨g, fields⟩
    · exact List.forall_mem_singleton.2 hf
    · refine List.forall_mem_cons.2 ⟨fun hmem ↦ ?_, hlines⟩
      rcases List.mem_append.1 hmem with h | h
      · exact hf h
      · exact absurd h (by decide)

/-- The fields of a record follow each other on lines of their own. -/
theorem spreadFields_eq {fields : List (String × Value)} (hfields : ∀ f ∈ fields, f.2.Simple) :
    spreadFields 1 (fields.map fun (name, v) ↦ (letters name, v)) =
      (fieldLines fields).flatMap (['\n'] ++ ·) := by
  induction fields with
  | nil => rfl
  | cons f fields ih =>
    obtain ⟨hf, hrest⟩ := List.forall_mem_cons.1 hfields
    have hscalar := hf.spreadChars_eq 1
    rcases fields with - | ⟨g, fields⟩
    · simp only [List.map_cons, List.map_nil, spreadFields, hscalar, fieldLines,
        List.flatMap_cons, List.flatMap_nil, List.append_nil, fieldLine]
      rfl
    · rw [fieldLines, List.flatMap_cons, ← ih hrest, List.map_cons, List.map_cons, spreadFields,
        hscalar]
      · simp only [fieldLine, indentation, List.append_assoc, List.cons_append, List.nil_append]
        rfl
      · exact nofun

/-- **A record of strings and integers has one line for each field**, between its braces. -/
theorem spreadLines_ofFields {fields : List (String × Value)} (hne : fields ≠ [])
    (hfields : ∀ f ∈ fields, f.2.Simple) : (ofFields fields).spreadLines =
      "\x7b" :: ((fieldLines fields).map String.ofList ++ ["\x7d"]) := by
  have hchars : (ofFields fields).spreadChars 0 =
      ['\n'].intercalate (['\x7b'] :: (fieldLines fields ++ [['\x7d']])) := by
    obtain ⟨f, rest, rfl⟩ := List.exists_cons_of_ne_nil hne
    rw [Text.intercalate_cons, List.flatMap_append, ← spreadFields_eq hfields, ofFields,
      List.map_cons, spreadChars]
    · rw [List.append_assoc]
      rfl
    · exact nofun
  have hnewline : ∀ line ∈ ['\x7b'] :: (fieldLines fields ++ [['\x7d']]), '\n' ∉ line := by
    refine List.forall_mem_cons.2 ⟨by decide, List.forall_mem_append.2 ⟨?_, by decide⟩⟩
    exact newline_notMem_fieldLines hfields
  rw [spreadLines, hchars, List.splitOn_intercalate _ hnewline (List.cons_ne_nil _ _),
    List.map_cons, List.map_append]
  rfl

end Value

end TileRobot.Json
