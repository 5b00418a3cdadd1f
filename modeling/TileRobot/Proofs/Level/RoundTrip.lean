import TileRobot.Level.Document
import TileRobot.Proofs.Json.RoundTrip
import TileRobot.Proofs.Machine.Confinement
import TileRobot.Proofs.Text.Parts

/-!
# Levels and their documents

The document of a level is read as that level (`Level.read?_write`), whatever the characters in its
title and its board, with or without a number and a title, and with numbers up to the limits of 64
and 32 bits (`Level.InWords`). Two things come together here. The document is the compact form of a
plain value (`Level.plain_toJson`), so that the value is read back from it. And in that value each
part of a level is found again under the name it was given (`Json.Value.asRecord?_ofFields`) and by
the reading that belongs to its kind.
-/

namespace TileRobot

/-! ### Typed readings -/

namespace Json.Value

variable {α : Type} {read? : Value → Option α} {write : α → Value}

theorem asText?_ofString (s : String) : (ofString s).asText? = some s := text?_letters s

theorem asName?_ofString {ofName? : String → Option α} (s : String) :
    (ofString s).asName? ofName? = ofName? s := by
  rw [ofString, asName?, text?_letters, Option.bind_some]

theorem asInt32?_integer {n : Int} (hn : -2 ^ 31 ≤ n ∧ n < 2 ^ 31) :
    asInt32? (.integer n) = some n :=
  if_pos hn

theorem asNat64?_integer {n : Nat} (hn : n < 2 ^ 64) : asNat64? (.integer n) = some n := by
  have hrange : (0 : Int) ≤ n ∧ (n : Int) < (Text.limit64 : Nat) := by
    rw [show Text.limit64 = 2 ^ 64 by decide]
    omega
  rw [asNat64?, asInteger?, if_pos hrange]
  rfl

/-- A list is read back element by element. -/
theorem asList?_map {l : List α} (hl : ∀ a ∈ l, read? (write a) = some a) :
    asList? read? (.array (l.map write)) = some l := by
  rw [asList?, Text.mapM_eq_some_iff, List.forall₂_map_left_iff, List.forall₂_same]
  exact hl

/-- A value that may be absent is read back, as long as `null` stands for its absence only. -/
theorem asOptional?_map {x? : Option α} (hread : ∀ x ∈ x?, read? (write x) = some x)
    (hnull : ∀ x ∈ x?, write x ≠ .null) :
    asOptional? read? ((x?.map write).getD .null) = some x? := by
  rcases x? with - | x
  · rfl
  · rw [Option.map_some, Option.getD_some, asOptional?, hread x rfl]
    · rfl
    · exact hnull x rfl

/-- Among fields with different names each is the only one with its name. -/
theorem filter_eq_singleton {fields : List (String × Value)} {f : String × Value}
    (hnodup : (fields.map Prod.fst).Nodup) (hf : f ∈ fields) :
    fields.filter (·.1 == f.1) = [f] := by
  induction fields with
  | nil => contradiction
  | cons g fields ih =>
    rw [List.map_cons, List.nodup_cons] at hnodup
    obtain ⟨hg, hfields⟩ := hnodup
    rcases List.mem_cons.1 hf with rfl | hf
    · have hothers : fields.filter (·.1 == f.1) = [] := List.filter_eq_nil_iff.2 fun h hh heq ↦
        hg (List.mem_map.2 ⟨h, hh, beq_iff_eq.1 heq⟩)
      rw [List.filter_cons, if_pos (BEq.refl f.1), hothers]
    · have hne : ¬ (g.1 == f.1) = true := fun heq ↦
        hg (List.mem_map.2 ⟨f, hf, (beq_iff_eq.1 heq).symm⟩)
      rw [List.filter_cons, if_neg hne, ih hfields hf]

/-- **A record is read back from its fields**, if they have different names. -/
theorem asRecord?_ofFields {names : List String} {fields : List (String × Value)}
    (hnames : fields.map Prod.fst = names) (hnodup : names.Nodup) :
    (ofFields fields).asRecord? names = some (fields.map fun f ↦ some f.2) := by
  obtain rfl := hnames
  have htexts : (fields.map fun f ↦ (letters f.1, f.2)).mapM (fun f ↦
      (text? f.1).map fun n ↦ (n, f.2)) = some fields := by
    rw [Text.mapM_eq_some_iff, List.forall₂_map_left_iff, List.forall₂_same]
    intro f _
    rw [text?_letters, Option.map_some]
  show ((fields.map fun f ↦ (letters f.1, f.2)).mapM fun f ↦
    (text? f.1).map fun n ↦ (n, f.2)).bind _ = _
  rw [htexts]
  show (fields.map Prod.fst).mapM _ = _
  rw [Text.mapM_eq_some_iff, List.forall₂_map_left_iff, List.forall₂_map_right_iff,
    List.forall₂_same]
  intro f hf
  rw [filter_eq_singleton hnodup hf]

end Json.Value

open Json (Value)

/-! ### The parts of a level -/

theorem Color.ofJson?_toJson (c : Color) : Color.ofJson? c.toJson = some c := by
  rw [Color.ofJson?, Color.toJson, Value.asName?_ofString, Color.ofKeyword?_keyword]

theorem Heading.ofJson?_toJson (h : Heading) : Heading.ofJson? h.toJson = some h := by
  rw [Heading.ofJson?, Heading.toJson, Value.asName?_ofString, Heading.ofKeyword?_keyword]

theorem Position.ofPair?_toPair {q : Position} (hq : q.InWords) : ofPair? q.toPair = some q := by
  rw [toPair, ofPair?, Value.asInt32?_integer hq.row, Value.asInt32?_integer hq.col]
  rfl

theorem Robot.ofStart?_toStart {r : Robot} (hr : r.position.InWords) :
    ofStart? r.toStart = some r := by
  have hrecord : r.toStart.asRecord? ["row", "col", "direction"] =
      some [some (.integer r.position.row), some (.integer r.position.col),
        some r.heading.toJson] :=
    Value.asRecord?_ofFields rfl (by decide)
  rw [ofStart?, hrecord]
  show (do return (⟨⟨← (Value.integer r.position.row).asInt32?,
    ← (Value.integer r.position.col).asInt32?⟩, ← Heading.ofJson? r.heading.toJson⟩ : Robot)) = _
  rw [Value.asInt32?_integer hr.row, Value.asInt32?_integer hr.col, Heading.ofJson?_toJson]
  rfl

theorem Robot.plain_toStart (r : Robot) : r.toStart.Plain := by
  refine .object fun f hf ↦ ?_
  simp only [List.mem_cons, List.not_mem_nil, or_false] at hf
  rcases hf with rfl | rfl | rfl
  · exact .integer _
  · exact .integer _
  · exact .string _

theorem Position.plain_toPair (q : Position) : q.toPair.Plain :=
  .array (List.forall_mem_cons.2 ⟨.integer q.row, List.forall_mem_singleton.2 (.integer q.col)⟩)

namespace Level

variable {l : Level}

/-- The numbers of a level have a place: its own number and the bounds among the numbers of 64 bits,
the coordinates among the signed numbers of 32 bits. -/
structure InWords (l : Level) : Prop where
  /-- The number of the level is in range, if it has one. -/
  id? : ∀ n ∈ l.id?, n < 2 ^ 64
  /-- The robot starts in range. -/
  robot : l.robot.position.InWords
  /-- The goals are in range. -/
  goals : ∀ q ∈ l.goals, q.InWords
  /-- The bounds are in range. -/
  bounds : ∀ n ∈ l.bounds, n < 2 ^ 64

/-- The document of a level is written without decimal numbers and broken characters. -/
theorem plain_toJson (l : Level) : l.toJson.Plain := by
  refine .object fun f hf ↦ ?_
  simp only [List.mem_cons, List.not_mem_nil, or_false] at hf
  rcases hf with rfl | rfl | rfl | rfl | rfl | rfl | rfl
  · show ((l.id?.map fun n : Nat ↦ Value.integer n).getD .null).Plain
    rcases l.id? with - | n
    · exact .null
    · exact .integer n
  · show ((l.title?.map Value.ofString).getD .null).Plain
    rcases l.title? with - | title
    · exact .null
    · exact .string title
  · exact .array (List.forall_mem_map.2 fun row _ ↦ .string row)
  · exact l.robot.plain_toStart
  · exact .array (List.forall_mem_map.2 fun q _ ↦ q.plain_toPair)
  · exact .array (List.forall_mem_map.2 fun n _ ↦ .integer n)
  · exact .array (List.forall_mem_map.2 fun c _ ↦ .string c.keyword)

theorem ofJson?_toJson (hl : l.InWords) : ofJson? l.toJson = some l := by
  have hrecord : l.toJson.asRecord? fieldNames = some [
      some ((l.id?.map fun n : Nat ↦ Value.integer n).getD .null),
      some ((l.title?.map Value.ofString).getD .null),
      some (.array (l.board.map Value.ofString)), some l.robot.toStart,
      some (.array (l.goals.map Position.toPair)),
      some (.array (l.bounds.map fun n : Nat ↦ Value.integer n)),
      some (.array (l.paints.map Color.toJson))] :=
    Value.asRecord?_ofFields rfl (by decide)
  have hid : ((l.id?.map fun n : Nat ↦ Value.integer n).getD .null).asOptional? Value.asNat64? =
      some l.id? :=
    Value.asOptional?_map (fun n hn ↦ Value.asNat64?_integer (hl.id? n hn)) fun _ _ ↦ nofun
  have htitle : ((l.title?.map Value.ofString).getD .null).asOptional? Value.asText? =
      some l.title? :=
    Value.asOptional?_map (fun title _ ↦ Value.asText?_ofString title) fun _ _ ↦ nofun
  have hboard := Value.asList?_map (l := l.board) fun row _ ↦ Value.asText?_ofString row
  have hgoals := Value.asList?_map fun q hq ↦ Position.ofPair?_toPair (hl.goals q hq)
  have hbounds := Value.asList?_map fun n hn ↦ Value.asNat64?_integer (hl.bounds n hn)
  have hpaints := Value.asList?_map (l := l.paints) fun c _ ↦ Color.ofJson?_toJson c
  simp only [ofJson?, hrecord, Option.getD_some, Option.bind_eq_bind, Option.bind_some, hid, htitle,
    hboard, Robot.ofStart?_toStart hl.robot, hgoals, hbounds, hpaints, Option.pure_def]

/-- **A level is read back from its document**, with all its parts as they were. -/
theorem read?_write (hl : l.InWords) : read? l.write = some l := by
  rw [read?, write, Json.read?_compact l.plain_toJson]
  exact ofJson?_toJson hl

/-- A level of which nothing can be played. Its numbers are the greatest and least there are, and
its texts have a quote, a backslash, a line feed, another control character, and characters beyond
the first 256 and beyond the first 65536. -/
def scribble : Level where
  id? := some 0xFFFF_FFFF_FFFF_FFFF
  title? := some "\x22\\\n\x1f€𝄞"
  board := ["R\x00/", "", "\x7f\x08"]
  robot := ⟨⟨-0x8000_0000, 0x7FFF_FFFF⟩, .west⟩
  goals := [⟨0, -1⟩, ⟨0x7FFF_FFFF, -0x8000_0000⟩]
  bounds := [0, 0xFFFF_FFFF_FFFF_FFFF]
  paints := [.blue, .blue]

theorem read?_write_scribble : scribble.InWords ∧ read? scribble.write = some scribble := by
  have hwords : scribble.InWords :=
    { id? := fun n hn ↦ by
        obtain rfl := Option.some.inj hn
        decide
      robot := ⟨by decide, by decide⟩
      goals := fun q hq ↦ by
        rcases List.mem_pair.1 hq with rfl | rfl
        · exact ⟨by decide, by decide⟩
        · exact ⟨by decide, by decide⟩
      bounds := by decide }
  exact ⟨hwords, read?_write hwords⟩

end Level

end TileRobot
