import Mathlib.Data.List.Basic
import TileRobot.Machine.Run
import TileRobot.Proofs.Program.RoundTrip

/-!
# What the lines of an account say

An account is kept as text. Its reader knows no events: a line is told by how it begins, and a
number or a name stands between fixed words. Here are readers for the three things that the lines
tell about: a change of the board or of the robot (`Change.read?`), the number of goals left
(`goalsLeft?`), and a slot (`TellsSlot`), which is skipped if the line ends so (`TellsSkip`). Each
reader gets from the line of an event what the event is about, and nothing from any other line
(`Change.read?_render`, `goalsLeft?_render`, `tellsSlot_render_iff`), so the lines of an account say
what its events are about (`Trace.filterMap_lines`).

That a reader finds the end of a number rests on the characters of written numbers, which are digits
but for the sign (`Text.notMem_toString`). That the line of a slot ends with `: skipped` only if it
is skipped rests on the one blank of the other lines of slots: neither a written frame nor a written
instruction has one (`not_tellsSkip_render_taken`).
-/

namespace TileRobot

/-! ### Integers -/

namespace Text

/-- The integer that a text writes: digits, after a minus sign if it is negative. -/
def readInteger? (s : List Char) : Option Int :=
  if s.head? = some '-' then (readDigits? s.tail).map fun n : Nat ↦ -(n : Int)
  else (readDigits? s).map fun n : Nat ↦ (n : Int)

theorem toList_toString_natCast (n : Nat) : (toString (n : Int)).toList = digits n :=
  Nat.toList_repr

theorem toList_toString_negSucc (n : Nat) :
    (toString (Int.negSucc n)).toList = '-' :: digits (n + 1) :=
  String.toList_append.trans (congrArg ('-' :: ·) Nat.toList_repr)

/-- **A written integer is read again.** -/
theorem readInteger?_toString (n : Int) : readInteger? (toString n).toList = some n := by
  rcases n with n | n
  · rw [Int.ofNat_eq_natCast, toList_toString_natCast, readInteger?,
      if_neg (head?_digits_ne n '-' (by decide)), readDigits?_digits, Option.map_some]
  · rw [toList_toString_negSucc, readInteger?, List.head?_cons, if_pos rfl, List.tail_cons,
      readDigits?_digits, Option.map_some]
    rfl

/-- The characters of a written integer are digits and the minus sign. -/
theorem notMem_toString {x : Char} (hdigit : x.isDigit = false) (hminus : x ≠ '-') (n : Int) :
    x ∉ (toString n).toList := by
  rcases n with n | n
  · rw [Int.ofNat_eq_natCast, toList_toString_natCast]
    exact notMem_digits hdigit n
  · rw [toList_toString_negSucc, List.mem_cons, not_or]
    exact ⟨hminus, notMem_digits hdigit _⟩

end Text

open Text (strip? cut? cut?_append readDigits? readDigits?_digits readInteger? readInteger?_toString
  digits notMem_digits notMem_toString)

/-! ### Positions and headings -/

namespace Position

/-- The position that a text writes. -/
def read? (s : List Char) : Option Position := do
  let (row, s) ← cut? [',', ' '] (← strip? ['('] s)
  let (col, rest) ← cut? [')'] s
  if rest = [] then some ⟨← readInteger? row, ← readInteger? col⟩ else none

theorem toList_render (p : Position) :
    p.render.toList = '(' :: ((toString p.row).toList ++ [',', ' '] ++
      ((toString p.col).toList ++ [')'] ++ [])) := by
  rw [render]
  simp only [String.toList_append, List.append_nil, List.append_assoc]
  rfl

/-- **A written position is read again.** -/
theorem read?_render (p : Position) : read? p.render.toList = some p := by
  have hrow := cut?_append (List.mem_cons_self : ',' ∈ [',', ' '])
    (notMem_toString (by decide) (by decide) p.row) ((toString p.col).toList ++ [')'] ++ [])
  have hcol := cut?_append (List.mem_singleton_self ')')
    (notMem_toString (by decide) (by decide) p.col) []
  rw [toList_render]
  simp only [read?, strip?, if_true, Option.bind_eq_bind, Option.bind_some, hrow, hcol,
    readInteger?_toString]

end Position

/-- The heading that a text names. -/
def Heading.read? (s : List Char) : Option Heading := Heading.all.find? fun h ↦ h.name.toList == s

theorem Heading.read?_name (h : Heading) : read? h.name.toList = some h := by
  cases h <;> decide

namespace Machine

variable {frame : Frame} {i : Instruction} {p : Position} {c : Color} {h : Heading} {left : Nat}
  {e : Event} {line : String}

/-! ### How lines begin -/

/-- The kinds of lines that are told by the words they begin with. -/
inductive Lead where
  /-- The robot moved. -/
  | moved
  /-- The robot turned. -/
  | facing
  /-- A tile changed its color. -/
  | tile
  /-- A goal was collected. -/
  | collected
  /-- The run ended by the rules. -/
  | outcome
deriving DecidableEq

/-- The words that a line begins with. -/
def Lead.words : Lead → String
  | moved => "  moved to "
  | facing => "  facing "
  | tile => "  tile "
  | collected => "  goal collected, "
  | outcome => "outcome:"

/-- **No line begins in two ways.** -/
@[simp] theorem strip?_words (a b : Lead) (rest : List Char) :
    strip? a.words.toList (b.words.toList ++ rest) = if a = b then some rest else none := by
  cases a <;> cases b <;> rfl

/-- The line of a slot begins in yet another way. -/
@[simp] theorem strip?_words_cons_F (a : Lead) (rest : List Char) :
    strip? a.words.toList ('F' :: rest) = none := by
  cases a <;> rfl

@[simp] theorem Frame.toList_render (f : Frame) :
    f.render.toList =
      'F' :: (digits (routineNumber f.routine) ++ '[' :: digits f.slot ++ [']']) := by
  have hwords : f.render =
      "F" ++ toString (routineNumber f.routine) ++ "[" ++ toString f.slot ++ "]" := rfl
  have hslot : (toString f.slot).toList = digits f.slot := Nat.toList_repr
  rw [hwords, String.toList_append, String.toList_append, String.toList_append, toList_F_append,
    hslot]
  simp only [List.cons_append, List.append_assoc]
  rfl

@[simp] theorem toList_render_taken :
    (Event.taken frame i).render.toList = frame.render.toList ++ ' ' :: i.render.toList := by
  have hwords : (Event.taken frame i).render = frame.render ++ " " ++ i.render := rfl
  rw [hwords, String.toList_append, String.toList_append, List.append_assoc]
  rfl

@[simp] theorem toList_render_skipped : (Event.skipped frame i).render.toList =
    frame.render.toList ++ ' ' :: i.render.toList ++ ": skipped".toList := by
  have hwords : (Event.skipped frame i).render = (Event.taken frame i).render ++ ": skipped" := rfl
  rw [hwords, String.toList_append, toList_render_taken]

@[simp] theorem toList_render_painted : (Event.painted p c).render.toList =
    Lead.tile.words.toList ++ (p.render.toList ++ " -> ".toList ++ c.render.toList) := by
  have hwords : (Event.painted p c).render =
    Lead.tile.words ++ p.render ++ " -> " ++ c.render := rfl
  rw [hwords, String.toList_append, String.toList_append, String.toList_append, List.append_assoc,
    List.append_assoc, List.append_assoc]

@[simp] theorem toList_render_faced :
    (Event.faced h).render.toList = Lead.facing.words.toList ++ h.name.toList :=
  String.toList_append

@[simp] theorem toList_render_moved :
    (Event.moved p).render.toList = Lead.moved.words.toList ++ p.render.toList :=
  String.toList_append

@[simp] theorem toList_render_collected : (Event.collected left).render.toList =
    Lead.collected.words.toList ++ (digits left ++ " left".toList ++ []) := by
  have hwords : (Event.collected left).render =
    Lead.collected.words ++ toString left ++ " left" := rfl
  have hleft : (toString left).toList = digits left := Nat.toList_repr
  rw [hwords, String.toList_append, String.toList_append, hleft, List.append_nil,
    List.append_assoc]

/-! ### Changes -/

/-- A change of the board or of the robot. -/
inductive Change where
  /-- The robot is at a position. -/
  | position (p : Position)
  /-- The robot faces in a heading. -/
  | heading (h : Heading)
  /-- The tile at a position has a color. -/
  | tile (p : Position) (c : Color)

/-- The change that an event is about. -/
def Event.change? : Event → Option Change
  | skipped _ _ => none
  | taken _ _ => none
  | painted p c => some (.tile p c)
  | faced h => some (.heading h)
  | moved p => some (.position p)
  | collected _ => none

namespace Change

/-- The change of a tile that a text writes. -/
def readTile? (s : List Char) : Option Change := do
  let (place, rest) ← cut? " -> ".toList s
  let letter ← rest.head?
  if rest.tail = [] then some (.tile (← Position.read? place) (← Color.ofLetter? letter)) else none

theorem readTile?_render (p : Position) (c : Color) :
    readTile? (p.render.toList ++ " -> ".toList ++ c.render.toList) = some (.tile p c) := by
  have hplace : '>' ∉ p.render.toList := by
    have hrow : '>' ∉ (toString p.row).toList := notMem_toString (by decide) (by decide) _
    have hcol : '>' ∉ (toString p.col).toList := notMem_toString (by decide) (by decide) _
    rw [Position.toList_render]
    simp only [List.mem_cons, List.mem_append, List.not_mem_nil, or_false, not_or]
    exact ⟨by decide, ⟨hrow, by decide⟩, hcol, by decide⟩
  have hcut := cut?_append (by decide : '>' ∈ " -> ".toList) hplace c.render.toList
  rw [readTile?, hcut, c.toList_render]
  simp [Position.read?_render]

/-- The change that a line tells of. -/
def read? (line : String) : Option Change :=
  match strip? Lead.moved.words.toList line.toList with
  | some place => (Position.read? place).map position
  | none =>
    match strip? Lead.facing.words.toList line.toList with
    | some name => (Heading.read? name).map heading
    | none => (strip? Lead.tile.words.toList line.toList).bind readTile?

/-- **A line tells of the change that its event is about.** -/
theorem read?_render (e : Event) : read? e.render = e.change? := by
  cases e with
  | painted p c =>
    simp only [read?, toList_render_painted, strip?_words, reduceCtorEq, if_false, if_true,
      Option.bind_some, readTile?_render, Event.change?]
  | faced h => simp [read?, Heading.read?_name, Event.change?]
  | moved p => simp [read?, Position.read?_render, Event.change?]
  | _ => simp [read?, Event.change?]

end Change

/-! ### Goals -/

/-- The number of goals left of which an event tells. -/
def Event.left? : Event → Option Nat
  | skipped _ _ => none
  | taken _ _ => none
  | painted _ _ => none
  | faced _ => none
  | moved _ => none
  | collected left => some left

/-- The number of goals left of which a line tells. -/
def goalsLeft? (line : String) : Option Nat := do
  let (number, rest) ← cut? " left".toList (← strip? Lead.collected.words.toList line.toList)
  if rest = [] then readDigits? number else none

/-- **A line tells of the number of goals left if its event does.** -/
theorem goalsLeft?_render (e : Event) : goalsLeft? e.render = e.left? := by
  cases e with
  | collected left =>
    have hcut := cut?_append (by decide : 'l' ∈ " left".toList) (notMem_digits (by decide) left) []
    rw [goalsLeft?, toList_render_collected, strip?_words, if_pos rfl]
    simp only [Option.bind_eq_bind, Option.bind_some, hcut, if_true, readDigits?_digits,
      Event.left?]
  | _ => simp [goalsLeft?, Event.left?]

/-! ### Slots -/

/-- The event is about a slot. -/
def Event.isVisit : Event → Bool
  | skipped _ _ => true
  | taken _ _ => true
  | painted _ _ => false
  | faced _ => false
  | moved _ => false
  | collected _ => false

/-- A line tells of a slot if it begins with the name of a frame. -/
def TellsSlot (line : String) : Prop := line.toList.head? = some 'F'

instance (line : String) : Decidable (TellsSlot line) :=
  inferInstanceAs (Decidable (line.toList.head? = some 'F'))

/-- A line tells that a slot is skipped if it ends so. -/
def TellsSkip (line : String) : Prop := ": skipped".toList <:+ line.toList

/-- **A line tells of a slot exactly if its event does.** -/
theorem tellsSlot_render_iff : TellsSlot e.render ↔ e.isVisit = true := by
  cases e <;> simp [TellsSlot, Lead.words, Event.isVisit]

theorem blank_notMem_render_frame (f : Frame) : ' ' ∉ f.render.toList := by
  have hroutine : ' ' ∉ digits (routineNumber f.routine) := notMem_digits (by decide) _
  have hslot : ' ' ∉ digits f.slot := notMem_digits (by decide) _
  rw [Frame.toList_render]
  simp only [List.mem_cons, List.mem_append, List.not_mem_nil, or_false, not_or]
  exact ⟨by decide, ⟨hroutine, by decide, hslot⟩, by decide⟩

theorem blank_notMem_render_instruction (i : Instruction) : ' ' ∉ i.render.toList := fun hmem ↦
  absurd (i.forall_isMark_render _ hmem) (by decide)

/-- **The line of a slot that is taken up does not end as if it were skipped.** -/
theorem not_tellsSkip_render_taken : ¬ TellsSkip (Event.taken frame i).render := by
  intro hskip
  obtain ⟨before, hbefore⟩ := hskip
  have hwords : ": skipped".toList = ':' :: ' ' :: "skipped".toList := rfl
  rw [toList_render_taken, hwords, List.append_cons before] at hbefore
  -- the line has one blank, so a colon would be the end of the name of the frame
  obtain ⟨hframe, -⟩ := (List.append_cons_inj_of_notMem (blank_notMem_render_frame frame)
    (blank_notMem_render_instruction i)).1 hbefore.symm
  have hlast := congrArg List.getLast? hframe
  rw [Frame.toList_render, ← List.cons_append, List.getLast?_concat, List.getLast?_concat] at hlast
  exact absurd hlast (by decide)

theorem tellsSkip_render_skipped : TellsSkip (Event.skipped frame i).render := by
  rw [TellsSkip, toList_render_skipped]
  exact List.suffix_append _ _

/-! ### Outcomes -/

/-- A line tells of an outcome. -/
def TellsOutcome (line : String) : Prop := Lead.outcome.words.toList <+: line.toList

/-- The line of an event tells of no outcome. -/
theorem not_tellsOutcome_render (e : Event) : ¬ TellsOutcome e.render := by
  rw [TellsOutcome, ← Text.strip?_eq_none_iff]
  cases e <;> simp

theorem toList_outcome (o : Outcome) :
    s!"outcome: {o.name}".toList = Lead.outcome.words.toList ++ ' ' :: o.name.toList := by
  cases o <;> rfl

theorem tellsOutcome_outcome (o : Outcome) : TellsOutcome s!"outcome: {o.name}" :=
  ⟨_, (toList_outcome o).symm⟩

/-! ### Whole accounts -/

/-- What a reader gets from the lines of an account is what it gets from those of the events, if it
gets nothing from the line of an outcome. -/
theorem Trace.filterMap_lines {α : Type} {read? : String → Option α} {f : Event → Option α}
    (hevent : ∀ e, read? e.render = f e)
    (houtcome : ∀ o : Outcome, read? s!"outcome: {o.name}" = none) (t : Trace) :
    t.lines.filterMap read? = t.events.filterMap f := by
  have hending : t.halt.ending.lines.filterMap read? = [] := by
    rcases t.halt.ending with o | fault
    · rw [Ending.lines, List.filterMap_cons, houtcome]
      rfl
    · rfl
  rw [Trace.lines, List.filterMap_append, List.filterMap_map, hending, List.append_nil]
  exact congrArg (List.filterMap · t.events) (funext hevent)

theorem Change.read?_outcome (o : Outcome) : Change.read? s!"outcome: {o.name}" = none := by
  simp only [read?, toList_outcome, strip?_words, reduceCtorEq, if_false, Option.bind_none]

theorem goalsLeft?_outcome (o : Outcome) : goalsLeft? s!"outcome: {o.name}" = none := by
  simp only [goalsLeft?, toList_outcome, strip?_words, reduceCtorEq, if_false, Option.bind_eq_bind,
    Option.bind_none]

theorem not_tellsSlot_outcome (o : Outcome) : ¬ TellsSlot s!"outcome: {o.name}" := by
  cases o <;> decide

theorem Trace.filterMap_change (t : Trace) :
    t.lines.filterMap Change.read? = t.events.filterMap Event.change? :=
  t.filterMap_lines Change.read?_render Change.read?_outcome

theorem Trace.filterMap_left (t : Trace) :
    t.lines.filterMap goalsLeft? = t.events.filterMap Event.left? :=
  t.filterMap_lines goalsLeft?_render goalsLeft?_outcome

theorem Trace.filter_slot (t : Trace) :
    t.lines.filter (TellsSlot ·) = (t.events.filter Event.isVisit).map Event.render := by
  have hending : t.halt.ending.lines.filter (TellsSlot ·) = [] := by
    rcases t.halt.ending with o | fault
    · exact List.filter_cons_of_neg (by simpa using not_tellsSlot_outcome o)
    · rfl
  rw [Trace.lines, List.filter_append, List.filter_map, hending, List.append_nil]
  refine congrArg (List.map Event.render) (List.filter_congr fun e _ ↦ ?_)
  rw [Function.comp_apply, Bool.eq_iff_iff, decide_eq_true_eq]
  exact tellsSlot_render_iff

theorem Trace.lines_of_finished {t : Trace} {o : Outcome} (ho : t.halt.ending = .finished o) :
    t.lines = t.events.map Event.render ++ [s!"outcome: {o.name}"] := by
  rw [Trace.lines, ho]
  rfl

theorem Trace.not_tellsOutcome {t : Trace} (hline : line ∈ t.events.map Event.render) :
    ¬ TellsOutcome line := by
  obtain ⟨e, -, rfl⟩ := List.mem_map.1 hline
  exact not_tellsOutcome_render e

/-- **There is a line for an outcome exactly if the run ended by the rules.** -/
theorem Trace.exists_outcome_iff {t : Trace} :
    (∃ line ∈ t.lines, TellsOutcome line) ↔ ∃ o, t.halt.ending = .finished o := by
  constructor
  · intro houtcome
    obtain ⟨line, hline, htells⟩ := houtcome
    rcases hending : t.halt.ending with o | fault
    · exact ⟨o, rfl⟩
    · rw [Trace.lines, hending, Ending.lines, List.append_nil] at hline
      exact absurd htells (not_tellsOutcome hline)
  · intro hfinished
    obtain ⟨o, ho⟩ := hfinished
    rw [lines_of_finished ho]
    exact ⟨_, List.mem_append_right _ (List.mem_singleton_self _), tellsOutcome_outcome o⟩

end Machine

end TileRobot
