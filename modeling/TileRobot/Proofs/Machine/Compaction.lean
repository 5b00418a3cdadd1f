import TileRobot.Proofs.Machine.CallReturn
import TileRobot.Proofs.Machine.Divergence
import TileRobot.Proofs.Program.Compact

/-!
# Running a program without its empty slots

An empty slot does nothing, so a program and its compacted form come to the same end by the rules
(`denotes_compact_iff`). The watch for loops is another matter, because it looks at frames and
compacting renumbers them. Still, a repetition of the compacted program is one of the program itself
(`exists_repetition_of_compact`), and so compacting can do away with a report of a loop, but cannot
bring one about. Every other answer stays, and takes no more steps to give (`run_compact_of_run`).

A configuration of the program has an image among those of its compacted form: each frame moves to
where the next filled slot went, and disappears if there is none (`compactFrame`). The program
follows its compacted form step by step, once it has passed the empty slots at which its image
stands still.
-/

namespace TileRobot.Machine

variable {p : Program} {c d : Config} {s : Scene} {h : Halt} {i j n : Nat}

/-! ### The same ends -/

section Rules

variable {r : Routine} {u : Upshot}

theorem evaluates_replicate_none (he : Evaluates p r s u) (n : Nat) :
    Evaluates p (List.replicate n none ++ r) s u := by
  induction n with
  | zero => exact he
  | succ n ih => exact .empty ih

theorem getElem?_routines_compact_eq_some {target : Nat} {body : Routine}
    (hcalled : p.routines[target]? = some body) :
    p.compact.routines[target]? = some body.compact := by
  rw [p.getElem?_routines_compact, hcalled, Option.map_some]

theorem exists_of_routines_compact_eq_some {target : Nat} {body : Routine}
    (hcalled : p.compact.routines[target]? = some body) :
    ∃ body', p.routines[target]? = some body' ∧ body'.compact = body := by
  rw [p.getElem?_routines_compact] at hcalled
  exact Option.map_eq_some_iff.1 hcalled

theorem routines_compact_eq_none_iff {target : Nat} :
    p.compact.routines[target]? = none ↔ p.routines[target]? = none := by
  rw [p.getElem?_routines_compact, Option.map_eq_none_iff]

theorem Evaluates.compact (he : Evaluates p r s u) : Evaluates p.compact r.compact s u := by
  induction he with
  | nil => exact .nil
  | empty rest ih => exact ih
  | skipped guard rest ih => exact .skipped guard ih
  | left guard operation rest ih => exact .left guard operation ih
  | right guard operation rest ih => exact .right guard operation ih
  | paint guard operation rest ih => exact .paint guard operation ih
  | blocked guard operation ahead => exact .blocked guard operation ahead
  | arrived guard operation ahead goals => exact .arrived guard operation ahead goals
  | moved guard operation ahead goals rest ih => exact .moved guard operation ahead goals ih
  | undeclared guard operation missing =>
    rw [← p.size_compact]
    exact .undeclared guard operation (routines_compact_eq_none_iff.2 missing)
  | stopped guard operation called inner ih =>
    exact .stopped guard operation (getElem?_routines_compact_eq_some called) ih
  | returned guard operation called inner rest ih ihrest =>
    exact .returned guard operation (getElem?_routines_compact_eq_some called) ih ihrest

theorem evaluates_of_compact {t : Routine} (he : Evaluates p.compact t s u) (ht : r.compact = t) :
    Evaluates p r s u := by
  induction he generalizing r with
  | nil =>
    -- only empty slots are left
    have hr : r = List.replicate r.length none := List.eq_replicate_iff.2 ⟨rfl, fun slot hslot ↦ by
      rcases slot with - | i
      · rfl
      · have hmem : i ∈ r.instructions := Routine.mem_instructions.2 hslot
        rw [← Routine.instructions_compact, ht] at hmem
        contradiction⟩
    rw [hr, ← List.append_nil (List.replicate _ _)]
    exact evaluates_replicate_none .nil _
  | empty rest ih =>
    have hmem : none ∈ r.compact := ht ▸ List.mem_cons_self
    obtain ⟨i, -, hi⟩ := List.mem_map.1 hmem
    contradiction
  | skipped guard rest ih =>
    obtain ⟨n, r, rfl, hr⟩ := Routine.exists_of_compact_eq_cons ht
    exact evaluates_replicate_none (.skipped guard (ih hr)) n
  | left guard operation rest ih =>
    obtain ⟨n, r, rfl, hr⟩ := Routine.exists_of_compact_eq_cons ht
    exact evaluates_replicate_none (.left guard operation (ih hr)) n
  | right guard operation rest ih =>
    obtain ⟨n, r, rfl, hr⟩ := Routine.exists_of_compact_eq_cons ht
    exact evaluates_replicate_none (.right guard operation (ih hr)) n
  | paint guard operation rest ih =>
    obtain ⟨n, r, rfl, hr⟩ := Routine.exists_of_compact_eq_cons ht
    exact evaluates_replicate_none (.paint guard operation (ih hr)) n
  | blocked guard operation ahead =>
    obtain ⟨n, r, rfl, -⟩ := Routine.exists_of_compact_eq_cons ht
    exact evaluates_replicate_none (.blocked guard operation ahead) n
  | arrived guard operation ahead goals =>
    obtain ⟨n, r, rfl, -⟩ := Routine.exists_of_compact_eq_cons ht
    exact evaluates_replicate_none (.arrived guard operation ahead goals) n
  | moved guard operation ahead goals rest ih =>
    obtain ⟨n, r, rfl, hr⟩ := Routine.exists_of_compact_eq_cons ht
    exact evaluates_replicate_none (.moved guard operation ahead goals (ih hr)) n
  | undeclared guard operation missing =>
    obtain ⟨n, r, rfl, -⟩ := Routine.exists_of_compact_eq_cons ht
    rw [p.size_compact]
    exact evaluates_replicate_none
      (.undeclared guard operation (routines_compact_eq_none_iff.1 missing)) n
  | stopped guard operation called inner ih =>
    obtain ⟨n, r, rfl, -⟩ := Routine.exists_of_compact_eq_cons ht
    obtain ⟨body, hbody, hcompact⟩ := exists_of_routines_compact_eq_some called
    exact evaluates_replicate_none (.stopped guard operation hbody (ih hcompact)) n
  | returned guard operation called inner rest ih ihrest =>
    obtain ⟨n, r, rfl, hr⟩ := Routine.exists_of_compact_eq_cons ht
    obtain ⟨body, hbody, hcompact⟩ := exists_of_routines_compact_eq_some called
    exact evaluates_replicate_none (.returned guard operation hbody (ih hcompact) (ihrest hr)) n

end Rules

/-- **A program and its compacted form come to the same end by the rules.** -/
theorem denotes_compact_iff : Denotes p.compact s h ↔ Denotes p s h := by
  constructor
  · rintro (hg | ⟨hg, hmissing⟩ | ⟨hg, hmain, hinner⟩ | ⟨hg, hmain, hinner⟩)
    · exact .solved hg
    · rw [p.size_compact]
      exact .undeclared hg (routines_compact_eq_none_iff.1 hmissing)
    · obtain ⟨body, hbody, hcompact⟩ := exists_of_routines_compact_eq_some hmain
      exact .stopped hg hbody (evaluates_of_compact hinner hcompact)
    · obtain ⟨body, hbody, hcompact⟩ := exists_of_routines_compact_eq_some hmain
      exact .exhausted hg hbody (evaluates_of_compact hinner hcompact)
  · rintro (hg | ⟨hg, hmissing⟩ | ⟨hg, hmain, hinner⟩ | ⟨hg, hmain, hinner⟩)
    · exact .solved hg
    · rw [← p.size_compact]
      exact .undeclared hg (routines_compact_eq_none_iff.2 hmissing)
    · exact .stopped hg (getElem?_routines_compact_eq_some hmain) hinner.compact
    · exact .exhausted hg (getElem?_routines_compact_eq_some hmain) hinner.compact

theorem halts_start_compact_iff :
    Halts p.compact (Config.start s) h ↔ Halts p (Config.start s) h := by
  rw [halts_start_iff, halts_start_iff, denotes_compact_iff]

/-! ### Images of configurations -/

/-- What becomes of a frame: it moves to where the next filled slot went, and disappears if there is
none. The first frame of a routine stays even then, for a routine without slots is entered, too. -/
def compactFrame (p : Program) (frame : Frame) : List Frame :=
  match p.routines[frame.routine]? with
  | none => [frame]
  | some r =>
    if frame.slot = 0 ∨ r.filled frame.slot < r.instructions.length then
      [⟨frame.routine, r.filled frame.slot⟩]
    else []

/-- The image of a configuration among those of the compacted program. -/
def Config.compact (p : Program) (c : Config) : Config :=
  ⟨c.scene, c.stack.flatMap (compactFrame p)⟩

/-- The image stands still at a frame: its slot is empty, and it is not the first one of a routine
that has no filled slot. -/
def Frame.Idle (p : Program) (frame : Frame) : Prop :=
  ∃ r, p.routines[frame.routine]? = some r ∧ r.instruction? frame.slot = none ∧
    (frame.slot ≠ 0 ∨ r.instructions ≠ [])

/-- The image does not stand still at the top frame. -/
def Settled (p : Program) (c : Config) : Prop :=
  ∀ frame below, c.stack = frame :: below → ¬ frame.Idle p

section Frames

variable {frame frame' : Frame} {below : List Frame} {r : Routine} {f k l : Nat}

theorem compactFrame_of_some (hr : p.routines[f]? = some r) (k : Nat) :
    compactFrame p ⟨f, k⟩ =
      if k = 0 ∨ r.filled k < r.instructions.length then [⟨f, r.filled k⟩] else [] := by
  simp only [compactFrame, hr]

@[simp] theorem compactFrame_zero (p : Program) (f : Nat) : compactFrame p ⟨f, 0⟩ = [⟨f, 0⟩] := by
  rcases hr : p.routines[f]? with - | r
  · simp only [compactFrame, hr]
  · rw [compactFrame_of_some hr, if_pos (Or.inl rfl), Routine.filled_zero]

/-- The frames that are left after a frame, as the compacted program has them. -/
theorem flatMap_resume (hr : p.routines[f]? = some r) :
    (resume r.length ⟨f, k⟩ below).flatMap (compactFrame p) =
      pending r.compact.length f (r.filled (k + 1)) (below.flatMap (compactFrame p)) := by
  rw [pending, Routine.length_compact]
  simp only [resume]
  split
  · simp only [List.flatMap_cons, compactFrame_of_some hr, Nat.add_one_ne_zero, false_or]
    split <;> rfl
  · rename_i hlast
    rw [Routine.filled_of_length_le (Nat.le_of_not_lt hlast), if_neg (Nat.lt_irrefl _)]

/-- A filled slot is passed on both sides. -/
theorem flatMap_resume_of_filled {i : Instruction} (hr : p.routines[f]? = some r)
    (hi : r.instruction? k = some i) :
    (resume r.length ⟨f, k⟩ below).flatMap (compactFrame p) =
      resume r.compact.length ⟨f, r.filled k⟩ (below.flatMap (compactFrame p)) := by
  rw [flatMap_resume hr, Routine.filled_succ_of_eq_some hi]
  rfl

/-- A routine without filled slots is left on both sides. -/
theorem flatMap_resume_of_instructions_eq_nil (hr : p.routines[f]? = some r)
    (hempty : r.instructions = []) :
    (resume r.length ⟨f, k⟩ below).flatMap (compactFrame p) =
      resume r.compact.length ⟨f, l⟩ (below.flatMap (compactFrame p)) := by
  rw [flatMap_resume hr, pending, resume, Routine.length_compact, hempty, List.length_nil,
    if_neg (Nat.not_lt_zero _), if_neg (Nat.not_lt_zero _)]

/-- At an empty slot the image stands still. -/
theorem flatMap_resume_of_idle (hr : p.routines[f]? = some r) (hi : r.instruction? k = none)
    (hne : k ≠ 0 ∨ r.instructions ≠ []) :
    (resume r.length ⟨f, k⟩ below).flatMap (compactFrame p) =
      (⟨f, k⟩ :: below : List Frame).flatMap (compactFrame p) := by
  have hiff : k = 0 ∨ r.filled k < r.instructions.length ↔
      r.filled k < r.instructions.length := by
    rcases hne with hk | hinstructions
    · exact or_iff_right hk
    · refine or_iff_right_of_imp fun hk ↦ ?_
      rw [hk, Routine.filled_zero]
      exact List.length_pos_iff.2 hinstructions
  rw [flatMap_resume hr, Routine.filled_succ_of_eq_none hi, List.flatMap_cons,
    compactFrame_of_some hr, pending, Routine.length_compact]
  by_cases hlt : r.filled k < r.instructions.length
  · rw [if_pos hlt, if_pos (hiff.2 hlt)]
    rfl
  · rw [if_neg hlt, if_neg (mt hiff.1 hlt)]
    rfl

/-- A frame at which the image does not stand still is at a filled slot or at the first slot of a
routine that has none. -/
theorem slot_of_not_idle (hr : p.routines[f]? = some r) (hidle : ¬ Frame.Idle p ⟨f, k⟩) :
    (∃ i, r.instruction? k = some i) ∨ k = 0 ∧ r.instructions = [] := by
  rcases hi : r.instruction? k with - | i
  · right
    by_contra hne
    refine hidle ⟨r, hr, hi, ?_⟩
    by_cases hk : k = 0
    · exact Or.inr fun hempty ↦ hne ⟨hk, hempty⟩
    · exact Or.inl hk
  · exact Or.inl ⟨i, rfl⟩

theorem compactFrame_of_not_idle (hr : p.routines[f]? = some r)
    (hidle : ¬ Frame.Idle p ⟨f, k⟩) : compactFrame p ⟨f, k⟩ = [⟨f, r.filled k⟩] := by
  rw [compactFrame_of_some hr, if_pos]
  rcases slot_of_not_idle hr hidle with ⟨i, hi⟩ | ⟨hk, -⟩
  · exact Or.inr (Routine.filled_lt_length hi)
  · exact Or.inl hk

/-- The image of such a frame is a frame of the same routine. -/
theorem exists_compactFrame_eq (hidle : ¬ Frame.Idle p ⟨f, k⟩) :
    ∃ l, compactFrame p ⟨f, k⟩ = [⟨f, l⟩] := by
  rcases hr : p.routines[f]? with - | r
  · exact ⟨k, by simp only [compactFrame, hr]⟩
  · exact ⟨_, compactFrame_of_not_idle hr hidle⟩

/-- In one routine, the image of such a frame tells which slot it is at. -/
theorem slot_eq_of_filled_eq (hr : p.routines[f]? = some r) (hk : ¬ Frame.Idle p ⟨f, k⟩)
    (hl : ¬ Frame.Idle p ⟨f, l⟩) (heq : r.filled k = r.filled l) : k = l := by
  rcases slot_of_not_idle hr hk with ⟨i, hi⟩ | ⟨rfl, hempty⟩
  · rcases slot_of_not_idle hr hl with ⟨j, hj⟩ | ⟨-, hempty⟩
    · exact Routine.eq_of_filled_eq hi hj heq
    · have hlt := Routine.filled_lt_length hi
      rw [hempty] at hlt
      exact absurd hlt (Nat.not_lt_zero _)
  · rcases slot_of_not_idle hr hl with ⟨j, hj⟩ | ⟨rfl, -⟩
    · have hlt := Routine.filled_lt_length hj
      rw [hempty] at hlt
      exact absurd hlt (Nat.not_lt_zero _)
    · rfl

/-- **The image of such a frame tells which frame it is.** -/
theorem eq_of_compactFrame_eq (hidle : ¬ frame.Idle p) (hidle' : ¬ frame'.Idle p)
    (heq : compactFrame p frame = compactFrame p frame') : frame = frame' := by
  obtain ⟨f, k⟩ := frame
  obtain ⟨g, l⟩ := frame'
  obtain ⟨m, hm⟩ := exists_compactFrame_eq hidle
  obtain ⟨n, hn⟩ := exists_compactFrame_eq hidle'
  have hfirst : (⟨f, m⟩ : Frame) = ⟨g, n⟩ := List.head_eq_of_cons_eq (hm.symm.trans (heq.trans hn))
  obtain rfl : f = g := congrArg Frame.routine hfirst
  rcases hr : p.routines[f]? with - | r
  · simp only [compactFrame, hr] at heq
    exact List.head_eq_of_cons_eq heq
  · rw [compactFrame_of_not_idle hr hidle, compactFrame_of_not_idle hr hidle'] at heq
    have hfilled : r.filled k = r.filled l := congrArg Frame.slot (List.head_eq_of_cons_eq heq)
    exact congrArg (Frame.mk f) (slot_eq_of_filled_eq hr hidle hidle' hfilled)

end Frames

/-! ### Following the compacted program -/

/-- A number that gets less at every step without a call. -/
def slack (p : Program) : List Frame → Nat
  | [] => 0
  | frame :: below =>
    ((p.routines[frame.routine]?).getD []).length - frame.slot + 1 + slack p below

theorem slack_resume_lt {f k : Nat} {r : Routine} {below : List Frame}
    (hr : p.routines[f]? = some r) :
    slack p (resume r.length ⟨f, k⟩ below) < slack p (⟨f, k⟩ :: below) := by
  simp only [resume]
  split
  · simp only [slack, hr, Option.getD_some]
    omega
  · simp only [slack]
    omega

/-- The program gets past the empty slots at which its image stands still. -/
theorem exists_settled (hg : c.scene.goals.isEmpty = false) :
    ∃ n d, after? p c n = some d ∧ Quiet p c 0 n ∧ Settled p d ∧ d.compact p = c.compact p := by
  induction hslack : slack p c.stack using Nat.strong_induction_on generalizing c with
  | _ k ih =>
    by_cases hc : Settled p c
    · exact ⟨0, c, rfl, quiet_self p c 0, hc, rfl⟩
    · obtain ⟨⟨f, slot⟩, below, hstack, r, hr, hi, hne⟩ :
          ∃ frame below, c.stack = frame :: below ∧ frame.Idle p := by
        by_contra hnone
        exact hc fun frame below hstack hidle ↦ hnone ⟨frame, below, hstack, hidle⟩
      obtain ⟨s, stack⟩ := c
      obtain rfl : stack = ⟨f, slot⟩ :: below := hstack
      have hgoes : Goes p ⟨s, ⟨f, slot⟩ :: below⟩ false ⟨s, resume r.length ⟨f, slot⟩ below⟩ :=
        .of_eq_none hr hi
      obtain ⟨hnext, hrepainted⟩ := goes_iff.2 ⟨hg, hgoes⟩
      obtain ⟨n, d, hd, hquiet, hsettled, himage⟩ :=
        ih _ (hslack ▸ slack_resume_lt hr) (c := ⟨s, resume r.length ⟨f, slot⟩ below⟩) hg rfl
      refine ⟨1 + n, d, after?_trans hnext hd, ?_, hsettled, ?_⟩
      · have hfirst : Quiet p ⟨s, ⟨f, slot⟩ :: below⟩ 0 1 :=
          (quiet_succ_iff le_rfl rfl).2 ⟨quiet_self p _ 0, hrepainted⟩
        exact hfirst.trans ((quiet_add_iff (m := 1) (i := 0) hnext).2 hquiet)
      · show d.compact p = ⟨s, (⟨f, slot⟩ :: below : List Frame).flatMap (compactFrame p)⟩
        rw [himage, ← flatMap_resume_of_idle hr hi hne]
        rfl

theorem Acts.flatMap_pushed {declared : Nat} {t : Scene} {o : Operation} {b : Bool}
    {pushed : List Frame} (ha : Acts declared s o b t pushed) :
    pushed.flatMap (compactFrame p) = pushed := by
  rcases ha with - | - | - | - | -
  case call => rw [List.flatMap_singleton, compactFrame_zero]
  all_goals rfl

section Follow

variable {f k l : Nat} {r : Routine} {below : List Frame} {b : Bool} {d' : Config}

/-- At a filled slot the program makes the step of its compacted form. -/
theorem exists_goes_of_filled {i : Instruction} (hr : p.routines[f]? = some r)
    (hi : r.instruction? k = some i)
    (hgoes : Goes p.compact ⟨s, ⟨f, r.filled k⟩ :: below.flatMap (compactFrame p)⟩ b d') :
    ∃ d, Goes p ⟨s, ⟨f, k⟩ :: below⟩ b d ∧ d.compact p = d' := by
  have hr' := getElem?_routines_compact_eq_some hr
  have hi' := Routine.instruction?_compact_filled hi
  rcases hgoes with ⟨htop, hidle⟩ | ⟨htop, hfilled, hguard, hacts⟩
  · obtain rfl := Option.some.inj (hr'.symm.trans htop)
    refine ⟨⟨s, resume r.length ⟨f, k⟩ below⟩, .passed hr fun j hj ↦ ?_, ?_⟩
    · obtain rfl : i = j := Option.some.inj (hi.symm.trans hj)
      exact hidle i hi'
    · show (⟨s, (resume r.length ⟨f, k⟩ below).flatMap (compactFrame p)⟩ : Config) = _
      rw [flatMap_resume_of_filled hr hi]
  · rename_i t pushed _ _
    obtain rfl := Option.some.inj (hr'.symm.trans htop)
    obtain rfl := Option.some.inj (hi'.symm.trans hfilled)
    rw [p.size_compact] at hacts
    refine ⟨⟨t, pushed ++ resume r.length ⟨f, k⟩ below⟩, .acted hr hi hguard hacts, ?_⟩
    show (⟨t, (pushed ++ resume r.length ⟨f, k⟩ below).flatMap (compactFrame p)⟩ : Config) = _
    rw [List.flatMap_append, hacts.flatMap_pushed, flatMap_resume_of_filled hr hi]

/-- A routine without filled slots is left by both. -/
theorem exists_goes_of_instructions_eq_nil (hr : p.routines[f]? = some r)
    (hempty : r.instructions = [])
    (hgoes : Goes p.compact ⟨s, ⟨f, l⟩ :: below.flatMap (compactFrame p)⟩ b d') :
    ∃ d, Goes p ⟨s, ⟨f, k⟩ :: below⟩ b d ∧ d.compact p = d' := by
  have hr' := getElem?_routines_compact_eq_some hr
  have hnone : ∀ {t : Routine} {m : Nat} {i : Instruction}, t.instructions = [] →
      t.instruction? m ≠ some i := by
    intro t m i ht hi
    have hlt := Routine.filled_lt_length hi
    rw [ht] at hlt
    exact Nat.not_lt_zero _ hlt
  rcases hgoes with ⟨htop, -⟩ | ⟨htop, hfilled, -, -⟩
  · obtain rfl := Option.some.inj (hr'.symm.trans htop)
    refine ⟨⟨s, resume r.length ⟨f, k⟩ below⟩, .passed hr fun j hj ↦ ?_, ?_⟩
    · exact absurd hj (hnone hempty)
    · show (⟨s, (resume r.length ⟨f, k⟩ below).flatMap (compactFrame p)⟩ : Config) = _
      rw [flatMap_resume_of_instructions_eq_nil hr hempty]
  · obtain rfl := Option.some.inj (hr'.symm.trans htop)
    exact absurd hfilled (hnone ((Routine.instructions_compact r).trans hempty))

/-- **The program follows its compacted form**: a step of the image of a settled configuration is
the image of a step. -/
theorem exists_goes_of_settled (hc : Settled p c) (hgoes : Goes p.compact (c.compact p) b d') :
    ∃ d, Goes p c b d ∧ d.compact p = d' := by
  obtain ⟨s, stack⟩ := c
  rcases stack with - | ⟨⟨f, k⟩, below⟩
  · generalize himage : Config.compact p ⟨s, []⟩ = c' at hgoes
    rcases hgoes with - | - <;>
      exact absurd (congrArg Config.stack himage) (List.cons_ne_nil _ _).symm
  · have hidle := hc _ _ rfl
    have hstack : ∀ g, compactFrame p ⟨f, k⟩ = [g] → Config.compact p ⟨s, ⟨f, k⟩ :: below⟩ =
        ⟨s, g :: below.flatMap (compactFrame p)⟩ := by
      intro g hg
      show (⟨s, (⟨f, k⟩ :: below : List Frame).flatMap (compactFrame p)⟩ : Config) = _
      rw [List.flatMap_cons, hg, List.singleton_append]
    rcases hr : p.routines[f]? with - | r
    · have himage := hstack ⟨f, k⟩ (by simp only [compactFrame, hr])
      rw [himage] at hgoes
      -- without the routine no step is made
      rcases hgoes with ⟨htop, -⟩ | ⟨htop, -, -, -⟩ <;>
        exact absurd ((routines_compact_eq_none_iff.2 hr).symm.trans htop)
          (Option.some_ne_none _).symm
    · rw [hstack _ (compactFrame_of_not_idle hr hidle)] at hgoes
      rcases slot_of_not_idle hr hidle with ⟨i, hi⟩ | ⟨-, hempty⟩
      · exact exists_goes_of_filled hr hi hgoes
      · exact exists_goes_of_instructions_eq_nil hr hempty hgoes

end Follow

/-- A path of the image is the image of a path, as long at least and as quiet. -/
theorem exists_after?_of_compact {d' : Config} (hc : Settled p c)
    (hn : after? p.compact (c.compact p) n = some d') :
    ∃ m d, n ≤ m ∧ after? p c m = some d ∧ Settled p d ∧ d.compact p = d' ∧
      (Quiet p.compact (c.compact p) 0 n → Quiet p c 0 m) := by
  induction n generalizing d' with
  | zero =>
    obtain rfl : c.compact p = d' := Option.some.inj hn
    exact ⟨0, c, le_rfl, rfl, hc, rfl, fun _ ↦ quiet_self p c 0⟩
  | succ n ih =>
    obtain ⟨e', he', hnext'⟩ := exists_next?_of_after?_succ hn
    obtain ⟨m, e, hm, he, hsettled, rfl, hquiet⟩ := ih he'
    obtain ⟨b, hb, hgoes'⟩ := exists_goes_of_next? hnext'
    obtain ⟨a, hgoes, ha⟩ := exists_goes_of_settled hsettled hgoes'
    have hg : e.scene.goals.isEmpty = false := isEmpty_goals_of_next? (c := e.compact p) hnext'
    obtain ⟨hnext, hb'⟩ := goes_iff.2 ⟨hg, hgoes⟩
    -- after the step there may be empty slots to be passed before the next one
    obtain ⟨k, d, hk, hrest, hsettled', hd⟩ := exists_settled (p := p) (isEmpty_goals_next hnext)
    have hreach : after? p c (m + 1) = some a := after?_trans he hnext
    refine ⟨m + 1 + k, d, by omega, after?_trans hreach hk, hsettled', hd.trans ha, fun hq ↦ ?_⟩
    obtain ⟨hq', hlast⟩ := (quiet_succ_iff (Nat.zero_le n) he').1 hq
    have hfirst : Quiet p c 0 (m + 1) :=
      (quiet_succ_iff (Nat.zero_le m) he).2 ⟨hquiet hq', hb'.trans (hb.symm.trans hlast)⟩
    exact hfirst.trans ((quiet_add_iff hreach (i := 0)).2 hrest)

/-! ### Repetitions -/

/-- Settled configurations whose images have the same fingerprint have the same fingerprint. -/
theorem exists_fingerprint?_of_compact {f : Fingerprint} (hc : Settled p c) (hd : Settled p d)
    (hcf : (c.compact p).fingerprint? = some f) (hdf : (d.compact p).fingerprint? = some f) :
    ∃ g, c.fingerprint? = some g ∧ d.fingerprint? = some g := by
  obtain ⟨⟨below, hcstack⟩, hcgoals, hcrobot⟩ := fingerprint?_eq_some_iff.1 hcf
  obtain ⟨⟨below', hdstack⟩, hdgoals, hdrobot⟩ := fingerprint?_eq_some_iff.1 hdf
  -- the top frame of the image is the image of the top frame
  have htop : ∀ {e : Config} {above : List Frame}, Settled p e →
      (e.compact p).stack = f.frame :: above →
        ∃ frame rest, e.stack = frame :: rest ∧ ¬ frame.Idle p ∧
          compactFrame p frame = [f.frame] := by
    rintro ⟨s, stack⟩ above he hstack
    rcases stack with - | ⟨frame, rest⟩
    · contradiction
    · have hidle := he _ _ rfl
      obtain ⟨l, hl⟩ := exists_compactFrame_eq hidle
      refine ⟨frame, rest, rfl, hidle, ?_⟩
      rw [Config.compact, List.flatMap_cons, hl] at hstack
      rw [hl, List.head_eq_of_cons_eq hstack]
  obtain ⟨frame, rest, hcstack, hcidle, hcframe⟩ := htop hc hcstack
  obtain ⟨frame', rest', hdstack, hdidle, hdframe⟩ := htop hd hdstack
  obtain rfl := eq_of_compactFrame_eq hcidle hdidle (hcframe.trans hdframe.symm)
  exact ⟨⟨f.position, f.heading, frame⟩,
    fingerprint?_eq_some_iff.2 ⟨⟨rest, hcstack⟩, hcgoals, hcrobot⟩,
    fingerprint?_eq_some_iff.2 ⟨⟨rest', hdstack⟩, hdgoals, hdrobot⟩⟩

theorem compact_start (p : Program) (s : Scene) :
    (Config.start s).compact p = Config.start s := by
  show (⟨s, [⟨0, 0⟩].flatMap (compactFrame p)⟩ : Config) = _
  rw [List.flatMap_singleton, compactFrame_zero]
  rfl

/-- **A repetition of the compacted program is one of the program.** -/
theorem exists_repetition_of_compact (hrep : Repetition p.compact (Config.start s) i j) :
    ∃ i j, Repetition p (Config.start s) i j := by
  obtain ⟨hlt, ⟨d', e', f, hi, hj, hdf, hef⟩, hq⟩ := hrep
  have hg : s.goals.isEmpty = false := by
    obtain ⟨a, ha, -⟩ := exists_after?_of_le (show 1 ≤ j by omega) hj
    exact isEmpty_goals_of_next? (c := Config.start s) ha
  -- follow the path to the first step of the repetition, and from there to the second
  obtain ⟨m, c, hm, -, hc, himage⟩ := exists_settled (p := p) (c := Config.start s) hg
  rw [compact_start] at himage
  obtain ⟨n, d, -, hn, hd, rfl, -⟩ := exists_after?_of_compact hc (himage.symm ▸ hi)
  have hrest : after? p.compact (d.compact p) (j - i) = some e' := by
    rw [← after?_add_of_eq_some hi, Nat.add_sub_cancel' hlt.le, hj]
  obtain ⟨k, e, hle, hk, he, rfl, hquiet⟩ := exists_after?_of_compact hd hrest
  have hreach := after?_trans hm hn
  refine ⟨m + n, m + n + k, by omega, ?_, ?_⟩
  · obtain ⟨g, hdg, heg⟩ := exists_fingerprint?_of_compact hd he hdf hef
    exact ⟨d, e, g, hreach, after?_trans hreach hk, hdg, heg⟩
  · refine (quiet_add_iff hreach (i := 0)).2 (hquiet ((quiet_add_iff hi (i := 0)).1 ?_))
    rwa [Nat.add_zero, Nat.add_sub_cancel' hlt.le]

/-! ### Runs -/

theorem endsWith_loopDetected_of_compact (hloop : EndsWith s p.compact (.finished .loopDetected)) :
    EndsWith s p (.finished .loopDetected) := by
  obtain ⟨i, j, hrep⟩ := endsWith_loopDetected_iff.1 hloop
  exact endsWith_loopDetected_iff.2 (exists_repetition_of_compact hrep)

/-- The compacted program halts no later than the program. -/
theorem le_of_haltsAt_compact {m : Nat} {k : Halt}
    (hm : HaltsAt p.compact (Config.start s) m k) (hn : HaltsAt p (Config.start s) n h) :
    m ≤ n := by
  obtain ⟨d', hd', -⟩ := hm
  rcases m with - | m
  · exact Nat.zero_le n
  · have hg : s.goals.isEmpty = false := by
      obtain ⟨a, ha, -⟩ := exists_after?_of_le (show 1 ≤ m + 1 by omega) hd'
      exact isEmpty_goals_of_next? (c := Config.start s) ha
    -- the path of the program to where the compacted one halts is as long at least
    obtain ⟨i, c, hi, -, hc, himage⟩ := exists_settled (p := p) (c := Config.start s) hg
    rw [compact_start] at himage
    obtain ⟨j, d, hle, hj, -⟩ := exists_after?_of_compact hc (himage.symm ▸ hd')
    have hij : i + j ≤ n := le_of_haltsAt hn (after?_trans hi hj)
    omega

/-- Compacting does not change an answer other than a loop, and it takes no more steps to give. -/
theorem run_compact_of_run {fuel : Nat} (hrun : run fuel s p = some h)
    (hne : h.ending ≠ .finished .loopDetected) : run fuel s p.compact = some h := by
  obtain ⟨n, hlt, hn⟩ := exists_haltsAt_of_run hrun hne
  obtain ⟨m, hm⟩ := halts_start_compact_iff.2 ⟨n, hn⟩
  have hmn : m ≤ n := le_of_haltsAt_compact hm hn
  obtain ⟨k, hk, rfl | hloop⟩ := exists_run_of_haltsAt hm
  · exact runFrom_of_le (by omega) hk
  · obtain ⟨fuel', l, hl, hloop⟩ := endsWith_loopDetected_of_compact ⟨m + 1, k, hk, hloop⟩
    exact absurd (run_unique hrun hl ▸ hloop) hne

/-- If the compacted program comes to its end, so does the program. -/
theorem exists_run_of_run_compact {fuel : Nat} (hrun : run fuel s p.compact = some h) :
    ∃ fuel' k, run fuel' s p = some k := by
  rw [exists_run_iff]
  rcases exists_run_iff.1 ⟨fuel, h, hrun⟩ with ⟨i, j, hrep⟩ | ⟨k, hk⟩
  · exact Or.inl (exists_repetition_of_compact hrep)
  · exact Or.inr ⟨k, halts_start_compact_iff.1 hk⟩

/-- **Compacting changes no conclusive result.** A run that does not end with the report of a loop
ends in the same way, with the same outcome or fault and on the same scene, when the empty slots are
taken out of the program, and it needs no more steps for that. So compacting can only do away with
the report of a loop: where the compacted program comes to an end, the program comes to the same or
reports a loop. -/
theorem run_compact (s : Scene) (p : Program) :
    (∀ fuel h, run fuel s p = some h → h.ending ≠ .finished .loopDetected →
        run fuel s p.compact = some h) ∧
      ∀ fuel k, run fuel s p.compact = some k →
        ∃ fuel' h, run fuel' s p = some h ∧ (h = k ∨ h.ending = .finished .loopDetected) := by
  refine ⟨fun fuel h hrun hne ↦ run_compact_of_run hrun hne, fun fuel k hk ↦ ?_⟩
  obtain ⟨fuel', h, hrun⟩ := exists_run_of_run_compact hk
  refine ⟨fuel', h, hrun, ?_⟩
  by_cases hloop : h.ending = .finished .loopDetected
  · exact Or.inr hloop
  · exact Or.inl (run_unique (run_compact_of_run hrun hloop) hk)

/-- Waits in an empty slot and then moves. -/
def waitAndMove : Program := ⟨[[none, some ⟨.forward, none⟩]]⟩

/-- The robot on the two tiles gets to its goal after waiting, and without. -/
theorem run_compact_waitAndMove :
    run 2 twoTiles waitAndMove = some ⟨.finished .solved, twoTiles.enter ⟨0, 1⟩⟩ ∧
      run 2 twoTiles ⟨[[some ⟨.forward, none⟩]]⟩ =
        some ⟨.finished .solved, twoTiles.enter ⟨0, 1⟩⟩ := by
  have hrun : run 2 twoTiles waitAndMove =
      some ⟨.finished .solved, twoTiles.enter ⟨0, 1⟩⟩ := by
    rw [run, runFrom_of_proceed (Evidence.not_repeats_empty _) rfl]
    refine runFrom_of_ending ?_ rfl
    -- the frame after the wait is another one than the frame before
    intro ⟨f, hf, hmem⟩
    obtain ⟨-, hfirst | hempty⟩ := Evidence.mem_update.1 hmem
    · have hsame : (Config.start twoTiles).fingerprint? =
          (Config.mk twoTiles [⟨0, 1⟩]).fingerprint? := hfirst.trans (Option.mem_def.1 hf).symm
      exact absurd hsame (by decide)
    · exact Evidence.not_repeats_empty _ ⟨f, hf, hempty⟩
  exact ⟨hrun, (run_compact twoTiles waitAndMove).1 2 _ hrun (by decide)⟩

end TileRobot.Machine
