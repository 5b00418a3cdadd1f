import TileRobot.Proofs.Machine.Step

/-!
# Paths of the machine

The machine without its watch for loops, followed step by step: which configurations it comes
through, where it halts, and that it does one of the two, halt or go on for ever.

What holds of a step holds of a path. In particular a path can be cut out of its surroundings and
put into others: `after?_over` puts further frames under it, and `after?_of_above` takes away the
frames that it does not reach.
-/

namespace TileRobot.Machine

variable {p : Program} {c d e : Config} {i j m n : Nat} {h k : Halt}

/-! ### Following a path -/

@[simp] theorem after?_one (p : Program) (c : Config) : after? p c 1 = next? p c := rfl

theorem after?_trans (hm : after? p c m = some d) (hn : after? p d n = some e) :
    after? p c (m + n) = some e := by
  rw [after?_add, hm, Option.bind_some, hn]

/-- What is reached from a configuration on a path is reached from its start. -/
theorem after?_add_of_eq_some (hm : after? p c m = some d) (n : Nat) :
    after? p c (m + n) = after? p d n := by
  rw [after?_add, hm, Option.bind_some]

/-- A path passes through a configuration at every earlier step. -/
theorem exists_after?_of_le (hmn : m ≤ n) (hn : after? p c n = some e) :
    ∃ d, after? p c m = some d ∧ after? p d (n - m) = some e := by
  obtain ⟨k, rfl⟩ := Nat.exists_eq_add_of_le hmn
  rw [after?_add] at hn
  obtain ⟨d, hd, he⟩ := Option.bind_eq_some_iff.1 hn
  exact ⟨d, hd, by rwa [Nat.add_sub_cancel_left]⟩

/-- The step after a configuration on a path. -/
theorem after?_succ_of_eq_some (hn : after? p c n = some d) : after? p c (n + 1) = next? p d := by
  rw [after?_succ, hn, Option.bind_some]

/-- Before its end a path goes on. -/
theorem exists_next?_of_lt (hmn : m < n) (hm : after? p c m = some d) (hn : after? p c n = some e) :
    ∃ f, after? p c (m + 1) = some f ∧ next? p d = some f := by
  obtain ⟨f, hf, -⟩ := exists_after?_of_le (show m + 1 ≤ n from hmn) hn
  exact ⟨f, hf, after?_succ_of_eq_some hm ▸ hf⟩

/-- The last step of a path. -/
theorem exists_next?_of_after?_succ (hn : after? p c (n + 1) = some e) :
    ∃ d, after? p c n = some d ∧ next? p d = some e :=
  Option.bind_eq_some_iff.1 hn

/-! ### Halting -/

/-- The machine halts at step `n`: it comes to a configuration with which it ends. -/
def HaltsAt (p : Program) (c : Config) (n : Nat) (h : Halt) : Prop :=
  ∃ d, after? p c n = some d ∧ (step p d).ending? = some h.ending ∧ (step p d).next.scene = h.scene

/-- The machine halts at some step. -/
def Halts (p : Program) (c : Config) (h : Halt) : Prop := ∃ n, HaltsAt p c n h

/-- The machine never halts: there is a configuration after every number of steps. -/
def RunsForever (p : Program) (c : Config) : Prop := ∀ n, ∃ d, after? p c n = some d

theorem haltsAt_iff : HaltsAt p c n h ↔
    ∃ d, after? p c n = some d ∧ Ends p d h.ending h.scene :=
  exists_congr fun _ ↦ and_congr_right fun _ ↦ ends_iff

theorem halts_of_ends (he : Ends p c h.ending h.scene) : Halts p c h :=
  ⟨0, haltsAt_iff.2 ⟨c, rfl, he⟩⟩

theorem haltsAt_add_iff (hm : after? p c m = some d) : HaltsAt p c (m + n) h ↔ HaltsAt p d n h := by
  simp only [HaltsAt, after?_add_of_eq_some hm]

theorem Halts.of_after? (hm : after? p c m = some d) (hd : Halts p d h) : Halts p c h := by
  obtain ⟨n, hn⟩ := hd
  exact ⟨m + n, (haltsAt_add_iff hm).2 hn⟩

/-- There is no configuration after the step at which the machine halts. -/
theorem after?_eq_none_of_haltsAt (hn : HaltsAt p c n h) (hlt : n < m) : after? p c m = none := by
  obtain ⟨d, hd, hend, -⟩ := hn
  obtain ⟨k, rfl⟩ : ∃ k, m = n + (1 + k) := ⟨m - n - 1, by omega⟩
  have hnone : next? p d = none := next?_eq_none_iff.2 ⟨_, hend⟩
  rw [after?_add_of_eq_some hd, after?_add, after?_one, hnone, Option.bind_none]

theorem le_of_haltsAt (hn : HaltsAt p c n h) (hm : after? p c m = some d) : m ≤ n := by
  by_contra hlt
  rw [after?_eq_none_of_haltsAt hn (show n < m by omega)] at hm
  contradiction

/-- **The machine is deterministic**: it halts at one step and in one way. -/
theorem HaltsAt.unique (hm : HaltsAt p c m h) (hn : HaltsAt p c n k) : m = n ∧ h = k := by
  obtain ⟨d, hd, hdend, hdscene⟩ := id hm
  obtain ⟨e, he, heend, hescene⟩ := id hn
  -- neither step comes after the other, since the path goes no further
  obtain rfl : m = n := Nat.le_antisymm (le_of_haltsAt hn hd) (le_of_haltsAt hm he)
  obtain rfl : d = e := Option.some.inj (hd.symm.trans he)
  refine ⟨rfl, ?_⟩
  obtain ⟨a, s⟩ := h
  obtain ⟨b, t⟩ := k
  obtain rfl : a = b := Option.some.inj (hdend.symm.trans heend)
  obtain rfl : s = t := hdscene.symm.trans hescene
  rfl

theorem Halts.unique (hh : Halts p c h) (hk : Halts p c k) : h = k := by
  obtain ⟨m, hm⟩ := hh
  obtain ⟨n, hn⟩ := hk
  exact (hm.unique hn).2

/-- A path that stops does so because the machine halts. -/
theorem exists_haltsAt_of_after?_eq_none (hn : after? p c n = none) :
    ∃ m h, m < n ∧ HaltsAt p c m h := by
  induction n with
  | zero => simp at hn
  | succ n ih =>
    rcases hd : after? p c n with - | d
    · obtain ⟨m, h, hlt, hm⟩ := ih hd
      exact ⟨m, h, by omega, hm⟩
    · rw [after?_succ_of_eq_some hd] at hn
      obtain ⟨end', he⟩ := next?_eq_none_iff.1 hn
      exact ⟨n, ⟨end', (step p d).next.scene⟩, by omega, d, hd, he, rfl⟩

/-- The machine either halts or runs for ever. -/
theorem runsForever_iff : RunsForever p c ↔ ∀ h, ¬ Halts p c h := by
  constructor
  · rintro hrun h ⟨n, hn⟩
    obtain ⟨d, hd⟩ := hrun (n + 1)
    rw [after?_eq_none_of_haltsAt hn (Nat.lt_succ_self n)] at hd
    contradiction
  · intro hnot n
    rcases hn : after? p c n with - | d
    · obtain ⟨m, h, -, hm⟩ := exists_haltsAt_of_after?_eq_none hn
      exact absurd ⟨m, hm⟩ (hnot h)
    · exact ⟨d, rfl⟩

/-- Whether the machine runs for ever shows at any configuration on its path. -/
theorem runsForever_iff_of_after? (hm : after? p c m = some d) :
    RunsForever p c ↔ RunsForever p d := by
  constructor
  · intro hrun n
    obtain ⟨e, he⟩ := hrun (m + n)
    exact ⟨e, (after?_add_of_eq_some hm n) ▸ he⟩
  · intro hrun n
    obtain ⟨e, he⟩ := hrun n
    have hreach := after?_trans hm he
    obtain ⟨f, hf, -⟩ := exists_after?_of_le (Nat.le_add_left n m) hreach
    exact ⟨f, hf⟩

/-! ### Paths and the frames under them -/

/-- A path can be put over further frames. -/
theorem after?_over {s t : Scene} {above above' : List Frame}
    (hn : after? p ⟨s, above⟩ n = some ⟨t, above'⟩) (below : List Frame) :
    after? p ⟨s, above ++ below⟩ n = some ⟨t, above' ++ below⟩ := by
  induction n generalizing t above' with
  | zero =>
    obtain ⟨rfl, rfl⟩ : s = t ∧ above = above' := by simpa using hn
    rfl
  | succ n ih =>
    obtain ⟨⟨u, mid⟩, hmid, hnext⟩ := exists_next?_of_after?_succ hn
    rw [after?_succ, ih hmid, Option.bind_some]
    exact next?_append hnext below

/-- A path that stays above given frames is a path without them. -/
theorem after?_of_above {s : Scene} {above below : List Frame}
    (hn : after? p ⟨s, above ++ below⟩ n = some d)
    (habove : ∀ i < n, ∀ e, after? p ⟨s, above ++ below⟩ i = some e → Above below e) :
    ∃ above', d.stack = above' ++ below ∧ after? p ⟨s, above⟩ n = some ⟨d.scene, above'⟩ := by
  induction n generalizing d with
  | zero =>
    obtain rfl : _ = d := by simpa using hn
    exact ⟨above, rfl, rfl⟩
  | succ n ih =>
    obtain ⟨⟨t, stack⟩, he, hnext⟩ := exists_next?_of_after?_succ hn
    obtain ⟨mid, rfl, hmid⟩ := ih he fun i hi ↦ habove i (by omega)
    -- the last step is made from above the frames, so it does not look at them
    obtain ⟨above', hne, habove'⟩ := habove n (by omega) _ he
    obtain rfl : mid = above' := List.append_cancel_right habove'
    obtain ⟨hend, hstep⟩ := next?_eq_some_iff.1 hnext
    rw [step_append p t hne below] at hend hstep
    subst hstep
    refine ⟨(step p ⟨t, mid⟩).next.stack, rfl, ?_⟩
    rw [after?_succ_of_eq_some hmid]
    exact next?_eq_some_iff.2 ⟨hend, rfl⟩

/-- A part of a path that stays above given frames is a path without them. -/
theorem exists_after?_of_above {s : Scene} {top below : List Frame} (hij : i ≤ j)
    (hi : after? p c i = some ⟨s, top ++ below⟩) (hj : after? p c j = some d)
    (habove : ∀ k, i ≤ k → k < j → ∀ e, after? p c k = some e → Above below e) :
    ∃ above, d.stack = above ++ below ∧ after? p ⟨s, top⟩ (j - i) = some ⟨d.scene, above⟩ := by
  have hpath : after? p ⟨s, top ++ below⟩ (j - i) = some d := by
    rw [← after?_add_of_eq_some hi, Nat.add_sub_cancel' hij, hj]
  exact after?_of_above hpath fun k hk e he ↦
    habove (i + k) (by omega) (by omega) e ((after?_add_of_eq_some hi k).trans he)

end TileRobot.Machine
