import Mathlib.Data.List.Forall2
import Mathlib.Data.List.TakeWhile
import TileRobot.Text.Blank
import TileRobot.Text.Split

/-!
# Texts in parts

A text is often written by putting a separator between its parts, and read by cutting it at the
separator and reading part by part. Both ways agree when the separator has a character that is in
none of the parts (`pieces_intercalate`): then its first occurrence is the one after the first part
(`cut?_append`).

What is read may stand among blanks. Trimming takes these away and nothing else, as long as the text
itself has a blank at neither end (`Solid`, `trim_append_append`). A text of solid parts is solid.

Where a text that need not have been written this way is cut and trimmed, the results are described
from the other side: a cut is made at the first occurrence of the separator (`cut?_eq_some_iff`),
and what trimming takes away are blanks (`exists_trim`). Reading part by part stops at the first
part that cannot be read (`mapM_eq_error_iff`).
-/

namespace TileRobot.Text

variable {sep s before after : List Char} {parts : List (List Char)} {x : Char}

/-! ### Cutting at a separator -/

theorem strip?_eq_none_iff : strip? sep s = none ↔ ¬ sep <+: s := by
  rw [Option.eq_none_iff_forall_ne_some]
  exact ⟨fun h ⟨t, ht⟩ ↦ h t (strip?_eq_some_iff.2 ht.symm),
    fun h t ht ↦ h ⟨t, (strip?_eq_some_iff.1 ht).symm⟩⟩

theorem cut?_self_append (hsep : sep ≠ []) (rest : List Char) :
    cut? sep (sep ++ rest) = some ([], rest) := by
  obtain ⟨c, sep, rfl⟩ := List.exists_cons_of_ne_nil hsep
  have hstrip : strip? (c :: sep) (c :: (sep ++ rest)) = some rest := strip?_eq_some_iff.2 rfl
  simp only [List.cons_append, cut?, hstrip]

theorem cut?_cons_of_not_starts {c : Char} (hhere : ¬ sep <+: c :: s) :
    cut? sep (c :: s) = (cut? sep s).map fun (before, rest) ↦ (c :: before, rest) := by
  simp only [cut?, strip?_eq_none_iff.2 hhere]

theorem append_dropLast_isPrefix (before sep rest : List Char) :
    before ++ sep.dropLast <+: before ++ sep ++ rest := by
  rw [List.append_assoc, List.prefix_append_right_inj]
  exact (List.dropLast_prefix sep).trans (List.prefix_append _ _)

/-- **Where a text is cut:** at the first occurrence of the separator, so that the separator occurs
neither in the part before nor across its end. -/
theorem cut?_eq_some_iff (hsep : sep ≠ []) {rest : List Char} :
    cut? sep s = some (before, rest) ↔
      s = before ++ sep ++ rest ∧ ¬ sep <:+: before ++ sep.dropLast := by
  induction s generalizing before with
  | nil =>
    have hnone : cut? sep [] = none := by
      rw [cut?, strip?_eq_none_iff.2 (mt List.prefix_nil.1 hsep), Option.map_none]
    simp [hnone, hsep]
  | cons c s ih =>
    by_cases hhere : sep <+: c :: s
    · obtain ⟨after, hafter⟩ := hhere
      rw [← hafter, cut?_self_append hsep]
      constructor
      · rintro ⟨⟩
        refine ⟨rfl, fun hoccurs ↦ ?_⟩
        have hle := hoccurs.length_le
        have hpos := List.length_pos_iff.2 hsep
        rw [List.nil_append, List.length_dropLast] at hle
        omega
      · rintro ⟨heq, hfirst⟩
        rcases before with - | ⟨d, t⟩
        · rw [List.append_cancel_left heq]
        · -- the separator would occur in `d :: t` and a part of the separator after it
          have hleading : (d :: t) ++ sep.dropLast <+: sep ++ after :=
            heq ▸ append_dropLast_isPrefix (d :: t) sep rest
          have hstarts := List.prefix_append sep after
          refine absurd (List.prefix_of_prefix_length_le hstarts hleading ?_).isInfix hfirst
          simp only [List.length_append, List.length_cons, List.length_dropLast]
          omega
    · rw [cut?_cons_of_not_starts hhere, Option.map_eq_some_iff]
      constructor
      · rintro ⟨⟨t, _⟩, ht, ⟨⟩⟩
        obtain ⟨heq, hfirst⟩ := ih.1 ht
        have hleading : (c :: t) ++ sep.dropLast <+: c :: s :=
          heq ▸ append_dropLast_isPrefix (c :: t) sep rest
        exact ⟨congrArg (c :: ·) heq, fun hoccurs ↦
          (List.infix_cons_iff.1 hoccurs).elim (fun h ↦ hhere (h.trans hleading)) hfirst⟩
      · rintro ⟨heq, hfirst⟩
        rcases before with - | ⟨d, t⟩
        · exact absurd ⟨rest, heq.symm⟩ hhere
        · obtain ⟨rfl, hrest⟩ := List.cons.inj heq
          exact ⟨(t, rest), ih.2 ⟨hrest, fun h ↦ hfirst (List.infix_cons h)⟩, rfl⟩

theorem cut?_eq_none_iff (hsep : sep ≠ []) : cut? sep s = none ↔ ¬ sep <:+: s := by
  induction s with
  | nil => rw [cut?, Option.map_eq_none_iff, strip?_eq_none_iff, List.prefix_nil, List.infix_nil]
  | cons c s ih =>
    rw [List.infix_cons_iff, not_or, ← ih]
    by_cases hhere : sep <+: c :: s
    · obtain ⟨after, hafter⟩ := hhere
      rw [← hafter, cut?_self_append hsep]
      exact iff_of_false (Option.some_ne_none _) fun h ↦ h.1 (List.prefix_append _ _)
    · rw [cut?_cons_of_not_starts hhere, Option.map_eq_none_iff]
      exact ⟨fun h ↦ ⟨hhere, h⟩, And.right⟩

/-- A separator does not occur where one of its characters does not. -/
theorem cut?_eq_none_of_notMem (hx : x ∈ sep) (hs : x ∉ s) : cut? sep s = none :=
  (cut?_eq_none_iff (List.ne_nil_of_mem hx)).2 fun hoccurs ↦ hs (hoccurs.subset hx)

/-- **The first occurrence of a separator** is the one after a text that lacks one of its
characters. -/
theorem cut?_append (hx : x ∈ sep) (hs : x ∉ s) (rest : List Char) :
    cut? sep (s ++ sep ++ rest) = some (s, rest) := by
  induction s with
  | nil => exact cut?_self_append (List.ne_nil_of_mem hx) rest
  | cons c s ih =>
    have hhere : ¬ sep <+: c :: (s ++ sep ++ rest) := by
      -- the separator would have its character earlier than the text has it
      rintro ⟨after, heq⟩
      have hindex := congrArg (List.idxOf x) heq
      rw [← List.cons_append, ← List.cons_append, List.append_assoc, List.idxOf_append_of_notMem hs,
        List.idxOf_append_of_mem hx, List.idxOf_append_of_mem hx, List.length_cons] at hindex
      omega
    have hrest := ih fun hmem ↦ hs (List.mem_cons_of_mem _ hmem)
    rw [List.cons_append, List.cons_append, cut?_cons_of_not_starts hhere, hrest, Option.map_some]

/-- **Cutting at a separator gives the parts again** between which it was put, if one of its
characters is in none of them. -/
theorem pieces_intercalate (hsep : sep ≠ []) (hx : x ∈ sep) (hparts : ∀ s ∈ parts, x ∉ s)
    (hne : parts ≠ []) : pieces sep (sep.intercalate parts) hsep = parts := by
  induction parts with
  | nil => contradiction
  | cons s parts ih =>
    have hs := hparts s List.mem_cons_self
    rcases parts with - | ⟨t, parts⟩
    · rw [List.intercalate_singleton, pieces_of_cut?_eq_none hsep (cut?_eq_none_of_notMem hx hs)]
    · rw [List.intercalate_cons_cons, pieces_of_cut?_eq_some hsep (cut?_append hx hs _),
        ih (fun s hs ↦ hparts s (List.mem_cons_of_mem _ hs)) (List.cons_ne_nil _ _)]

/-! ### Putting parts together -/

/-- After the first part, each part follows a separator. -/
theorem intercalate_cons (sep s : List Char) (parts : List (List Char)) :
    sep.intercalate (s :: parts) = s ++ parts.flatMap (sep ++ ·) := by
  induction parts generalizing s with
  | nil => rw [List.intercalate_singleton, List.flatMap_nil, List.append_nil]
  | cons t parts ih =>
    rw [List.intercalate_cons_cons, ih, List.flatMap_cons, List.append_assoc, List.append_assoc]

/-- The end of a separator can be counted to the parts that follow it. -/
theorem intercalate_append (sep pad s : List Char) (parts : List (List Char)) :
    (sep ++ pad).intercalate (s :: parts) = sep.intercalate (s :: parts.map (pad ++ ·)) := by
  rw [intercalate_cons, intercalate_cons, List.flatMap_map]
  simp only [List.append_assoc]

theorem forall_mem_intercalate {p : Char → Prop} (hsep : ∀ c ∈ sep, p c)
    (hparts : ∀ s ∈ parts, ∀ c ∈ s, p c) : ∀ c ∈ sep.intercalate parts, p c := by
  rcases parts with - | ⟨s, parts⟩
  · exact fun c hc ↦ absurd hc List.not_mem_nil
  · intro c hc
    rw [intercalate_cons, List.mem_append, List.mem_flatMap] at hc
    rcases hc with hc | ⟨t, ht, hc⟩
    · exact hparts s List.mem_cons_self c hc
    · rcases List.mem_append.1 hc with hc | hc
      · exact hsep c hc
      · exact hparts t (List.mem_cons_of_mem _ ht) c hc

/-- A text that was put together from lines falls into the pieces of each line. -/
theorem splitOn_intercalate_eq_flatMap (hne : parts ≠ []) :
    ([x].intercalate parts).splitOn x = parts.flatMap (·.splitOn x) := by
  induction parts with
  | nil => contradiction
  | cons s parts ih =>
    rcases parts with - | ⟨t, parts⟩
    · rw [List.intercalate_singleton, List.flatMap_singleton]
    · rw [List.intercalate_cons_cons, List.append_assoc, List.singleton_append,
        List.splitOn_append_cons_self, ih (List.cons_ne_nil _ _)]
      rfl

/-! ### Blanks around a text -/

/-- A run of blanks, which may be empty. -/
abbrev Blanks (s : List Char) : Prop := ∀ c ∈ s, isBlank c = true

theorem Blanks.append (hbefore : Blanks before) (hafter : Blanks after) :
    Blanks (before ++ after) :=
  List.forall_mem_append.2 ⟨hbefore, hafter⟩

/-- A text is solid when it begins and ends with characters that are no blanks. -/
structure Solid (s : List Char) : Prop where
  /-- The first character is no blank. -/
  head : ∃ c ∈ s.head?, isBlank c = false
  /-- The last character is no blank. -/
  last : ∃ c ∈ s.getLast?, isBlank c = false

theorem Solid.ne_nil (hs : Solid s) : s ≠ [] := by
  obtain ⟨c, hc, -⟩ := hs.head
  exact List.ne_nil_of_mem (List.mem_of_mem_head? hc)

theorem Solid.not_blanks (hs : Solid s) : ¬ Blanks s := by
  obtain ⟨c, hhead, hc⟩ := hs.head
  exact fun hblanks ↦ Bool.noConfusion ((hblanks c (List.mem_of_mem_head? hhead)).symm.trans hc)

theorem solid_of_forall (hne : s ≠ []) (hs : ∀ c ∈ s, isBlank c = false) : Solid s where
  head := ⟨s.head hne, List.head?_eq_some_head hne, hs _ (List.head_mem hne)⟩
  last := ⟨s.getLast hne, List.getLast?_eq_some_getLast hne, hs _ (List.getLast_mem hne)⟩

theorem Solid.append {t : List Char} (hs : Solid s) (between : List Char) (ht : Solid t) :
    Solid (s ++ between ++ t) where
  head := by
    rw [List.append_assoc, List.head?_append_of_ne_nil _ hs.ne_nil]
    exact hs.head
  last := by
    rw [List.getLast?_append_of_ne_nil _ ht.ne_nil]
    exact ht.last

/-- Parts that are solid make up a solid text. -/
theorem solid_intercalate (hne : parts ≠ []) (hparts : ∀ s ∈ parts, Solid s) :
    Solid (sep.intercalate parts) := by
  induction parts with
  | nil => contradiction
  | cons s parts ih =>
    have hs := hparts s List.mem_cons_self
    rcases parts with - | ⟨t, parts⟩
    · rwa [List.intercalate_singleton]
    · have hrest := ih (List.cons_ne_nil _ _) fun u hu ↦ hparts u (List.mem_cons_of_mem _ hu)
      rw [List.intercalate_cons_cons]
      exact hs.append sep hrest

/-- **Trimming takes the blanks around a solid text away.** -/
theorem trim_append_append (hbefore : ∀ c ∈ before, isBlank c = true)
    (hafter : ∀ c ∈ after, isBlank c = true) (hs : Solid s) : trim (before ++ s ++ after) = s := by
  obtain ⟨c, hhead, hc⟩ := hs.head
  obtain ⟨t, rfl⟩ := List.head?_eq_some_iff.1 hhead
  have hstart : trimStart (before ++ (c :: t) ++ after) = (c :: t) ++ after := by
    rw [trimStart, List.append_assoc, List.dropWhile_append_of_pos hbefore]
    exact trimStart_cons_of_not_blank hc
  obtain ⟨d, hd, hblank⟩ := hs.last
  obtain ⟨t, ht⟩ := List.getLast?_eq_some_iff.1 hd
  rw [trim, hstart, ht, trimEnd, trimStart, List.reverse_append,
    List.dropWhile_append_of_pos fun c hc ↦ hafter c (List.mem_reverse.1 hc)]
  exact trimEnd_concat_of_not_blank hblank

theorem Solid.trim_eq (hs : Solid s) : trim s = s := by
  have htrim := trim_append_append (List.forall_mem_nil _) (List.forall_mem_nil _) hs
  rwa [List.nil_append, List.append_nil] at htrim

/-- Trimming the end after the start takes blanks from the end. -/
theorem exists_trimStart (s : List Char) :
    ∃ after, Blanks after ∧ trimStart s = trim s ++ after := by
  refine ⟨((trimStart s).reverse.takeWhile isBlank).reverse,
    fun c hc ↦ List.mem_takeWhile_imp (List.mem_reverse.1 hc), ?_⟩
  have hreverse := (trimStart s).reverse.takeWhile_append_dropWhile (p := isBlank)
  rw [trim, trimEnd, ← List.reverse_append]
  exact (List.reverse_reverse _).symm.trans (congrArg List.reverse hreverse.symm)

/-- **What trimming takes away** are blanks at both ends. -/
theorem exists_trim (s : List Char) :
    ∃ before after, Blanks before ∧ Blanks after ∧ s = before ++ trim s ++ after := by
  obtain ⟨after, hafter, hend⟩ := exists_trimStart s
  refine ⟨s.takeWhile isBlank, after, fun c hc ↦ List.mem_takeWhile_imp hc, hafter, ?_⟩
  rw [List.append_assoc, ← hend]
  exact List.takeWhile_append_dropWhile.symm

theorem solid_trim (hs : trim s ≠ []) : Solid (trim s) where
  head := by
    obtain ⟨after, -, hend⟩ := exists_trimStart s
    have hne : trimStart s ≠ [] := hend ▸ List.append_ne_nil_of_left_ne_nil hs after
    refine ⟨(trimStart s).head hne, ?_, List.head_dropWhile_not isBlank hne⟩
    rw [← List.head?_append_of_ne_nil _ hs, ← hend]
    exact List.head?_eq_some_head hne
  last := by
    have hne : trimStart (trimStart s).reverse ≠ [] := mt List.reverse_eq_nil_iff.2 hs
    refine ⟨(trimStart (trimStart s).reverse).head hne, ?_, List.head_dropWhile_not isBlank hne⟩
    rw [trim, trimEnd, List.getLast?_reverse]
    exact List.head?_eq_some_head hne

theorem trim_trim (s : List Char) : trim (trim s) = trim s := by
  by_cases hs : trim s = []
  · rw [hs, trim_nil]
  · exact (solid_trim hs).trim_eq

theorem trim_eq_nil_iff : trim s = [] ↔ Blanks s := by
  constructor
  · intro hnil
    obtain ⟨before, after, hbefore, hafter, hs⟩ := exists_trim s
    rw [hnil, List.append_nil] at hs
    exact hs ▸ hbefore.append hafter
  · intro hs
    rw [trim, trimStart, List.dropWhile_eq_nil_iff.2 hs]
    rfl

/-! ### Reading part by part -/

theorem bind_eq_ok_iff {ε α β : Type} {x : Except ε α} {f : α → Except ε β} {b : β} :
    x >>= f = .ok b ↔ ∃ a, x = .ok a ∧ f a = .ok b := by
  rcases x with e | a
  · exact ⟨nofun, nofun⟩
  · refine ⟨fun h ↦ ⟨a, rfl, h⟩, ?_⟩
    rintro ⟨_, ⟨⟩, h⟩
    exact h

theorem map_eq_ok_iff {ε α β : Type} {x : Except ε α} {f : α → β} {b : β} :
    x.map f = .ok b ↔ ∃ a, x = .ok a ∧ f a = b := by
  rcases x with e | a
  · exact ⟨nofun, nofun⟩
  · refine ⟨fun h ↦ ⟨a, rfl, Except.ok.inj h⟩, ?_⟩
    rintro ⟨_, ⟨⟩, rfl⟩
    rfl

theorem bind_eq_error_iff {ε α β : Type} {x : Except ε α} {f : α → Except ε β} {e : ε} :
    x >>= f = .error e ↔ x = .error e ∨ ∃ a, x = .ok a ∧ f a = .error e := by
  rcases x with e' | a
  · exact ⟨fun h ↦ Or.inl (congrArg Except.error (Except.error.inj h)),
      fun h ↦ h.elim (fun h ↦ congrArg Except.error (Except.error.inj h)) nofun⟩
  · refine ⟨fun h ↦ Or.inr ⟨a, rfl, h⟩, ?_⟩
    rintro (h | ⟨_, ⟨⟩, h⟩)
    · contradiction
    · exact h

theorem map_eq_error_iff {ε α β : Type} {x : Except ε α} {f : α → β} {e : ε} :
    x.map f = .error e ↔ x = .error e := by
  rcases x with e' | a
  · exact ⟨fun h ↦ congrArg Except.error (Except.error.inj h),
      fun h ↦ congrArg Except.error (Except.error.inj h)⟩
  · exact ⟨nofun, nofun⟩

/-- **A list is read when each of its parts is.** -/
theorem mapM_eq_ok_iff {ε α β : Type} {read : α → Except ε β} {l : List α} {m : List β} :
    l.mapM read = .ok m ↔ List.Forall₂ (fun a b ↦ read a = .ok b) l m := by
  induction l generalizing m with
  | nil =>
    rw [List.mapM_nil, List.forall₂_nil_left_iff]
    exact ⟨fun h ↦ (Except.ok.inj h).symm, fun h ↦ h ▸ rfl⟩
  | cons a l ih =>
    rw [List.mapM_cons, List.forall₂_cons_left_iff]
    simp only [bind_eq_ok_iff, ih]
    constructor
    · rintro ⟨b, hb, n, hn, hm⟩
      exact ⟨b, n, hb, hn, (Except.ok.inj hm).symm⟩
    · rintro ⟨b, n, hb, hn, rfl⟩
      exact ⟨b, hb, n, hn, rfl⟩

/-- **Where the reading of a list fails:** at its first part that cannot be read. -/
theorem mapM_eq_error_iff {ε α β : Type} {read : α → Except ε β} {l : List α} {e : ε} :
    l.mapM read = .error e ↔ ∃ before a after,
      l = before ++ a :: after ∧ (∀ x ∈ before, ∃ b, read x = .ok b) ∧ read a = .error e := by
  induction l with
  | nil =>
    rw [List.mapM_nil]
    refine ⟨nofun, ?_⟩
    rintro ⟨before, a, after, hl, -⟩
    simp at hl
  | cons x l ih =>
    rw [List.mapM_cons]
    simp only [bind_eq_error_iff, ih]
    constructor
    · rintro (hx | ⟨b, hb, ⟨before, a, after, rfl, hbefore, ha⟩ | ⟨m, -, hm⟩⟩)
      · exact ⟨[], x, l, rfl, List.forall_mem_nil _, hx⟩
      · exact ⟨x :: before, a, after, rfl, List.forall_mem_cons.2 ⟨⟨b, hb⟩, hbefore⟩, ha⟩
      · contradiction
    · rintro ⟨before, a, after, hl, hbefore, ha⟩
      rcases before with - | ⟨y, before⟩
      · obtain ⟨rfl, rfl⟩ := List.cons.inj hl
        exact Or.inl ha
      · obtain ⟨rfl, rfl⟩ := List.cons.inj hl
        obtain ⟨⟨b, hb⟩, hbefore⟩ := List.forall_mem_cons.1 hbefore
        exact Or.inr ⟨b, hb, Or.inl ⟨before, a, after, rfl, hbefore, ha⟩⟩

/-- A list is read by its inverse writing when each part is, wherever in the list it stands. -/
theorem mapM_zipIdx_eq_ok_iff {ε α β : Type} {read : α × Nat → Except ε β} {write : β → α}
    (hread : ∀ a n b, read (a, n) = .ok b ↔ a = write b) {l : List α} {m : List β} :
    l.zipIdx.mapM read = .ok m ↔ l = m.map write := by
  have hparts : (fun e b ↦ read e = .ok b) = fun (e : α × Nat) b ↦ e.1 = write b :=
    funext₂ fun e b ↦ propext (hread e.1 e.2 b)
  have hmap : List.Forall₂ (fun (e : α × Nat) b ↦ e.1 = write b) l.zipIdx m ↔
      List.Forall₂ (· = ·) (l.zipIdx.map Prod.fst) (m.map write) := by
    rw [List.forall₂_map_left_iff, List.forall₂_map_right_iff]
  rw [mapM_eq_ok_iff, hparts, hmap, List.zipIdx_map_fst, List.forall₂_eq_eq_eq]

/-- Where the reading of numbered parts fails: at the first part that cannot be read, which has as
many parts before it as its number says. -/
theorem mapM_zipIdx_eq_error_iff {ε α β : Type} {read : α × Nat → Except ε β} {p : α → Prop}
    (hread : ∀ a n, (∃ b, read (a, n) = .ok b) ↔ p a) {l : List α} {e : ε} :
    l.zipIdx.mapM read = .error e ↔ ∃ before a after,
      l = before ++ a :: after ∧ (∀ x ∈ before, p x) ∧ read (a, before.length) = .error e := by
  rw [mapM_eq_error_iff]
  constructor
  · intro hfails
    obtain ⟨numbered, entry, rest, hl, hnumbered, herror⟩ := hfails
    obtain ⟨before, tail, rfl, rfl, htail⟩ := List.zipIdx_eq_append_iff.1 hl
    obtain ⟨a, after, rfl, rfl, -⟩ := List.zipIdx_eq_cons_iff.1 htail.symm
    rw [Nat.zero_add] at herror
    refine ⟨before, a, after, rfl, fun x hx ↦ ?_, herror⟩
    obtain ⟨n, hn⟩ := List.mem_iff_getElem?.1 hx
    exact (hread x n).1 (hnumbered _ (List.mk_mem_zipIdx_iff_getElem?.2 hn))
  · intro hfails
    obtain ⟨before, a, after, rfl, hbefore, herror⟩ := hfails
    refine ⟨before.zipIdx, (a, before.length), after.zipIdx (before.length + 1), ?_, ?_, herror⟩
    · rw [List.zipIdx_append, List.zipIdx_cons, Nat.zero_add]
    · intro entry hentry
      exact (hread _ _).2 (hbefore _ (List.fst_mem_of_mem_zipIdx hentry))

theorem mapM_eq_some_iff {α β : Type} {read? : α → Option β} {l : List α} {m : List β} :
    l.mapM read? = some m ↔ List.Forall₂ (fun a b ↦ read? a = some b) l m := by
  induction l generalizing m with
  | nil =>
    rw [List.mapM_nil, List.forall₂_nil_left_iff]
    exact ⟨fun h ↦ (Option.some.inj h).symm, fun h ↦ h ▸ rfl⟩
  | cons a l ih =>
    rw [List.mapM_cons, List.forall₂_cons_left_iff]
    simp only [Option.bind_eq_bind, Option.bind_eq_some_iff, ih]
    constructor
    · rintro ⟨b, hb, n, hn, hm⟩
      exact ⟨b, n, hb, hn, (Option.some.inj hm).symm⟩
    · rintro ⟨b, n, hb, hn, rfl⟩
      exact ⟨b, hb, n, hn, rfl⟩

/-- What has been read was read from a part. -/
theorem exists_mem_of_forall₂ {α β : Type} {R : α → β → Prop} {l : List α} {m : List β}
    (hparts : List.Forall₂ R l m) : ∀ b ∈ m, ∃ a ∈ l, R a b := by
  induction hparts with
  | nil => exact nofun
  | cons hb _ ih =>
    refine List.forall_mem_cons.2 ⟨⟨_, List.mem_cons_self, hb⟩, fun b hm ↦ ?_⟩
    obtain ⟨a, ha, hab⟩ := ih b hm
    exact ⟨a, List.mem_cons_of_mem _ ha, hab⟩

/-- What holds of everything that can be read as a part holds of all parts that have been read. -/
theorem forall_of_mapM_eq_ok {ε α β : Type} {read : α → Except ε β} {l : List α} {m : List β}
    {p : β → Prop} (hp : ∀ a b, read a = .ok b → p b) (hread : l.mapM read = .ok m) :
    ∀ b ∈ m, p b := by
  intro b hb
  obtain ⟨a, -, hab⟩ := exists_mem_of_forall₂ (mapM_eq_ok_iff.1 hread) b hb
  exact hp a b hab

end TileRobot.Text
