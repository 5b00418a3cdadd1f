import TileRobot.Json.Decode
import TileRobot.Json.Reader
import TileRobot.Proofs.Text.Parts

/-!
# Values are no larger than their texts

No array in a value that was read from a text has more elements than the text has characters
(`bounded_of_read?`). Every element of an array takes at least one token and every token at least
one character, so this is a matter of counting: with each token that the reader takes, no array that
is open or complete gets longer by more than one (`Reader.Bounded.take?`).

The typed readings find their values inside the given one, so they inherit the bound
(`Value.Bounded.of_mem_asRecord?`, `Value.Bounded.length_le_of_asList?`).
-/

namespace TileRobot.Json

namespace Value

/-- A value is flat when it has no parts. -/
def Flat : Value → Prop
  | array _ => False
  | object _ => False
  | _ => True

/-- No array in a value has more than `n` elements. -/
inductive Bounded (n : Nat) : Value → Prop where
  /-- The value has no parts. -/
  | flat {v : Value} (parts : v.Flat) : Bounded n v
  /-- The value is an array of at most `n` elements. -/
  | array {items : List Value} (length : items.length ≤ n) (inside : ∀ v ∈ items, Bounded n v) :
    Bounded n (.array items)
  /-- The value is an object. -/
  | object {fields : List (List Letter × Value)} (inside : ∀ f ∈ fields, Bounded n f.2) :
    Bounded n (.object fields)

theorem Bounded.mono {m n : Nat} {v : Value} (hmn : m ≤ n) (hv : v.Bounded m) : v.Bounded n := by
  induction hv with
  | flat parts => exact .flat parts
  | array length _ ih => exact .array (Nat.le_trans length hmn) ih
  | object _ ih => exact .object ih

end Value

/-! ### The reader -/

variable {n : Nat}

theorem forall_bounded_succ {fields : List (List Letter × Value)}
    (hfields : ∀ f ∈ fields, f.2.Bounded n) : ∀ f ∈ fields, f.2.Bounded (n + 1) :=
  fun f hf ↦ (hfields f hf).mono n.le_succ

/-- No array in an array or object that is still open has more than `n` elements, nor has the open
array itself. -/
def Opening.Bounded (n : Nat) : Opening → Prop
  | array before => before.length ≤ n ∧ ∀ v ∈ before, v.Bounded n
  | object before _ => ∀ f ∈ before, f.2.Bounded n

theorem Opening.Bounded.mono {m : Nat} {o : Opening} (hmn : m ≤ n) (ho : o.Bounded m) :
    o.Bounded n := by
  rcases o with before | ⟨before, name⟩
  · exact ⟨Nat.le_trans ho.1 hmn, fun v hv ↦ (ho.2 v hv).mono hmn⟩
  · exact fun f hf ↦ (ho f hf).mono hmn

theorem Opening.forall_bounded_succ {around : List Opening} (haround : ∀ o ∈ around, o.Bounded n) :
    ∀ o ∈ around, o.Bounded (n + 1) :=
  fun o ho ↦ (haround o ho).mono n.le_succ

namespace Reader

/-- No array that is open or complete has more than `n` elements. -/
def Bounded (n : Nat) : Reader → Prop
  | value around => ∀ o ∈ around, o.Bounded n
  | item around => ∀ o ∈ around, o.Bounded n
  | field around => ∀ o ∈ around, o.Bounded n
  | name before around => (∀ f ∈ before, f.2.Bounded n) ∧ ∀ o ∈ around, o.Bounded n
  | colon before _ around => (∀ f ∈ before, f.2.Bounded n) ∧ ∀ o ∈ around, o.Bounded n
  | done v around => v.Bounded n ∧ ∀ o ∈ around, o.Bounded n

end Reader

/-- A token is flat when it is no value, or a value without parts. -/
def Token.Flat (t : Token) : Prop := ∀ v, t = .scalar v → v.Flat

namespace Reader

variable {r r' : Reader} {around : List Opening} {t : Token}

theorem bounded_of_takeValue? (haround : ∀ o ∈ around, o.Bounded n) (ht : t.Flat)
    (h : takeValue? around t = some r) : r.Bounded n := by
  cases t with
  | scalar v =>
    obtain rfl := Option.some.inj h
    exact ⟨.flat (ht v rfl), haround⟩
  | openArray =>
    obtain rfl := Option.some.inj h
    exact haround
  | openObject =>
    obtain rfl := Option.some.inj h
    exact haround
  | _ => contradiction

theorem bounded_of_takeName? {before : List (List Letter × Value)}
    (hbefore : ∀ f ∈ before, f.2.Bounded n) (haround : ∀ o ∈ around, o.Bounded n)
    (h : takeName? before around t = some r) : r.Bounded n := by
  simp only [takeName?] at h
  split at h
  · obtain rfl := Option.some.inj h
    exact ⟨hbefore, haround⟩
  · contradiction

/-- After a value the innermost array is longer by one, and it may be complete. -/
theorem bounded_of_takeEnd? {v : Value} (hv : v.Bounded n) (haround : ∀ o ∈ around, o.Bounded n)
    (h : takeEnd? v around t = some r) : r.Bounded (n + 1) := by
  have hv' := hv.mono n.le_succ
  rcases around with - | ⟨⟨before⟩ | ⟨before, key⟩, around⟩
  · contradiction
  · obtain ⟨⟨hlength, hbefore⟩, hrest⟩ := List.forall_mem_cons.1 haround
    have hitems : ∀ w ∈ v :: before, w.Bounded (n + 1) :=
      List.forall_mem_cons.2 ⟨hv', fun w hw ↦ (hbefore w hw).mono n.le_succ⟩
    have hrest' := Opening.forall_bounded_succ hrest
    cases t with
    | comma =>
      obtain rfl := Option.some.inj h
      exact List.forall_mem_cons.2 ⟨⟨Nat.succ_le_succ hlength, hitems⟩, hrest'⟩
    | closeArray =>
      obtain rfl := Option.some.inj h
      refine ⟨.array ?_ fun w hw ↦ hitems w (List.mem_reverse.1 hw), hrest'⟩
      rw [List.length_reverse]
      exact Nat.succ_le_succ hlength
    | _ => contradiction
  · obtain ⟨hbefore, hrest⟩ := List.forall_mem_cons.1 haround
    have hfields : ∀ f ∈ (key, v) :: before, f.2.Bounded (n + 1) :=
      List.forall_mem_cons.2 ⟨hv', forall_bounded_succ hbefore⟩
    have hrest' := Opening.forall_bounded_succ hrest
    cases t with
    | comma =>
      obtain rfl := Option.some.inj h
      exact ⟨hfields, hrest'⟩
    | closeObject =>
      obtain rfl := Option.some.inj h
      exact ⟨.object fun f hf ↦ hfields f (List.mem_reverse.1 hf), hrest'⟩
    | _ => contradiction

theorem Bounded.succ (hr : r.Bounded n) : r.Bounded (n + 1) := by
  rcases r with _ | _ | _ | _ | _ | _
  · exact Opening.forall_bounded_succ hr
  · exact Opening.forall_bounded_succ hr
  · exact Opening.forall_bounded_succ hr
  · exact ⟨forall_bounded_succ hr.1, Opening.forall_bounded_succ hr.2⟩
  · exact ⟨forall_bounded_succ hr.1, Opening.forall_bounded_succ hr.2⟩
  · exact ⟨hr.1.mono n.le_succ, Opening.forall_bounded_succ hr.2⟩

/-- **With each token no array gets longer by more than one element.** -/
theorem Bounded.take? (hr : r.Bounded n) (ht : t.Flat) (h : r.take? t = some r') :
    r'.Bounded (n + 1) := by
  simp only [Reader.take?] at h
  split at h
  · exact (bounded_of_takeValue? hr ht h).succ
  · obtain rfl := Option.some.inj h
    exact ⟨.array (Nat.zero_le _) nofun, Bounded.succ (r := .item _) hr⟩
  · have hopen : (Opening.array []).Bounded n := ⟨Nat.zero_le _, nofun⟩
    exact (bounded_of_takeValue? (List.forall_mem_cons.2 ⟨hopen, hr⟩) ht h).succ
  · obtain rfl := Option.some.inj h
    exact ⟨.object nofun, Bounded.succ (r := .field _) hr⟩
  · exact (bounded_of_takeName? (List.forall_mem_nil _) hr h).succ
  · exact (bounded_of_takeName? hr.1 hr.2 h).succ
  · obtain rfl := Option.some.inj h
    exact Bounded.succ (r := .value _) (List.forall_mem_cons.2 hr)
  · contradiction
  · exact bounded_of_takeEnd? hr.1 hr.2 h

/-- With a row of tokens no array gets longer by more than their number. -/
theorem Bounded.run? {tokens : List Token} (hr : r.Bounded n) (ht : ∀ t ∈ tokens, t.Flat)
    (h : r.run? tokens = some r') : r'.Bounded (n + tokens.length) := by
  induction tokens generalizing r n with
  | nil =>
    obtain rfl := Option.some.inj h
    exact hr
  | cons t tokens ih =>
    obtain ⟨hflat, hrest⟩ := List.forall_mem_cons.1 ht
    rw [Reader.run?, List.foldlM_cons] at h
    obtain ⟨q, hq, h⟩ := Option.bind_eq_some_iff.1 h
    rw [List.length_cons, Nat.add_comm tokens.length, ← Nat.add_assoc]
    exact ih (hr.take? hflat hq) hrest h

end Reader

/-! ### Tokens -/

theorem flat_numberOf (minus : Bool) (whole fraction exponent : List Char) :
    (numberOf minus whole fraction exponent).Flat := by
  simp only [numberOf]
  split <;> trivial

theorem flat_of_readToken? {s rest : List Char} {t : Token} (h : readToken? s = some (t, rest)) :
    t.Flat := by
  rintro v rfl
  simp only [readToken?] at h
  split at h
  case h_10 =>
    obtain ⟨⟨l, r⟩, -, he⟩ := Option.map_eq_some_iff.1 h
    cases he
    trivial
  case h_11 =>
    obtain ⟨⟨w, r⟩, hw, he⟩ := Option.map_eq_some_iff.1 h
    cases he
    simp only [readNumber?, Option.bind_eq_bind, Option.bind_eq_some_iff, Prod.exists] at hw
    obtain ⟨whole, s₁, -, fraction, s₂, -, exponent, s₃, -, hv⟩ := hw
    cases hv
    exact flat_numberOf _ _ _ _
  all_goals cases h <;> trivial

/-- The tokens of a text are flat, and each takes at least one character. -/
theorem flat_of_readTokens? {s : List Char} {tokens : List Token}
    (h : readTokens? s = some tokens) : (∀ t ∈ tokens, t.Flat) ∧ tokens.length ≤ s.length := by
  fun_induction readTokens? s generalizing tokens with
  | case1 =>
    obtain rfl := Option.some.inj h
    exact ⟨nofun, Nat.le_refl _⟩
  | case2 c s _ ih =>
    obtain ⟨hflat, hlength⟩ := ih h
    exact ⟨hflat, Nat.le_succ_of_le hlength⟩
  | case3 => contradiction
  | case4 c s _ t rest hread ih =>
    obtain ⟨tokens, htokens, rfl⟩ := Option.map_eq_some_iff.1 h
    obtain ⟨hflat, hlength⟩ := ih htokens
    have hlt := length_lt_of_readToken? hread
    refine ⟨List.forall_mem_cons.2 ⟨flat_of_readToken? hread, hflat⟩, ?_⟩
    rw [List.length_cons]
    omega

/-- **No array is longer than the text it was read from.** -/
theorem bounded_of_read? {text : String} {v : Value} (h : read? text = some v) :
    v.Bounded text.length := by
  obtain ⟨tokens, htokens, h⟩ := Option.bind_eq_some_iff.1 h
  obtain ⟨r, hrun, hresult⟩ := Option.bind_eq_some_iff.1 h
  obtain ⟨hflat, hlength⟩ := flat_of_readTokens? htokens
  have hstart : (Reader.value []).Bounded 0 := nofun
  have hr := hstart.run? hflat hrun
  rw [String.length_toList] at hlength
  rcases r with _ | _ | _ | _ | _ | ⟨w, - | _⟩
  case done.nil =>
    obtain rfl := Option.some.inj hresult
    exact hr.1.mono (by omega)
  all_goals contradiction

/-! ### Typed readings -/

namespace Value.Bounded

variable {v w : Value}

theorem of_mem_gather? {names : List String} {fields : List (List Letter × Value)}
    {vs : List (Option Value)} (hfields : ∀ f ∈ fields, f.2.Bounded n)
    (h : gather? names fields = some vs) (hw : some w ∈ vs) : w.Bounded n := by
  obtain ⟨named, hnamed, h⟩ := Option.bind_eq_some_iff.1 h
  obtain ⟨name, -, hname⟩ := Text.exists_mem_of_forall₂ (Text.mapM_eq_some_iff.1 h) _ hw
  split at hname
  · cases hname
  · rename_i key u hfilter
    obtain rfl := Option.some.inj (Option.some.inj hname)
    have hmem : (key, u) ∈ named := List.mem_of_mem_filter (hfilter ▸ List.mem_cons_self)
    obtain ⟨⟨letters, x⟩, hx, hread⟩ :=
      Text.exists_mem_of_forall₂ (Text.mapM_eq_some_iff.1 hnamed) _ hmem
    obtain ⟨m, -, he⟩ := Option.map_eq_some_iff.1 hread
    cases he
    exact hfields _ hx
  · contradiction

/-- The fields of a record are found inside it. -/
theorem of_mem_asRecord? {names : List String} {vs : List (Option Value)} (hv : v.Bounded n)
    (h : v.asRecord? names = some vs) (hw : some w ∈ vs) : w.Bounded n := by
  rcases hv with ⟨hflat⟩ | ⟨-, hitems⟩ | hfields
  · cases v <;> contradiction
  · simp only [asRecord?] at h
    split at h
    · obtain rfl := Option.some.inj h
      rcases List.mem_append.1 hw with hw | hw
      · obtain ⟨u, hu, he⟩ := List.mem_map.1 hw
        obtain rfl := Option.some.inj he
        exact hitems _ hu
      · exact absurd (List.eq_of_mem_replicate hw) (Option.some_ne_none w)
    · contradiction
  · exact of_mem_gather? hfields h hw

/-- A list that was read from an array is as long as it. -/
theorem length_le_of_asList? {α : Type} {read? : Value → Option α} {l : List α} (hv : v.Bounded n)
    (h : v.asList? read? = some l) : l.length ≤ n := by
  rcases hv with ⟨hflat⟩ | ⟨hlength, -⟩ | -
  · cases v <;> contradiction
  · exact (Text.mapM_eq_some_iff.1 h).length_eq ▸ hlength
  · contradiction

end Value.Bounded

end TileRobot.Json
