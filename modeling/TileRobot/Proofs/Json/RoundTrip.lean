import TileRobot.Json.Reader
import TileRobot.Proofs.Json.Tokens

/-!
# Values and their compact forms

Reading the compact form of a value gives the value back (`read?_compact`). That is so for all
plain values: those with integers for numbers and with texts for strings and names. A decimal number
is kept by its text, which need not be one, and two lone halves of a surrogate pair would be joined
when they are read.

The proof follows a value through the reader. Wherever a value may stand, be it at the start, in an
array or after the name of a field (`Reader.AwaitsValue`), the reader takes the compact form of a
plain value and is then in the state after that value (`Value.ReadBack`). For an array this is an
induction over its elements, each with the mark that comes after it, and likewise for an object.
What is still open around the value, and the text after it, are arbitrary throughout.
-/

namespace TileRobot.Json

/-! ### One token after the other -/

/-- No token starts with a blank. -/
theorem readToken?_of_isSpace {c : Char} (hc : isSpace c = true) (s : List Char) :
    readToken? (c :: s) = none := by
  simp only [isSpace, Bool.or_eq_true, beq_iff_eq] at hc
  rcases hc with ((rfl | rfl) | rfl) | rfl <;> rfl

theorem readTokens?_of_readToken? {s rest : List Char} {t : Token}
    (hs : readToken? s = some (t, rest)) : readTokens? s = (readTokens? rest).map (t :: ·) := by
  rcases s with - | ⟨c, s⟩
  · contradiction
  · have hc : isSpace c = false := by
      by_contra hspace
      rw [readToken?_of_isSpace (Bool.not_eq_false _ ▸ hspace)] at hs
      contradiction
    rw [readTokens?, if_neg (by rw [hc]; exact Bool.false_ne_true)]
    split
    · rename_i h
      rw [hs] at h
      contradiction
    · rename_i h
      rw [hs] at h
      obtain ⟨rfl, rfl⟩ := Prod.mk.inj (Option.some.inj h)
      rfl

namespace Reader

/-- Takes all tokens of a text. -/
def readFrom? (r : Reader) (s : List Char) : Option Reader := (readTokens? s).bind r.run?

theorem readFrom?_nil (r : Reader) : r.readFrom? [] = some r := by
  rw [readFrom?, readTokens?]
  rfl

variable {r r' : Reader} {around : List Opening} {s rest : List Char} {t : Token}

/-- The first token of a text goes before the rest. -/
theorem readFrom?_of_take? (hs : readToken? s = some (t, rest)) (hr : r.take? t = some r') :
    r.readFrom? s = r'.readFrom? rest := by
  rw [readFrom?, readFrom?, readTokens?_of_readToken? hs]
  rcases readTokens? rest with - | tokens
  · rfl
  · show (t :: tokens).foldlM Reader.take? r = tokens.foldlM Reader.take? r'
    rw [List.foldlM_cons, hr]
    rfl

/-- The reader may meet a value, to be put into what is open around it. -/
def AwaitsValue (r : Reader) (around : List Opening) : Prop :=
  ∀ t, t ≠ .closeArray → r.take? t = takeValue? around t

theorem awaitsValue_value (around : List Opening) : (value around).AwaitsValue around :=
  fun _ _ ↦ rfl

theorem awaitsValue_item (around : List Opening) :
    (item around).AwaitsValue (.array [] :: around) := by
  intro t ht
  rw [Reader.take?]
  exact ht

/-- The reader may meet the name of a field, to be put into an object. -/
def AwaitsName (r : Reader) (before : List (List Letter × Value)) (around : List Opening) : Prop :=
  ∀ t, t ≠ .closeObject → r.take? t = takeName? before around t

theorem awaitsName_name (before : List (List Letter × Value)) (around : List Opening) :
    (name before around).AwaitsName before around :=
  fun _ _ ↦ rfl

theorem awaitsName_field (around : List Opening) : (field around).AwaitsName [] around := by
  intro t ht
  rw [Reader.take?]
  exact ht

end Reader

theorem read?_eq (text : String) :
    read? text = ((Reader.value []).readFrom? text.toList).bind Reader.result? := by
  rw [read?, Reader.readFrom?, Option.bind_assoc]
  rfl

/-! ### Values -/

namespace Value

/-- A value is plain when its numbers are integers and its strings and names are texts. -/
inductive Plain : Value → Prop where
  /-- The value `null`. -/
  | null : Plain .null
  /-- A truth value. -/
  | bool (b : Bool) : Plain (.bool b)
  /-- An integer. -/
  | integer (n : Int) : Plain (.integer n)
  /-- A text. -/
  | string (text : String) : Plain (.ofString text)
  /-- A list of plain values. -/
  | array {items : List Value} (inside : ∀ v ∈ items, Plain v) : Plain (.array items)
  /-- A record of plain values. -/
  | object {fields : List (String × Value)} (inside : ∀ f ∈ fields, Plain f.2) :
    Plain (.ofFields fields)

/-- Where a value may stand, the reader takes the compact form of this one, and then is after it. -/
def ReadBack (v : Value) : Prop :=
  ∀ (r : Reader) (around : List Opening) (rest : List Char), r.AwaitsValue around →
    EndsValue rest → r.readFrom? (v.compactChars ++ rest) = (Reader.done v around).readFrom? rest

theorem readBack_of_readToken? {v : Value}
    (hv : ∀ rest, EndsValue rest → readToken? (v.compactChars ++ rest) = some (.scalar v, rest)) :
    v.ReadBack := by
  intro r around rest hr hrest
  have htake := hr (.scalar v) nofun
  exact Reader.readFrom?_of_take? (hv rest hrest) htake

/-- The elements of an array are taken one after the other. -/
theorem readFrom?_compactItems {vs : List Value} {v : Value} (hv : ∀ w ∈ v :: vs, w.ReadBack)
    {r : Reader} {before : List Value} {around : List Opening}
    (hr : r.AwaitsValue (.array before :: around)) (rest : List Char) :
    r.readFrom? (compactItems (v :: vs) ++ ']' :: rest) =
      (Reader.done (.array (before.reverse ++ v :: vs)) around).readFrom? rest := by
  induction vs generalizing v before r with
  | nil =>
    have hlast := hv v List.mem_cons_self r _ _ hr (endsValue_cons (Or.inr (Or.inl rfl)) rest)
    rw [compactItems, hlast, Reader.readFrom?_of_take? (t := .closeArray) rfl rfl,
      List.reverse_cons]
  | cons w vs ih =>
    obtain ⟨hfirst, hothers⟩ := List.forall_mem_cons.1 hv
    have hnext := hfirst r _ _ hr
      (endsValue_cons (Or.inl rfl) (compactItems (w :: vs) ++ ']' :: rest))
    have hrest := ih hothers (Reader.awaitsValue_value (.array (v :: before) :: around))
    rw [compactItems, List.append_assoc, List.cons_append, hnext,
      Reader.readFrom?_of_take? (t := .comma) rfl rfl, hrest, List.reverse_cons, List.append_assoc,
      List.singleton_append]
    exact nofun

/-- A name and its colon are taken before the value of a field. -/
theorem readFrom?_field {v : Value} (hv : v.ReadBack) {r : Reader}
    {before : List (List Letter × Value)} {around : List Opening} (hr : r.AwaitsName before around)
    (name : String) {rest : List Char} (hrest : EndsValue rest) :
    r.readFrom? (renderString (letters name) ++ ':' :: (v.compactChars ++ rest)) =
      (Reader.done v (.object before (letters name) :: around)).readFrom? rest := by
  have htake := hr (.scalar (ofString name)) nofun
  rw [Reader.readFrom?_of_take? (readToken?_renderString name _) htake,
    Reader.readFrom?_of_take? (t := .colon) rfl rfl]
  exact hv _ _ _ (Reader.awaitsValue_value _) hrest

/-- The fields of an object are taken one after the other. -/
theorem readFrom?_compactFields {fs : List (String × Value)} {f : String × Value}
    (hf : ∀ g ∈ f :: fs, g.2.ReadBack) {r : Reader} {before : List (List Letter × Value)}
    {around : List Opening} (hr : r.AwaitsName before around) (rest : List Char) :
    r.readFrom?
        (compactFields ((f :: fs).map fun (name, v) ↦ (letters name, v)) ++ '\x7d' :: rest) =
      (Reader.done (.object (before.reverse ++ (f :: fs).map fun (name, v) ↦ (letters name, v)))
        around).readFrom? rest := by
  induction fs generalizing f before r with
  | nil =>
    obtain ⟨name, v⟩ := f
    have hlast := readFrom?_field (hf _ List.mem_cons_self) hr name
      (endsValue_cons (Or.inr (Or.inr rfl)) rest)
    rw [List.map_cons, List.map_nil, compactFields, List.append_assoc, List.cons_append, hlast,
      Reader.readFrom?_of_take? (t := .closeObject) rfl rfl, List.reverse_cons]
  | cons g fs ih =>
    obtain ⟨hfirst, hothers⟩ := List.forall_mem_cons.1 hf
    obtain ⟨name, v⟩ := f
    have hnext := readFrom?_field hfirst hr name (endsValue_cons (Or.inl rfl)
      (compactFields ((g :: fs).map fun (name, v) ↦ (letters name, v)) ++ '\x7d' :: rest))
    have hrest := ih hothers (Reader.awaitsName_name ((letters name, v) :: before) around)
    rw [List.map_cons, compactFields]
    · simp only [List.append_assoc, List.cons_append]
      rw [hnext, Reader.readFrom?_of_take? (t := .comma) rfl rfl, hrest, List.reverse_cons,
        List.append_assoc, List.singleton_append]
    · exact nofun

/-- **The compact form of a plain value is read back**, wherever a value may stand. -/
theorem Plain.readBack {v : Value} (hv : v.Plain) : v.ReadBack := by
  induction hv with
  | null => exact readBack_of_readToken? fun _ _ ↦ rfl
  | bool b => exact readBack_of_readToken? fun _ _ ↦ by cases b <;> rfl
  | integer n => exact readBack_of_readToken? fun _ hrest ↦ readToken?_renderInteger n hrest
  | string text => exact readBack_of_readToken? fun rest _ ↦ readToken?_renderString text rest
  | @array items _ ih =>
    intro r around rest hr _
    have hopen := hr .openArray nofun
    rw [compactChars, List.append_assoc, List.cons_append,
      Reader.readFrom?_of_take? (t := .openArray) rfl hopen]
    rcases items with - | ⟨v, vs⟩
    · exact Reader.readFrom?_of_take? (t := .closeArray) rfl rfl
    · exact readFrom?_compactItems ih (Reader.awaitsValue_item around) rest
  | @object fields _ ih =>
    intro r around rest hr _
    have hopen := hr .openObject nofun
    rw [ofFields, compactChars, List.append_assoc, List.cons_append,
      Reader.readFrom?_of_take? (t := .openObject) rfl hopen]
    rcases fields with - | ⟨f, fs⟩
    · exact Reader.readFrom?_of_take? (t := .closeObject) rfl rfl
    · exact readFrom?_compactFields ih (Reader.awaitsName_field around) rest

end Value

/-- **A plain value is read back from its compact form.** -/
theorem read?_compact {v : Value} (hv : v.Plain) : read? v.compact = some v := by
  have hchars := hv.readBack (.value []) [] [] (Reader.awaitsValue_value []) endsValue_nil
  rw [List.append_nil, Reader.readFrom?_nil] at hchars
  rw [read?_eq, Value.compact, String.toList_ofList, hchars]
  rfl

end TileRobot.Json
