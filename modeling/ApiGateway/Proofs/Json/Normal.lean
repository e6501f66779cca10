import ApiGateway.Json.Read
import ApiGateway.Proofs.Json.Members
import ApiGateway.Proofs.Number.Rounding

/-!
# Normal values

An object is a list of members, and is meant to have its keys in order; a float is meant to have the
one exponent that fits it. Values that are read are so. The reader works through a text with a stack
of open lists and objects, and every lexeme, and so every character, leaves normal values there.

## Main definitions

* `Json.Normal`: values whose objects are in order and whose floats are canonical.
* `Json.Reader.Normal`: readers that hold such values only.
* `Json.feedAll?`: the state of the reader behind a text.

## Main results

* `Json.Reader.normal_of_step?`, `Json.normal_of_feed?`: one lexeme and one character.
* `Json.normal_of_read?`: what is read is normal.
-/
namespace ApiGateway.Json

/-- A value whose objects have their keys in strictly increasing order, and whose floats are
canonical, at any depth. -/
inductive Normal : Json → Prop
  | null : Normal .null
  | bool (b : Bool) : Normal (.bool b)
  | int (n : ℤ) : Normal (.int n)
  | float {x : Binary64} (h : x.Canonical) : Normal (.float x)
  | str (text : String) : Normal (.str text)
  | arr {items : List Json} (h : ∀ item ∈ items, Normal item) : Normal (.arr items)
  | obj {members : List (String × Json)} (hkeys : (members.map (·.1)).Pairwise (· < ·))
      (h : ∀ m ∈ members, Normal m.2) : Normal (.obj members)

/-- The state behind a text. -/
def feedAll? (state : Reader × Fragment) (text : List Char) : Option (Reader × Fragment) :=
  text.foldlM feed? state

theorem feedAll?_cons (state : Reader × Fragment) (c : Char) (rest : List Char) :
    feedAll? state (c :: rest) = (feed? state c).bind (feedAll? · rest) := rfl

/-! ## What is read -/

/-- What is open holds normal values only. -/
def Frame.Normal : Frame → Prop
  | .list reversed => ∀ item ∈ reversed, item.Normal
  | .object members _ => (Json.obj members).Normal

/-- A reader that holds normal values only. -/
structure Reader.Normal (reader : Reader) : Prop where
  frames : ∀ frame ∈ reader.frames, frame.Normal
  result : ∀ value, reader.expected = .nothing value → value.Normal

/-- Setting a normal value in a normal object. -/
theorem Normal.insert {members : Members} {value : Json} (h : (Json.obj members).Normal)
    (hvalue : value.Normal) (key : String) : (Json.obj (members.insert key value)).Normal := by
  cases h with
  | obj hkeys hmembers =>
    refine .obj (Members.pairwise_keys_insert hkeys key value) fun m hm => ?_
    rcases Members.eq_or_mem_of_mem_insert hm with rfl | hm
    · exact hvalue
    · exact hmembers m hm

/-- A word is read as a normal value. -/
theorem normal_of_wordValue? {word : List Char} {value : Json}
    (h : wordValue? word = some value) : value.Normal := by
  unfold wordValue? at h
  split at h
  · obtain rfl := Option.some.inj h
    exact .null
  split at h
  · obtain rfl := Option.some.inj h
    exact .bool true
  split at h
  · obtain rfl := Option.some.inj h
    exact .bool false
  split at h
  · split at h
    · split at h
      · obtain rfl := Option.some.inj h
        exact .int _
      · obtain ⟨x, hx, rfl⟩ := Option.map_eq_some_iff.1 h
        exact .float (Binary64.canonical_of_ofDecimal? hx)
    · cases h
  · cases h

/-- So the lexeme of a word holds a normal value. -/
theorem normal_scalar {word : List Char} {value : Json} (h : wordValue? word = some value) :
    ∀ other, Lexeme.scalar value = .scalar other → other.Normal := by
  rintro other ⟨⟩
  exact normal_of_wordValue? h

namespace Reader
variable {frames : List Frame} {reader next : Reader} {l : Lexeme}

/-- Completing a normal value. -/
theorem normal_complete {value : Json} (hvalue : value.Normal)
    (hframes : ∀ frame ∈ frames, frame.Normal) : (complete value frames).Normal := by
  cases frames with
  | nil =>
    refine ⟨hframes, fun result hresult => ?_⟩
    obtain rfl := Expectation.nothing.inj hresult
    exact hvalue
  | cons frame outer =>
    obtain ⟨hframe, houter⟩ := List.forall_mem_cons.1 hframes
    cases frame with
    | list reversed =>
      have hlist : Frame.Normal (.list (value :: reversed)) :=
        List.forall_mem_cons.2 ⟨hvalue, hframe⟩
      exact ⟨List.forall_mem_cons.2 ⟨hlist, houter⟩, by simp [complete]⟩
    | object members key =>
      have hobject : Frame.Normal (.object (members.insert key value) key) :=
        Json.Normal.insert hframe hvalue key
      exact ⟨List.forall_mem_cons.2 ⟨hobject, houter⟩, by simp [complete]⟩

theorem normal_of_begin? (hframes : ∀ frame ∈ frames, frame.Normal)
    (hl : ∀ value, l = .scalar value → value.Normal) (h : begin? frames l = some next) :
    next.Normal := by
  cases l with
  | openList =>
    obtain rfl := Option.some.inj h
    exact ⟨List.forall_mem_cons.2 ⟨by simp [Frame.Normal], hframes⟩, by simp⟩
  | openObject =>
    obtain rfl := Option.some.inj h
    exact ⟨List.forall_mem_cons.2 ⟨.obj List.Pairwise.nil (by simp), hframes⟩, by simp⟩
  | text value =>
    obtain rfl := Option.some.inj h
    exact normal_complete (.str value) hframes
  | scalar value =>
    obtain rfl := Option.some.inj h
    exact normal_complete (hl value rfl) hframes
  | _ => cases h

theorem normal_of_close? (hframes : ∀ frame ∈ frames, frame.Normal)
    (h : close? frames l = some next) : next.Normal := by
  unfold close? at h
  split at h
  · obtain rfl := Option.some.inj h
    obtain ⟨hlist, houter⟩ := List.forall_mem_cons.1 hframes
    exact normal_complete (.arr fun item hitem => hlist item (List.mem_reverse.1 hitem)) houter
  · obtain rfl := Option.some.inj h
    obtain ⟨hobject, houter⟩ := List.forall_mem_cons.1 hframes
    exact normal_complete hobject houter
  · cases h

theorem normal_of_key? (hframes : ∀ frame ∈ frames, frame.Normal)
    (h : key? frames l = some next) : next.Normal := by
  unfold key? at h
  split at h
  · obtain rfl := Option.some.inj h
    obtain ⟨hobject, houter⟩ := List.forall_mem_cons.1 hframes
    exact ⟨List.forall_mem_cons.2 ⟨hobject, houter⟩, by simp⟩
  · cases h

/-- One lexeme keeps a reader normal. -/
theorem normal_of_step? (hreader : reader.Normal)
    (hl : ∀ value, l = .scalar value → value.Normal) (h : reader.step? l = some next) :
    next.Normal := by
  have hframes := hreader.frames
  unfold step? at h
  split at h
  · exact normal_of_begin? hframes hl h
  · exact normal_of_close? hframes h
  · exact normal_of_begin? hframes hl h
  · exact normal_of_key? hframes h
  · exact normal_of_close? hframes h
  · exact normal_of_key? hframes h
  · obtain rfl := Option.some.inj h
    exact ⟨hframes, by simp⟩
  · split at h
    · obtain rfl := Option.some.inj h
      exact ⟨hframes, by simp⟩
    · obtain rfl := Option.some.inj h
      exact ⟨hframes, by simp⟩
    · cases h
  · exact normal_of_close? hframes h
  · cases h

end Reader

/-- A punctuation character is no scalar. -/
theorem ne_scalar_of_punctuation? {c : Char} {l : Lexeme} (h : punctuation? c = some l) :
    ∀ value, l ≠ .scalar value := by
  rintro value rfl
  unfold punctuation? at h
  split_ifs at h <;> cases h

section Feed
variable {reader : Reader} {next : Reader × Fragment} {c : Char}

theorem normal_of_outside? (hreader : reader.Normal) (h : outside? reader c = some next) :
    next.1.Normal := by
  unfold outside? at h
  split at h
  · obtain rfl := Option.some.inj h
    exact hreader
  split at h
  · obtain rfl := Option.some.inj h
    exact hreader
  split at h
  · rename_i l hl
    obtain ⟨reader', hstep, rfl⟩ := Option.map_eq_some_iff.1 h
    exact Reader.normal_of_step? hreader
      (fun value hvalue => absurd hvalue (ne_scalar_of_punctuation? hl value)) hstep
  · obtain rfl := Option.some.inj h
    exact hreader

/-- One character keeps a reader normal. -/
theorem normal_of_feed? {part : Fragment} (hreader : reader.Normal)
    (h : feed? (reader, part) c = some next) : next.1.Normal := by
  cases part with
  | between => exact normal_of_outside? hreader h
  | word reversed =>
    simp only [feed?] at h
    split at h
    · obtain ⟨value, hvalue, h⟩ := Option.bind_eq_some_iff.1 h
      obtain ⟨reader', hstep, h⟩ := Option.bind_eq_some_iff.1 h
      exact normal_of_outside? (Reader.normal_of_step? hreader (normal_scalar hvalue) hstep) h
    · obtain rfl := Option.some.inj h
      exact hreader
  | text reversed high =>
    simp only [feed?] at h
    split at h
    · obtain rfl := Option.some.inj h
      exact hreader
    split at h
    · cases h
    split at h
    · obtain ⟨reader', hstep, rfl⟩ := Option.map_eq_some_iff.1 h
      exact Reader.normal_of_step? hreader (by simp) hstep
    split at h
    · cases h
    · obtain rfl := Option.some.inj h
      exact hreader
  | escape reversed high =>
    simp only [feed?] at h
    split at h
    · obtain rfl := Option.some.inj h
      exact hreader
    split at h
    · cases h
    · obtain ⟨d, -, rfl⟩ := Option.map_eq_some_iff.1 h
      exact hreader
  | hex reversed high value missing =>
    obtain ⟨digit, -, h⟩ := Option.bind_eq_some_iff.1 h
    dsimp only at h
    split at h
    · obtain ⟨p, -, rfl⟩ := Option.map_eq_some_iff.1 h
      exact hreader
    · obtain rfl := Option.some.inj h
      exact hreader

/-- So does a text. -/
theorem normal_of_feedAll? {state : Reader × Fragment} {text : List Char}
    (hreader : state.1.Normal) (h : feedAll? state text = some next) : next.1.Normal := by
  induction text generalizing state with
  | nil =>
    obtain rfl := Option.some.inj h
    exact hreader
  | cons c rest ih =>
    rw [feedAll?_cons] at h
    obtain ⟨state', hfeed, h⟩ := Option.bind_eq_some_iff.1 h
    exact ih (normal_of_feed? hreader hfeed) h

end Feed

/-- What is read is normal: its objects are in order, and its floats have the exponent that fits
them. -/
theorem normal_of_read? {text : String} {value : Json} (h : read? text = some value) :
    value.Normal := by
  obtain ⟨⟨reader, part⟩, hfeed, h⟩ := Option.bind_eq_some_iff.1 h
  have hreader : reader.Normal := normal_of_feedAll? ⟨by simp, by simp⟩ hfeed
  cases part with
  | between =>
    obtain ⟨frames, expected⟩ := reader
    cases expected with
    | nothing result =>
      obtain rfl := Option.some.inj h
      exact hreader.result _ rfl
    | _ => cases h
  | word reversed =>
    obtain ⟨word, hword, h⟩ := Option.bind_eq_some_iff.1 h
    obtain ⟨⟨frames, expected⟩, hstep, h⟩ := Option.bind_eq_some_iff.1 h
    have hnext := Reader.normal_of_step? hreader (normal_scalar hword) hstep
    cases expected with
    | nothing result =>
      obtain rfl := Option.some.inj h
      exact hnext.result _ rfl
    | _ => cases h
  | _ => cases h

end ApiGateway.Json
