import ApiGateway.Proofs.Json.Normal
import ApiGateway.Proofs.Number.Numeral

/-!
# Reading what is written

The text of a value, one item a line, is read as the value. A text is read from left to right, so
this is a statement about what each part of it does to the lexemes and to the stack of open lists
and objects, whatever stands behind the part: a value that may come next is completed, blanks do
nothing, and further items and members go into the innermost frame. Objects come back in order, so
the value itself comes back when it is normal.

## Main definitions

* `Json.endsWord`, `Json.Parted`: the characters, and the texts, that end a word in front of them.
* `Json.ReadsAs`: what the text of a value is read as, at every level and place.

## Main results

* `Json.wordValue?_integerText`, `Json.wordValue?_text`: numbers.
* `Json.readsAs_str`, `Json.readsAs_arr`, `Json.readsAs_obj`: what is read of a string, of a list
  and of members in any order.
* `Json.Normal.readsAs`: normal values read back.
* `Json.read?_of_readsAs`, `Json.read?_pretty_of_read?`: whole texts.
-/
namespace ApiGateway.Json

/-! ## Words -/

/-- Whether a character ends a word in front of it. -/
def endsWord (c : Char) : Bool := isBlank c ∨ c = '\x22' ∨ (punctuation? c).isSome

/-- A text that begins with the end of a word. -/
def Parted (rest : List Char) : Prop := ∃ c ∈ rest.head?, endsWord c = true

/-- Blanks, quotes and punctuation end words. -/
theorem mem_of_endsWord {c : Char} (h : endsWord c = true) :
    c ∈ [' ', '\t', '\n', '\r', '\x22', '[', ']', '\x7b', '\x7d', ',', ':'] := by
  simp only [endsWord, isBlank, punctuation?, decide_eq_true_eq] at h
  rcases h with (rfl | rfl | rfl | rfl) | rfl | h
  iterate 5 simp
  split_ifs at h <;> simp_all

/-- No part of a numeral ends a word. -/
theorem endsWord_of_isPart {c : Char} (h : Numeral.IsPart c) : endsWord c = false := by
  refine Bool.eq_false_iff.2 fun hends => ?_
  have hmem := mem_of_endsWord hends
  simp only [List.mem_cons, List.not_mem_nil, or_false] at hmem
  rcases hmem with rfl | rfl | rfl | rfl | rfl | rfl | rfl | rfl | rfl | rfl | rfl <;>
    exact absurd h (by decide)

/-- What is read as a word has no character that ends it. -/
theorem endsWord_of_mem_word {word : List Char} {value : Json} (h : wordValue? word = some value) :
    ∀ c ∈ word, endsWord c = false := by
  have hname : ∀ name ∈ ["null", "true", "false"], ∀ c ∈ name.toList, endsWord c = false := by
    simp [endsWord, isBlank, punctuation?]
  unfold wordValue? at h
  split at h
  · rename_i hword
    exact hword ▸ hname "null" (by simp)
  split at h
  · rename_i hword
    exact hword ▸ hname "true" (by simp)
  split at h
  · rename_i hword
    exact hword ▸ hname "false" (by simp)
  split at h
  · rename_i n hn
    exact fun c hc => endsWord_of_isPart (Numeral.isPart_of_read? hn c hc)
  · cases h

/-- A numeral is none of the literal names. -/
theorem wordValue?_of_read? {word : List Char} {n : Numeral} (h : Numeral.read? word = some n)
    (hstrict : n.isStrict = true) :
    wordValue? word =
      if n.isInteger then
        some (.int (if n.isNegative then -(Numeral.ofDigits n.whole : ℤ)
          else Numeral.ofDigits n.whole))
      else n.toBinary64?.map .float := by
  have hname : ∀ name : String, Numeral.read? name.toList = none → word ≠ name.toList := by
    rintro name hnone rfl
    rw [hnone] at h
    cases h
  unfold wordValue?
  rw [if_neg (hname "null" rfl), if_neg (hname "true" rfl), if_neg (hname "false" rfl), h]
  dsimp only
  rw [if_pos hstrict]

theorem wordValue?_integerText (k : ℤ) : wordValue? (integerText k).toList = some (.int k) := by
  obtain ⟨n, hread, hstrict, hinteger, hvalue⟩ := read?_integerText k
  rw [wordValue?_of_read? hread hstrict, if_pos hinteger, hvalue]

theorem wordValue?_text {x : Binary64} (hx : x.Canonical) :
    wordValue? x.text.toList = some (.float x) := by
  obtain ⟨n, hread, hstrict, hinteger, hvalue⟩ := Binary64.read?_text hx
  rw [wordValue?_of_read? hread hstrict, hinteger, hvalue]
  rfl

/-! ## Lexemes -/

section Lexemes
variable {reader next : Reader} {rest : List Char}

/-- A blank does nothing between lexemes. -/
theorem feedAll?_blank {c : Char} (hc : isBlank c = true) :
    feedAll? (reader, .between) (c :: rest) = feedAll? (reader, .between) rest := by
  simp [feedAll?_cons, feed?, outside?, hc]

theorem feedAll?_indentation (level : ℕ) :
    feedAll? (reader, .between) ((indentation level).toList ++ rest) =
      feedAll? (reader, .between) rest := by
  have hspaces : ∀ k, feedAll? (reader, .between) (List.replicate k ' ' ++ rest) =
      feedAll? (reader, .between) rest := by
    intro k
    induction k with
    | zero => rfl
    | succ k ih =>
      rw [List.replicate_succ, List.cons_append, feedAll?_blank rfl, ih]
  have hline : (indentation level).toList = '\n' :: List.replicate (2 * level) ' ' := by
    simp [indentation]
  rw [hline, List.cons_append, feedAll?_blank rfl, hspaces]

/-- A punctuation character is a lexeme. -/
theorem feedAll?_punctuation {c : Char} {l : Lexeme} (hc : punctuation? c = some l)
    (hstep : reader.step? l = some next) :
    feedAll? (reader, .between) (c :: rest) = feedAll? (next, .between) rest := by
  have hplain : isBlank c = false ∧ c ≠ '\x22' := by
    constructor
    · refine Bool.eq_false_iff.2 fun hblank => ?_
      simp only [isBlank, decide_eq_true_eq] at hblank
      rcases hblank with rfl | rfl | rfl | rfl <;> cases hc
    · rintro rfl
      cases hc
  simp [feedAll?_cons, feed?, outside?, hplain, hc, hstep]

/-- A word ends at the first character that is no part of it, and is a lexeme then. -/
theorem feedAll?_word {word : List Char} {value : Json} (hvalue : wordValue? word = some value)
    (hstep : reader.step? (.scalar value) = some next) (hrest : Parted rest) :
    feedAll? (reader, .between) (word ++ rest) = feedAll? (next, .between) rest := by
  have hword := endsWord_of_mem_word hvalue
  have hmore : ∀ (chars reversed : List Char), (∀ c ∈ chars, endsWord c = false) →
      feedAll? (reader, .word reversed) (chars ++ rest) =
        feedAll? (reader, .word (chars.reverse ++ reversed)) rest := by
    intro chars
    induction chars with
    | nil => simp
    | cons c chars ih =>
      intro reversed hchars
      have hc := hchars c (by simp)
      rw [endsWord, decide_eq_false_iff_not] at hc
      rw [List.cons_append, feedAll?_cons]
      simp only [feed?, if_neg hc, Option.bind_some]
      rw [ih _ fun d hd => hchars d (List.mem_cons_of_mem _ hd)]
      simp
  cases word with
  | nil => cases hvalue
  | cons c chars =>
    have hfirst : feed? (reader, .between) c = some (reader, .word [c]) := by
      have hc := hword c (by simp)
      simp only [endsWord, decide_eq_false_iff_not, not_or, Option.not_isSome_iff_eq_none] at hc
      simp [feed?, outside?, hc]
    rw [List.cons_append, feedAll?_cons, hfirst, Option.bind_some,
      hmore chars _ fun d hd => hword d (List.mem_cons_of_mem _ hd)]
    -- the character behind the word hands it on and is then read as between lexemes
    obtain ⟨last, hhead, hlast⟩ := hrest
    obtain ⟨more, rfl⟩ := List.head?_eq_some_iff.1 hhead
    rw [endsWord, decide_eq_true_eq] at hlast
    rw [feedAll?_cons, feedAll?_cons]
    simp only [feed?, if_pos hlast]
    simp [hvalue, hstep]

/-- Four digits that stand for a control character are read as it. -/
theorem feedAll?_digits (reversed : List Char) {n : ℕ} (hn : n < 0x20) :
    feedAll? (reader, .hex reversed none 0 4) (Hexadecimal.digits 4 n ++ rest) =
      feedAll? (reader, .text (Char.ofNat n :: reversed) none) rest := by
  have hdigit : ∀ d < 16, Hexadecimal.digitValue? (Nat.digitChar d) = some d := by decide
  have hfront : n / 16 / 16 / 16 % 16 = 0 ∧ n / 16 / 16 % 16 = 0 ∧ n / 16 % 16 < 16 ∧
      n % 16 < 16 ∧ 16 * (n / 16 % 16) + n % 16 = n := by
    omega
  obtain ⟨hthousands, hhundreds, htens, hones, hvalue⟩ := hfront
  have hunit : unit? reversed none n = some (.text (Char.ofNat n :: reversed) none) := by
    rw [unit?, if_neg (by omega), if_neg (by omega)]
  simp [Hexadecimal.digits, hthousands, hhundreds, feedAll?_cons, feed?, hdigit _ htens,
    hdigit _ hones, hdigit 0 (by decide), hvalue, hunit]

/-- A character of a string is read as it is written. -/
theorem feedAll?_escape (reversed : List Char) (c : Char) :
    feedAll? (reader, .text reversed none) (escape c ++ rest) =
      feedAll? (reader, .text (c :: reversed) none) rest := by
  by_cases hshort : c ∈ ['\x22', '\\', '\x08', '\x0c', '\n', '\r', '\t']
  · simp only [List.mem_cons, List.not_mem_nil, or_false] at hshort
    rcases hshort with rfl | rfl | rfl | rfl | rfl | rfl | rfl <;> rfl
  · simp only [List.mem_cons, List.not_mem_nil, or_false, not_or] at hshort
    obtain ⟨hquote, hbackslash, hb, hf, hn, hr, ht⟩ := hshort
    by_cases hcontrol : c.toNat < 0x20
    · have hescape : escape c = '\\' :: 'u' :: Hexadecimal.digits 4 c.toNat := by
        simp [escape, hquote, hbackslash, hb, hf, hn, hr, ht, hcontrol]
      rw [hescape]
      refine (feedAll?_digits reversed hcontrol).trans ?_
      rw [Char.ofNat_toNat]
    · simp [escape, hquote, hbackslash, hb, hf, hn, hr, ht, hcontrol, feedAll?_cons, feed?]

/-- A string in quotes is a lexeme. -/
theorem feedAll?_quote {text : String} (hstep : reader.step? (.text text) = some next) :
    feedAll? (reader, .between) ((quote text).toList ++ rest) = feedAll? (next, .between) rest := by
  have hchars : ∀ chars reversed : List Char, feedAll? (reader, .text reversed none)
      (chars.flatMap escape ++ '\x22' :: rest) =
        feedAll? (reader, .text (chars.reverse ++ reversed) none) ('\x22' :: rest) := by
    intro chars
    induction chars with
    | nil => simp
    | cons c chars ih =>
      intro reversed
      rw [List.flatMap_cons, List.append_assoc, feedAll?_escape, ih]
      simp
  rw [quote, String.toList_ofList, List.cons_append, List.append_assoc, feedAll?_cons]
  refine (hchars text.toList []).trans ?_
  rw [feedAll?_cons]
  simp [feed?, hstep]

end Lexemes

/-! ## Values -/

/-- A reader that may go on with a value. -/
def Reader.Awaits (reader : Reader) : Prop :=
  reader.expected = .value ∨ reader.expected = .valueOrClose

/-- Every lexeme but the end of a list begins a value there. -/
theorem Reader.Awaits.step?_eq {reader : Reader} (h : reader.Awaits) {l : Lexeme}
    (hl : l ≠ .closeList) : reader.step? l = begin? reader.frames l := by
  obtain ⟨frames, expected⟩ := reader
  obtain rfl | rfl := h
  · rfl
  · cases l <;> first | rfl | exact absurd rfl hl

/-- What the text of a value is read as: wherever a value may come next and whatever stands behind
its text, at every level, it completes that value. -/
def ReadsAs (value result : Json) : Prop :=
  ∀ (level : ℕ) (reader : Reader) (rest : List Char), reader.Awaits → Parted rest →
    feedAll? (reader, .between) ((prettyAt level value).toList ++ rest) =
      feedAll? (Reader.complete result reader.frames, .between) rest

theorem parted_indentation (level : ℕ) (rest : List Char) :
    Parted ((indentation level).toList ++ rest) :=
  ⟨'\n', by simp [indentation], rfl⟩

/-- The text of a scalar is the word of it. -/
theorem readsAs_of_word {value : Json} {word : String} (htext : ∀ level, prettyAt level value = word)
    (hvalue : wordValue? word.toList = some value) : ReadsAs value value := by
  intro level reader rest hreader hrest
  rw [htext]
  exact feedAll?_word hvalue (hreader.step?_eq (by simp)) hrest

/-- A string is read as itself. -/
theorem readsAs_str (text : String) : ReadsAs (.str text) (.str text) := by
  intro level reader rest hreader hrest
  exact feedAll?_quote (hreader.step?_eq (by simp))

/-! ## Lists -/

theorem parted_moreItems (items : List Json) (inner level : ℕ) (rest : List Char) :
    Parted ((prettyMoreItems inner items).toList ++ ((indentation level).toList ++ rest)) := by
  cases items with
  | nil => exact parted_indentation level rest
  | cons item items => exact ⟨',', by simp [prettyMoreItems], rfl⟩

/-- Further items go into an open list, which ends behind them. -/
theorem feedAll?_moreItems {items : List Json} (h : ∀ item ∈ items, ReadsAs item item)
    (reversed : List Json) (outer : List Frame) (inner level : ℕ) (rest : List Char) :
    feedAll? (⟨.list reversed :: outer, .commaOrClose⟩, .between)
        ((prettyMoreItems inner items).toList ++ ((indentation level).toList ++ ']' :: rest)) =
      feedAll? (Reader.complete (.arr (reversed.reverse ++ items)) outer, .between) rest := by
  induction items generalizing reversed with
  | nil =>
    rw [prettyMoreItems, String.toList_empty, List.nil_append, feedAll?_indentation,
      feedAll?_punctuation (l := .closeList) rfl rfl, List.append_nil]
  | cons item items ih =>
    have htext : (prettyMoreItems inner (item :: items)).toList ++
        ((indentation level).toList ++ ']' :: rest) =
          ',' :: ((indentation inner).toList ++ ((prettyAt inner item).toList ++
            ((prettyMoreItems inner items).toList ++
              ((indentation level).toList ++ ']' :: rest)))) := by
      simp [prettyMoreItems]
    have hitem := h item (by simp) inner ⟨.list reversed :: outer, .value⟩ _ (Or.inl rfl)
      (parted_moreItems items inner level (']' :: rest))
    rw [htext, feedAll?_punctuation (l := .comma) rfl rfl, feedAll?_indentation, hitem]
    refine (ih (fun other hother => h other (List.mem_cons_of_mem _ hother)) (item :: reversed)).trans
      ?_
    rw [List.reverse_cons, List.append_assoc, List.singleton_append]

/-- A list is read as itself when its items are. -/
theorem readsAs_arr {items : List Json} (h : ∀ item ∈ items, ReadsAs item item) :
    ReadsAs (.arr items) (.arr items) := by
  intro level reader rest hreader hrest
  have hopen := hreader.step?_eq (l := .openList) (by simp)
  cases items with
  | nil =>
    have htext : (prettyAt level (.arr [])).toList = ['[', ']'] := by simp [prettyAt]
    rw [htext, List.cons_append, List.cons_append, List.nil_append,
      feedAll?_punctuation rfl hopen, feedAll?_punctuation (l := .closeList) rfl rfl]
    rfl
  | cons item items =>
    have htext : (prettyAt level (.arr (item :: items))).toList ++ rest =
        '[' :: ((indentation (level + 1)).toList ++ ((prettyAt (level + 1) item).toList ++
          ((prettyMoreItems (level + 1) items).toList ++
            ((indentation level).toList ++ ']' :: rest)))) := by
      simp [prettyAt]
    have hitem := h item (by simp) (level + 1) ⟨.list [] :: reader.frames, .valueOrClose⟩ _
      (Or.inr rfl) (parted_moreItems items (level + 1) level (']' :: rest))
    rw [htext, feedAll?_punctuation rfl hopen, feedAll?_indentation, hitem]
    exact feedAll?_moreItems (fun other hother => h other (List.mem_cons_of_mem _ hother)) [item] _
      _ _ _

/-! ## Objects -/

/-- A member goes into an open object. -/
theorem feedAll?_member {value : Json} (h : ReadsAs value value) {expected : Expectation}
    (hexpected : expected = .key ∨ expected = .keyOrClose) (members : Members) (last key : String)
    (outer : List Frame) (inner : ℕ) {rest : List Char} (hrest : Parted rest) :
    feedAll? (⟨.object members last :: outer, expected⟩, .between)
        ((quote key).toList ++ ':' :: ' ' :: ((prettyAt inner value).toList ++ rest)) =
      feedAll? (⟨.object (members.insert key value) key :: outer, .commaOrClose⟩, .between)
        rest := by
  have hkey : Reader.step? ⟨.object members last :: outer, expected⟩ (.text key) =
      some ⟨.object members key :: outer, .colon⟩ := by
    obtain rfl | rfl := hexpected <;> rfl
  rw [feedAll?_quote hkey, feedAll?_punctuation (l := .colon) rfl rfl, feedAll?_blank rfl]
  exact h inner ⟨.object members key :: outer, .value⟩ rest (Or.inl rfl) hrest

theorem parted_moreMembers (members : List (String × Json)) (inner level : ℕ) (rest : List Char) :
    Parted ((prettyMoreMembers inner members).toList ++ ((indentation level).toList ++ rest)) := by
  cases members with
  | nil => exact parted_indentation level rest
  | cons m members => exact ⟨',', by simp [prettyMoreMembers], rfl⟩

/-- Further members go into an open object, which ends behind them. -/
theorem feedAll?_moreMembers {more : List (String × Json)} (h : ∀ m ∈ more, ReadsAs m.2 m.2)
    (members : Members) (last : String) (outer : List Frame) (inner level : ℕ) (rest : List Char) :
    feedAll? (⟨.object members last :: outer, .commaOrClose⟩, .between)
        ((prettyMoreMembers inner more).toList ++ ((indentation level).toList ++ '\x7d' :: rest)) =
      feedAll? (Reader.complete (.obj (more.foldl (fun ms m => Members.insert ms m.1 m.2) members)) outer,
        .between) rest := by
  induction more generalizing members last with
  | nil =>
    rw [prettyMoreMembers, String.toList_empty, List.nil_append, feedAll?_indentation,
      feedAll?_punctuation (l := .closeObject) rfl rfl, List.foldl_nil]
  | cons m more ih =>
    have htext : (prettyMoreMembers inner (m :: more)).toList ++
        ((indentation level).toList ++ '\x7d' :: rest) =
          ',' :: ((indentation inner).toList ++ ((quote m.1).toList ++ ':' :: ' ' ::
            ((prettyAt inner m.2).toList ++ ((prettyMoreMembers inner more).toList ++
              ((indentation level).toList ++ '\x7d' :: rest))))) := by
      simp [prettyMoreMembers]
    have hmember := feedAll?_member (h m (by simp)) (Or.inl rfl) members last m.1 outer inner
      (parted_moreMembers more inner level ('\x7d' :: rest))
    rw [htext, feedAll?_punctuation (l := .comma) rfl rfl, feedAll?_indentation, hmember]
    exact ih (fun other hother => h other (List.mem_cons_of_mem _ hother)) _ _

/-- Members in any order are read as an object, when their values are read as themselves. -/
theorem readsAs_obj {members : List (String × Json)} (h : ∀ m ∈ members, ReadsAs m.2 m.2) :
    ReadsAs (.obj members) (.obj (Members.ofList members)) := by
  intro level reader rest hreader hrest
  have hopen := hreader.step?_eq (l := .openObject) (by simp)
  cases members with
  | nil =>
    have htext : (prettyAt level (.obj [])).toList = ['\x7b', '\x7d'] := by simp [prettyAt]
    rw [htext, List.cons_append, List.cons_append, List.nil_append,
      feedAll?_punctuation rfl hopen, feedAll?_punctuation (l := .closeObject) rfl rfl]
    rfl
  | cons m members =>
    have htext : (prettyAt level (.obj (m :: members))).toList ++ rest =
        '\x7b' :: ((indentation (level + 1)).toList ++ ((quote m.1).toList ++ ':' :: ' ' ::
          ((prettyAt (level + 1) m.2).toList ++ ((prettyMoreMembers (level + 1) members).toList ++
            ((indentation level).toList ++ '\x7d' :: rest))))) := by
      simp [prettyAt]
    have hmember := feedAll?_member (h m (by simp)) (Or.inr rfl) [] "" m.1 reader.frames (level + 1)
      (parted_moreMembers members (level + 1) level ('\x7d' :: rest))
    rw [htext, feedAll?_punctuation rfl hopen, feedAll?_indentation, hmember]
    exact feedAll?_moreMembers (fun other hother => h other (List.mem_cons_of_mem _ hother)) _ _ _ _
      _ _

/-! ## Normal values -/

/-- A normal value is read as itself. -/
theorem Normal.readsAs {value : Json} (h : value.Normal) : ReadsAs value value := by
  induction h with
  | null => exact readsAs_of_word (fun _ => rfl) rfl
  | bool b => cases b <;> exact readsAs_of_word (fun _ => rfl) rfl
  | int n => exact readsAs_of_word (fun _ => rfl) (wordValue?_integerText n)
  | float hx => exact readsAs_of_word (fun _ => rfl) (wordValue?_text hx)
  | str text => exact readsAs_str text
  | arr _ ih => exact readsAs_arr ih
  | obj hkeys _ ih =>
    have hobject := readsAs_obj ih
    rwa [Members.ofList_of_pairwise hkeys] at hobject

/-- A text with a line break behind it is read as what it is read as anywhere. -/
theorem read?_of_readsAs {value result : Json} (h : ReadsAs value result) :
    read? (value.pretty ++ "\n") = some result := by
  have htext := h 0 ⟨[], .value⟩ ['\n'] (Or.inl rfl) ⟨'\n', rfl, rfl⟩
  have hread : (value.pretty ++ "\n").toList.foldlM feed? (⟨[], .value⟩, .between) =
      some (⟨[], .nothing result⟩, .between) := by
    rw [String.toList_append]
    exact htext
  rw [read?, hread]
  rfl

/-- A value that is read is read again from its text. -/
theorem read?_pretty_of_read? {text : String} {value : Json} (h : read? text = some value) :
    read? (value.pretty ++ "\n") = some value :=
  read?_of_readsAs (normal_of_read? h).readsAs

end ApiGateway.Json
