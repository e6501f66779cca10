import ApiGateway.Compilation.Compile
import ApiGateway.Proofs.Compilation.Plan
import Mathlib

/-!
# Base names decode

A slug has lower-case letters, digits and hyphens only, whatever the romanization. So the
separator of base names occurs in no slug, and the runs of a base name between separators are the
slugs it was made of.

## Main definitions

* `Naming.runs`: the maximal runs of characters with a property.
* `Naming.isSlugChar`: the characters of slugs.
* `Naming.parts`: the runs of a base name between separators.

## Main results

* `Naming.slugChars_eq`: a slug is the words of its text in lower case, joined by hyphens.
* `Naming.isSlugChar_of_mem_slug`: the characters of slugs.
-/
namespace ApiGateway.Naming

/-! ## Runs -/

/-- Puts a run that is not empty in front of others. -/
def consRun (run : List Char) (runs : List (List Char)) : List (List Char) :=
  if run = [] then runs else run :: runs

/-- The run at the start of a text, which may be empty, and the runs after it. -/
def splitRuns (p : Char → Bool) : List Char → List Char × List (List Char)
  | [] => ([], [])
  | c :: rest =>
    let (run, runs) := splitRuns p rest
    if p c then (c :: run, runs) else ([], consRun run runs)

/-- The maximal runs of characters with a property. -/
def runs (p : Char → Bool) (cs : List Char) : List (List Char) :=
  let (run, more) := splitRuns p cs
  consRun run more

section Runs
variable {p : Char → Bool}

theorem consRun_append (run : List Char) (front back : List (List Char)) :
    consRun run (front ++ back) = consRun run front ++ back := by
  unfold consRun
  split <;> rfl

/-- A character without the property ends the runs before it and starts the runs after it. -/
theorem splitRuns_append_cons {c : Char} (hc : p c = false) (front back : List Char) :
    splitRuns p (front ++ c :: back) =
      ((splitRuns p front).1, (splitRuns p front).2 ++ runs p back) := by
  induction front with
  | nil => simp [splitRuns, runs, hc]
  | cons d front ih =>
    rw [List.cons_append, splitRuns, ih, splitRuns]
    cases p d with
    | true => rfl
    | false => simp [consRun_append]

/-- The runs of a text are those before and those after a character without the property. -/
theorem runs_append_cons {c : Char} (hc : p c = false) (front back : List Char) :
    runs p (front ++ c :: back) = runs p front ++ runs p back := by
  rw [runs, splitRuns_append_cons hc, runs]
  exact consRun_append _ _ _

/-- A text whose characters all have the property is one run. -/
theorem runs_of_forall {cs : List Char} (h : ∀ c ∈ cs, p c = true) (hne : cs ≠ []) :
    runs p cs = [cs] := by
  have hsplit : splitRuns p cs = (cs, []) := by
    clear hne
    induction cs with
    | nil => rfl
    | cons c cs ih =>
      rw [splitRuns, ih fun d hd => h d (by simp [hd])]
      simp [h c (by simp)]
  rw [runs, hsplit]
  simp [consRun, hne]

/-- Every character of a run has the property. -/
theorem forall_of_mem_splitRuns (cs : List Char) :
    (∀ c ∈ (splitRuns p cs).1, p c = true) ∧ ∀ run ∈ (splitRuns p cs).2, ∀ c ∈ run, p c = true := by
  induction cs with
  | nil => simp [splitRuns]
  | cons c cs ih =>
    obtain ⟨hfirst, hrest⟩ := ih
    rw [splitRuns]
    cases hc : p c with
    | true =>
      refine ⟨?_, hrest⟩
      simpa [hc] using hfirst
    | false =>
      refine ⟨by simp, ?_⟩
      simp only [Bool.false_eq_true, if_false, consRun]
      split
      · exact hrest
      · exact List.forall_mem_cons.2 ⟨hfirst, hrest⟩

theorem forall_of_mem_runs {cs run : List Char} (h : run ∈ runs p cs) : ∀ c ∈ run, p c = true := by
  obtain ⟨hfirst, hrest⟩ := forall_of_mem_splitRuns (p := p) cs
  simp only [runs, consRun] at h
  split at h
  · exact hrest run h
  · rcases List.mem_cons.1 h with rfl | h
    · exact hfirst
    · exact hrest run h

/-- The runs of a text are its characters with the property, in order. -/
theorem flatten_runs (cs : List Char) : (runs p cs).flatten = cs.filter p := by
  have hcons : ∀ run more, (consRun run more).flatten = run ++ more.flatten := by
    intro run more
    unfold consRun
    split <;> simp [*]
  rw [runs, hcons]
  induction cs with
  | nil => rfl
  | cons c cs ih =>
    rw [splitRuns]
    cases hc : p c with
    | true => simpa [hc] using ih
    | false => simpa [hc, hcons] using ih

end Runs

/-! ## The words of slugs -/

/-- A list of words with a first one is joined by what is in front of all others. -/
theorem intercalate_cons_eq (sep word : List Char) (words : List (List Char)) :
    List.intercalate sep (word :: words) = word ++ words.flatMap (sep ++ ·) := by
  induction words generalizing word with
  | nil => simp
  | cons next words ih => simp [List.intercalate_cons_cons, ih]

/-- A run in lower case. -/
def lowerRun (run : List Char) : List Char := run.map Char.toLower

/-- A slug that has been started goes on with the word it ends with, or with a new word where
something has been left out, and has a hyphen in front of every further word. -/
theorem foldl_push_of_ne_nil {written : List Char} (hne : written ≠ []) (gap : Bool)
    (cs : List Char) : (cs.foldl SlugScan.push ⟨written, gap⟩).reversed.reverse =
      written.reverse ++
        if gap then (runs Char.isAlphanum cs).flatMap fun run => '-' :: lowerRun run
        else lowerRun (splitRuns Char.isAlphanum cs).1 ++
          (splitRuns Char.isAlphanum cs).2.flatMap fun run => '-' :: lowerRun run := by
  induction cs generalizing written gap with
  | nil => cases gap <;> simp [runs, splitRuns, consRun, lowerRun]
  | cons c cs ih =>
    rw [List.foldl_cons, runs, splitRuns]
    cases hc : c.isAlphanum with
    | true =>
      rw [SlugScan.push, if_pos hc, ih (List.cons_ne_nil _ _)]
      cases gap <;> simp [consRun, lowerRun, hne]
    | false =>
      rw [SlugScan.push, if_neg (by simp [hc]), ih hne]
      cases gap <;> simp [consRun, runs, lowerRun]

/-- A slug without characters so far gets no hyphen in front of its first word. -/
theorem foldl_push_of_nil (gap : Bool) (cs : List Char) :
    (cs.foldl SlugScan.push ⟨[], gap⟩).reversed.reverse =
      List.intercalate ['-'] ((runs Char.isAlphanum cs).map lowerRun) := by
  induction cs generalizing gap with
  | nil => rfl
  | cons c cs ih =>
    rw [List.foldl_cons, runs, splitRuns]
    cases hc : c.isAlphanum with
    | true =>
      rw [SlugScan.push, if_pos hc, foldl_push_of_ne_nil (by simp) false]
      simp [consRun, lowerRun, intercalate_cons_eq, List.flatMap_map]
    | false =>
      rw [SlugScan.push, if_neg (by simp [hc]), ih true]
      simp [consRun, runs]

/-- The slug of a text is the words of its romanized form in lower case, joined by hyphens. -/
theorem slugChars_eq (naming : Naming) (cs : List Char) : naming.slugChars cs =
    List.intercalate ['-']
      ((runs Char.isAlphanum (cs.flatMap naming.romanize)).map (·.map Char.toLower)) :=
  foldl_push_of_nil false _

/-! ## The alphabet of slugs -/

/-- The characters of slugs: lower-case letters, digits and the hyphen. -/
def isSlugChar (c : Char) : Bool := c.isLower || c.isDigit || c == '-'

theorem toLower_eq_of_isLower_or_isDigit {c : Char} (h : c.isLower = true ∨ c.isDigit = true) :
    c.toLower = c := by
  refine Char.toLower_eq_of_not_isUpper fun hupper => ?_
  simp only [Char.isUpper, Char.isLower, Char.isDigit, ge_iff_le, Bool.and_eq_true,
    decide_eq_true_eq, UInt32.le_iff_toNat_le] at hupper h
  have hbounds : 'A'.val.toNat = 65 ∧ 'Z'.val.toNat = 90 ∧ 'a'.val.toNat = 97 ∧
    '9'.val.toNat = 57 := ⟨rfl, rfl, rfl, rfl⟩
  omega

theorem isSlugChar_toLower {c : Char} (h : c.isAlphanum = true) :
    isSlugChar c.toLower = true := by
  simp only [isSlugChar, Char.isLower_toLower_eq_isAlpha]
  rcases (Bool.or_eq_true _ _).mp h with halpha | hdigit
  · simp [halpha]
  · simp [toLower_eq_of_isLower_or_isDigit (Or.inr hdigit), hdigit]

/-- What stands in a joined list stands in what joins it or in one of its parts. -/
theorem mem_of_mem_intercalate {sep : List Char} {parts : List (List Char)} {c : Char}
    (h : c ∈ List.intercalate sep parts) : c ∈ sep ∨ ∃ part ∈ parts, c ∈ part := by
  induction parts with
  | nil => cases h
  | cons part parts ih =>
    cases parts with
    | nil => exact Or.inr ⟨part, List.mem_cons_self, by simpa using h⟩
    | cons next parts =>
      rw [List.intercalate_cons_cons, List.append_assoc, List.mem_append, List.mem_append] at h
      rcases h with h | h | h
      · exact Or.inr ⟨part, List.mem_cons_self, h⟩
      · exact Or.inl h
      · obtain hsep | ⟨other, hother, hc⟩ := ih h
        · exact Or.inl hsep
        · exact Or.inr ⟨other, List.mem_cons_of_mem _ hother, hc⟩

/-- Every character of a slug is one of slugs, for any romanization. -/
theorem isSlugChar_of_mem_slugChars {naming : Naming} {cs : List Char} {c : Char}
    (h : c ∈ naming.slugChars cs) : isSlugChar c = true := by
  rw [slugChars_eq] at h
  obtain hsep | ⟨word, hword, hc⟩ := mem_of_mem_intercalate h
  · obtain rfl := List.mem_singleton.1 hsep
    rfl
  · obtain ⟨run, hrun, rfl⟩ := List.mem_map.1 hword
    obtain ⟨d, hd, rfl⟩ := List.mem_map.1 hc
    exact isSlugChar_toLower (forall_of_mem_runs hrun d hd)

theorem isSlugChar_of_mem_slug {naming : Naming} {part : String} {c : Char}
    (h : c ∈ (naming.slug part).toList) : isSlugChar c = true := by
  simp only [slug, String.toList_ofList] at h
  exact isSlugChar_of_mem_slugChars h

/-- What stands in a part of a joined list stands in the list. -/
theorem mem_intercalate {sep part : List Char} {parts : List (List Char)} (hpart : part ∈ parts)
    {c : Char} (hc : c ∈ part) : c ∈ List.intercalate sep parts := by
  induction parts with
  | nil => cases hpart
  | cons first rest ih =>
    cases rest with
    | nil => simpa using List.mem_singleton.1 hpart ▸ hc
    | cons second rest =>
      rw [List.intercalate_cons_cons, List.mem_append, List.mem_append]
      rcases List.mem_cons.1 hpart with rfl | hpart
      · exact Or.inl (Or.inl hc)
      · exact Or.inr (ih hpart)

theorem intercalate_ne_nil {sep part : List Char} {parts : List (List Char)}
    (hpart : part ∈ parts) (hne : part ≠ []) : List.intercalate sep parts ≠ [] := by
  obtain ⟨c, hc⟩ := List.exists_mem_of_ne_nil part hne
  exact List.ne_nil_of_mem (mem_intercalate hpart hc)

/-- A text with a letter or digit that is spelled as it stands has a slug. -/
theorem slug_ne_empty {naming : Naming} {part : String} {c : Char} (hc : c ∈ part.toList)
    (hword : c.isAlphanum = true) (hspell : naming.romanize c = [c]) : naming.slug part ≠ "" := by
  have hrun : c ∈ (runs Char.isAlphanum (part.toList.flatMap naming.romanize)).flatten := by
    rw [flatten_runs, List.mem_filter, List.mem_flatMap]
    exact ⟨⟨c, hc, by simp [hspell]⟩, hword⟩
  obtain ⟨run, hrun, hmem⟩ := List.mem_flatten.1 hrun
  have hlower : c.toLower ∈ naming.slugChars part.toList := by
    rw [slugChars_eq]
    exact mem_intercalate (List.mem_map_of_mem hrun) (List.mem_map_of_mem hmem)
  intro hempty
  rw [slug, String.ofList_eq_empty_iff] at hempty
  rw [hempty] at hlower
  cases hlower

/-! ## Parts -/

/-- The runs of a base name between separators. -/
def parts (name : String) : List String := (runs (· ≠ '_') name.toList).map String.ofList

@[simp] theorem parts_empty : parts "" = [] := rfl

/-- A text without separators is its only part. -/
theorem parts_of_forall {name : String} (h : ∀ c ∈ name.toList, c ≠ '_') (hne : name ≠ "") :
    parts name = [name] := by
  have hnil : name.toList ≠ [] := by simpa using hne
  rw [parts, runs_of_forall (by simpa using h) hnil]
  simp

/-- A separator divides the parts. -/
theorem parts_append (front back : String) :
    parts (front ++ String.singleton '_' ++ back) = parts front ++ parts back := by
  simp only [parts, String.toList_append, String.toList_singleton, List.append_assoc,
    List.singleton_append]
  rw [runs_append_cons (by decide), List.map_append]

theorem ne_separator_of_mem_slug {naming : Naming} {part : String} :
    ∀ c ∈ (naming.slug part).toList, c ≠ '_' := by
  rintro c hc rfl
  exact absurd (isSlugChar_of_mem_slug hc) (by decide)

/-- A scope with a slug has a longer base name than its parent. -/
theorem length_lt_extend {naming : Naming} {child : String} (h : naming.slug child ≠ "")
    (parent : String) : parent.length < (naming.extend parent child).length := by
  have hpos : (naming.slug child).length ≠ 0 := by simpa using h
  by_cases hparent : parent = ""
  · rw [extend, if_neg h, if_pos hparent, hparent, String.length_empty]
    omega
  · rw [extend, if_neg h, if_neg hparent, String.length_append, String.length_append]
    omega

/-- The parts of the name of a child are those of its parent, followed by its slug if it has
one. -/
theorem parts_extend {naming : Naming} (hnested : naming.flat = false) (parent child : String) :
    parts (naming.extend parent child) =
      parts parent ++ [naming.slug child].filter (· ≠ "") := by
  by_cases hslug : naming.slug child = ""
  · rw [extend_of_slug_eq_empty hslug, hslug]
    simp
  · have hown := parts_of_forall (@ne_separator_of_mem_slug naming child) hslug
    by_cases hparent : parent = ""
    · simp [extend, hslug, hparent, hown]
    · simp only [extend, hslug, hparent, if_false, separator, hnested, Bool.false_eq_true]
      rw [parts_append, hown]
      simp [hslug]

/-- The parts of a numbered name are those of the name, followed by the number. -/
theorem parts_numbered {naming : Naming} (hnested : naming.flat = false) (name : String)
    (number : ℕ) :
    parts (name ++ String.singleton naming.separator ++ toString number) =
      parts name ++ [toString number] := by
  have hdigits : ∀ c ∈ (toString number).toList, c ≠ '_' := by
    rintro c hc rfl
    simp at hc
  have hne : toString number ≠ "" := by simp
  simp only [separator, hnested, Bool.false_eq_true, if_false]
  rw [parts_append, parts_of_forall hdigits hne]

/-! ## Names without dots -/

/-- A name without dots, so that a dot ends it. -/
def DotFree (name : String) : Prop := '.' ∉ name.toList

theorem dotFree_slug (naming : Naming) (part : String) : DotFree (naming.slug part) := by
  intro h
  exact absurd (isSlugChar_of_mem_slug h) (by decide)

theorem DotFree.append_separator {front back : String} (hfront : DotFree front)
    (hback : DotFree back) (naming : Naming) :
    DotFree (front ++ String.singleton naming.separator ++ back) := by
  have hseparator : '.' ≠ naming.separator := by
    unfold separator
    split <;> decide
  simp only [DotFree, String.toList_append, String.toList_singleton, List.mem_append,
    List.mem_singleton, not_or]
  exact ⟨⟨hfront, hseparator⟩, hback⟩

theorem DotFree.extend {parent : String} (h : DotFree parent) (naming : Naming) (child : String) :
    DotFree (naming.extend parent child) := by
  have hslug := dotFree_slug naming child
  simp only [Naming.extend]
  split
  · exact h
  · split
    · exact hslug
    · exact h.append_separator hslug naming

theorem DotFree.numbered {name : String} (h : DotFree name) (naming : Naming) (number : ℕ) :
    DotFree (name ++ String.singleton naming.separator ++ toString number) := by
  refine h.append_separator ?_ naming
  intro hdot
  have hdigits : '.' ∈ Nat.toDigits 10 number := by simpa using hdot
  exact absurd (Nat.isDigit_of_mem_toDigits (by decide) (by decide) hdigits) (by decide)

/-- What stands before the first dot and what stands after it are determined. -/
theorem DotFree.append_inj {name other kind kind' : String} (hname : DotFree name)
    (hother : DotFree other) (h : name ++ "." ++ kind = other ++ "." ++ kind') :
    name = other ∧ kind = kind' := by
  have hlist : ∀ {a b s t : List Char}, '.' ∉ a → '.' ∉ b → a ++ '.' :: s = b ++ '.' :: t →
      a = b ∧ s = t := by
    intro a b s t ha hb heq
    induction a generalizing b with
    | nil =>
      cases b with
      | nil => exact ⟨rfl, (List.cons.inj heq).2⟩
      | cons d b => exact absurd (List.cons.inj heq).1 fun hd => hb (hd ▸ List.mem_cons_self)
    | cons c a ih =>
      cases b with
      | nil => exact absurd (List.cons.inj heq).1 fun hc => ha (hc ▸ List.mem_cons_self)
      | cons d b =>
        obtain ⟨rfl, htail⟩ := List.cons.inj heq
        obtain ⟨rfl, rfl⟩ := ih (fun h => ha (by simp [h])) (fun h => hb (by simp [h])) htail
        exact ⟨rfl, rfl⟩
  have hchars := congrArg String.toList h
  simp only [String.toList_append, List.append_assoc] at hchars
  obtain ⟨hfront, hback⟩ := hlist hname hother hchars
  exact ⟨String.toList_inj.1 hfront, String.toList_inj.1 hback⟩

/-- A list of one part is joined to its slug. -/
theorem slugify_singleton (naming : Naming) (part : String) :
    naming.slugify [part] = naming.slug part := by
  by_cases h : naming.slugChars part.toList = []
  · simp [slugify, slug, h]
  · simp [slugify, slug, h]

end ApiGateway.Naming

namespace ApiGateway

/-- The base name of a document is the slug of a name that has one, or that of an identifier. -/
theorem Document.baseName_cases {doc : Document} {options : Options} {fresh : Uuid}
    {base : String} (h : doc.baseName options fresh = .ok base) :
    (base ≠ "" ∧ ∃ name, base = options.naming.slug name) ∨
      ∃ id : Uuid, base = options.naming.slug id.text := by
  have hgiven : ∀ name, base = (if options.naming.slugify [name] = "" then
      options.naming.slugify [(options.nameId options.space name).text]
      else options.naming.slugify [name]) →
      (base ≠ "" ∧ ∃ name, base = options.naming.slug name) ∨
        ∃ id : Uuid, base = options.naming.slug id.text := by
    intro name hbase
    rw [Naming.slugify_singleton, Naming.slugify_singleton] at hbase
    split at hbase
    · exact Or.inr ⟨_, hbase⟩
    · rename_i hne
      exact Or.inl ⟨hbase ▸ hne, name, hbase⟩
  simp only [Document.baseName] at h
  cases hname : options.documentName with
  | some name =>
    simp only [hname] at h
    exact hgiven name (Except.ok.inj h).symm
  | none =>
    simp only [hname] at h
    obtain ⟨chosen, -, h⟩ := bind_eq_ok_iff.1 h
    cases hfound : (chosen <|> doc.title?) with
    | some name =>
      simp only [hfound] at h
      exact hgiven name (Except.ok.inj h).symm
    | none =>
      simp only [hfound] at h
      obtain rfl := Except.ok.inj h
      exact Or.inr ⟨fresh, Naming.slugify_singleton _ _⟩

/-- The base name of a document is a slug. -/
theorem Document.exists_slug_of_baseName {doc : Document} {options : Options} {fresh : Uuid}
    {base : String} (h : doc.baseName options fresh = .ok base) :
    ∃ text, base = options.naming.slug text := by
  obtain ⟨-, name, hname⟩ | ⟨id, hid⟩ := baseName_cases h
  · exact ⟨name, hname⟩
  · exact ⟨id.text, hid⟩

/-- An identifier starts with a letter or digit. -/
theorem Uuid.exists_alphanum (u : Uuid) : ∃ c ∈ u.text.toList, c.isAlphanum = true := by
  have hdigit : ∀ n < 16, (Nat.digitChar n).isAlphanum = true := by decide
  have hdigits : ∀ width n, ∀ c ∈ Hexadecimal.digits width n, c.isAlphanum = true := by
    intro width
    induction width with
    | zero => simp [Hexadecimal.digits]
    | succ width ih =>
      intro n c hc
      rcases List.mem_append.1 hc with hc | hc
      · exact ih _ c hc
      · rw [List.mem_singleton.1 hc]
        exact hdigit _ (Nat.mod_lt _ (by decide))
  obtain ⟨c, rest, hcons⟩ : ∃ c rest, u.digits = c :: rest :=
    List.exists_cons_of_length_eq_add_one (Hexadecimal.length_digits 32 _)
  refine ⟨c, ?_, hdigits 32 u.bits.toNat c ?_⟩
  · rw [text, String.toList_ofList, hyphenate, hcons]
    exact Naming.mem_intercalate List.mem_cons_self (by simp)
  · rw [show Hexadecimal.digits 32 u.bits.toNat = c :: rest from hcons]
    exact List.mem_cons_self

/-- A romanization that keeps the letters and digits of ASCII leaves no document without a name. -/
theorem Document.baseName_ne_empty {doc : Document} {options : Options} {fresh : Uuid}
    {base : String} (hspell : ∀ c : Char, c.isAlphanum = true → options.romanize c = [c])
    (h : doc.baseName options fresh = .ok base) : base ≠ "" := by
  obtain ⟨hne, -⟩ | ⟨id, rfl⟩ := baseName_cases h
  · exact hne
  · obtain ⟨c, hc, hword⟩ := id.exists_alphanum
    exact Naming.slug_ne_empty hc hword (hspell c hword)

end ApiGateway
