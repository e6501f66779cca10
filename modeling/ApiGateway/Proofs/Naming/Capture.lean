import ApiGateway.Proofs.Naming.BaseName

/-!
# Capture names

The capture name of a parameter is made of letters, digits and underscores, whatever its name is
made of. So names that differ in other characters alone have one capture name; which names these are
depends on the style.

## Main definitions

* `Naming.IsCaptureName`: the names that a group of a regular expression may have.
* `Naming.Confuses`: two names that a style does not tell apart.

## Main results

* `Naming.isCaptureName_capture`: every capture name is one that a group may have.
* `Naming.capture_eq_capture_iff`: names have one capture name when their style confuses them.
-/
namespace ApiGateway.Naming

/-- A name that a group of a regular expression may have: ASCII letters, digits and underscores,
with no digit at its start. -/
def IsCaptureName (name : String) : Prop :=
  ∃ c rest, name.toList = c :: rest ∧ (c.isAlpha = true ∨ c = '_') ∧
    ∀ d ∈ rest, d.isAlphanum = true ∨ d = '_'

/-- A name of a group has letters, digits and underscores only. -/
theorem IsCaptureName.forall_mem {name : String} (h : IsCaptureName name) :
    ∀ c ∈ name.toList, c.isAlphanum = true ∨ c = '_' := by
  obtain ⟨c, rest, hname, hc, hrest⟩ := h
  rw [hname]
  refine List.forall_mem_cons.2 ⟨hc.imp_left fun halpha => ?_, hrest⟩
  simp [Char.isAlphanum, halpha]

/-! ## The parts of a capture name -/

/-- A character of a capture name in the flat style. -/
def masked (c : Char) : Char := if c.isAlphanum then c else '_'

/-- A character of a slug in a capture name. -/
def underscored (c : Char) : Char := if c = '-' then '_' else c

/-- What a style makes of a parameter name, before its start is looked at. -/
def captureBody (naming : Naming) (name : String) : List Char :=
  if naming.flat then name.toList.map masked
  else (naming.slugChars name.toList).map underscored

/-- A text with an underscore in front if a capture name may not start like it. -/
def headed : List Char → List Char
  | c :: rest => if startsCapture c then c :: rest else '_' :: c :: rest
  | [] => ['_']

theorem capture_eq (naming : Naming) (name : String) :
    naming.capture name = String.ofList (headed (naming.captureBody name)) := by
  have hbody : naming.captureBody name =
      if naming.flat then name.toList.map fun c => if c.isAlphanum then c else '_'
      else (naming.slugChars name.toList).map fun c => if c = '-' then '_' else c := rfl
  unfold capture
  rw [← hbody]
  cases naming.captureBody name with
  | nil => rfl
  | cons c rest => rfl

theorem masked_cases (c : Char) : (masked c).isAlphanum = true ∨ masked c = '_' := by
  unfold masked
  split
  · exact Or.inl ‹_›
  · exact Or.inr rfl

theorem underscored_cases {c : Char} (h : isSlugChar c = true) :
    (underscored c).isAlphanum = true ∨ underscored c = '_' := by
  unfold underscored
  split
  · exact Or.inr rfl
  · rename_i hne
    left
    simp only [isSlugChar, Bool.or_eq_true, beq_iff_eq, hne, or_false] at h
    simp only [Char.isAlphanum, Char.isAlpha, Bool.or_eq_true]
    tauto

theorem captureBody_cases (naming : Naming) (name : String) :
    ∀ c ∈ naming.captureBody name, c.isAlphanum = true ∨ c = '_' := by
  unfold captureBody
  split
  · intro c hc
    obtain ⟨d, -, rfl⟩ := List.mem_map.1 hc
    exact masked_cases d
  · intro c hc
    obtain ⟨d, hd, rfl⟩ := List.mem_map.1 hc
    exact underscored_cases (isSlugChar_of_mem_slugChars hd)

/-- Every capture name is one that a group may have. -/
theorem isCaptureName_capture (naming : Naming) (name : String) :
    IsCaptureName (naming.capture name) := by
  have hchars := captureBody_cases naming name
  rw [capture_eq, IsCaptureName, String.toList_ofList]
  cases hbody : naming.captureBody name with
  | nil => exact ⟨'_', [], rfl, Or.inr rfl, by simp⟩
  | cons c rest =>
    rw [hbody] at hchars
    simp only [headed]
    split
    · rename_i hstart
      refine ⟨c, rest, rfl, ?_, fun d hd => hchars d (List.mem_cons_of_mem _ hd)⟩
      simpa [startsCapture] using hstart
    · exact ⟨'_', c :: rest, rfl, Or.inr rfl, hchars⟩

/-! ## Names with one capture name -/

/-- A name as the flat style sees it: with an underscore in front of a digit at its start. -/
def marked : List Char → List Char
  | c :: rest => if c.isDigit then '_' :: c :: rest else c :: rest
  | [] => ['_']

/-- Two names that a style does not tell apart. The nested style does not when they have one slug;
the flat style does not when they have the same letters and digits in the same places, where the
underscore in front of a digit at the start has a place too. -/
def Confuses (naming : Naming) (name other : String) : Prop :=
  if naming.flat then
    List.Forall₂ (fun c d => c = d ∨ c.isAlphanum = false ∧ d.isAlphanum = false)
      (marked name.toList) (marked other.toList)
  else naming.slug name = naming.slug other

theorem masked_eq_masked_iff {c d : Char} :
    masked c = masked d ↔ c = d ∨ c.isAlphanum = false ∧ d.isAlphanum = false := by
  have hne : ∀ {a b : Char}, a.isAlphanum = true → b.isAlphanum = false → a ≠ b := by
    rintro a b ha hb rfl
    simp [ha] at hb
  unfold masked
  cases hc : c.isAlphanum <;> cases hd : d.isAlphanum
  · simp
  · simp [(hne hd hc).symm, (hne hd (b := '_') rfl).symm]
  · simp [hne hc hd, hne hc (b := '_') rfl]
  · simp

theorem isAlpha_eq_false_of_isDigit {c : Char} (h : c.isDigit = true) : c.isAlpha = false := by
  rw [Char.isDigit_iff_toNat] at h
  simp only [Char.isAlpha, Char.isUpper, Char.isLower, ge_iff_le, Bool.or_eq_false_iff,
    Bool.and_eq_false_iff, decide_eq_false_iff_not, UInt32.le_iff_toNat_le]
  have hnine : '9'.toNat = 57 := rfl
  have hupper : 'A'.val.toNat = 65 := rfl
  have hlower : 'a'.val.toNat = 97 := rfl
  have hval : c.toNat = c.val.toNat := rfl
  omega

/-- In the flat style the underscore in front goes to names that start with a digit. -/
theorem headed_map_masked (cs : List Char) : headed (cs.map masked) = (marked cs).map masked := by
  cases cs with
  | nil => rfl
  | cons c rest =>
    cases hdigit : c.isDigit with
    | true =>
      have hmasked : masked c = c := by simp [masked, Char.isAlphanum, hdigit]
      have hne : c ≠ '_' := by
        rintro rfl
        cases hdigit
      simp [headed, marked, startsCapture, hmasked, hdigit, isAlpha_eq_false_of_isDigit hdigit, hne]
      rfl
    | false =>
      have hstart : startsCapture (masked c) = true := by
        cases halpha : c.isAlpha <;> simp [startsCapture, masked, Char.isAlphanum, hdigit, halpha]
      simp [headed, marked, hstart, hdigit]

/-- A run has a character. -/
theorem ne_nil_of_mem_runs {p : Char → Bool} {cs run : List Char} (h : run ∈ runs p cs) :
    run ≠ [] := by
  have hcons : ∀ {first : List Char} {more : List (List Char)}, (∀ r ∈ more, r ≠ []) →
      ∀ r ∈ consRun first more, r ≠ [] := by
    intro first more hmore
    unfold consRun
    split
    · exact hmore
    · exact List.forall_mem_cons.2 ⟨‹_›, hmore⟩
  have hsplit : ∀ r ∈ (splitRuns p cs).2, r ≠ [] := by
    clear h
    induction cs with
    | nil => simp [splitRuns]
    | cons c cs ih =>
      rw [splitRuns]
      cases p c with
      | true => exact ih
      | false => exact hcons ih
  exact hcons hsplit run h

theorem toLower_ne_separator {c : Char} (h : c.isAlphanum = true) : c.toLower ≠ '-' := by
  intro heq
  cases halpha : c.isAlpha with
  | true =>
    have hlower := Char.isLower_toLower_eq_isAlpha (c := c)
    rw [heq, halpha] at hlower
    cases hlower
  | false =>
    have hupper : ¬ c.isUpper := by
      intro hupper
      simp [Char.isAlpha, hupper] at halpha
    rw [Char.toLower_eq_of_not_isUpper hupper] at heq
    subst heq
    cases h

/-- A slug does not start with the separator of its words. -/
theorem head?_slugChars_ne (naming : Naming) (cs : List Char) :
    (naming.slugChars cs).head? ≠ some '-' := by
  have hwords : ∀ run ∈ runs Char.isAlphanum (cs.flatMap naming.romanize),
      run ≠ [] ∧ ∀ c ∈ run, c.isAlphanum = true :=
    fun run h => ⟨ne_nil_of_mem_runs h, forall_of_mem_runs h⟩
  rw [slugChars_eq]
  cases hruns : runs Char.isAlphanum (cs.flatMap naming.romanize) with
  | nil => simp
  | cons word words =>
    obtain ⟨hne, hchars⟩ := hwords word (by simp [hruns])
    obtain ⟨c, rest, rfl⟩ := List.exists_cons_of_ne_nil hne
    have hlower := toLower_ne_separator (hchars c List.mem_cons_self)
    cases words with
    | nil => simpa using hlower
    | cons next words => simpa [List.intercalate_cons_cons] using hlower

/-- A text that starts with no underscore is found again behind the one in front. -/
theorem headed_inj {body other : List Char} (hbody : body.head? ≠ some '_')
    (hother : other.head? ≠ some '_') (h : headed body = headed other) : body = other := by
  have hback : ∀ {text : List Char}, text.head? ≠ some '_' →
      (if (headed text).head? = some '_' then (headed text).tail else headed text) = text := by
    intro text htext
    cases text with
    | nil => rfl
    | cons c cs =>
      have hne : c ≠ '_' := by simpa using htext
      cases hstart : startsCapture c <;> simp [headed, hstart, hne]
  rw [← hback hbody, h, hback hother]

/-- In the nested style the slug of a name can be read off its capture name. -/
theorem slugChars_eq_of_headed {naming : Naming} {cs ds : List Char}
    (h : headed ((naming.slugChars cs).map underscored) =
      headed ((naming.slugChars ds).map underscored)) :
    naming.slugChars cs = naming.slugChars ds := by
  have hhead : ∀ text, ((naming.slugChars text).map underscored).head? ≠ some '_' := by
    intro text
    have hslug := head?_slugChars_ne naming text
    have hchars : ∀ c ∈ naming.slugChars text, isSlugChar c = true :=
      fun _ hc => isSlugChar_of_mem_slugChars hc
    cases htext : naming.slugChars text with
    | nil => simp
    | cons c rest =>
      rw [htext] at hslug hchars
      have hne : c ≠ '-' := by simpa using hslug
      simp only [List.map_cons, List.head?_cons, underscored, if_neg hne, ne_eq,
        Option.some.injEq]
      rintro rfl
      exact absurd (hchars '_' List.mem_cons_self) (by decide)
  -- an underscore of the body stands for a hyphen of the slug, which has no underscores
  have hback : ∀ text, ((naming.slugChars text).map underscored).map
      (fun c => if c = '_' then '-' else c) = naming.slugChars text := by
    intro text
    rw [List.map_map]
    refine (List.map_congr_left fun c hc => ?_).trans (List.map_id _)
    have hslug := isSlugChar_of_mem_slugChars hc
    simp only [Function.comp_apply, underscored, id_eq]
    split
    · subst_vars
      rfl
    · rw [if_neg]
      rintro rfl
      exact absurd hslug (by decide)
  rw [← hback cs, headed_inj (hhead cs) (hhead ds) h, hback]

/-- Two names have one capture name when their style does not tell them apart. -/
theorem capture_eq_capture_iff {naming : Naming} {name other : String} :
    naming.capture name = naming.capture other ↔ naming.Confuses name other := by
  rw [capture_eq, capture_eq, String.ofList_inj]
  unfold captureBody Confuses
  cases naming.flat with
  | true =>
    simp only [if_true, headed_map_masked]
    rw [← List.forall₂_eq_eq_eq, List.forall₂_map_left_iff, List.forall₂_map_right_iff]
    simp only [masked_eq_masked_iff]
  | false =>
    simp only [Bool.false_eq_true, if_false, slug, String.ofList_inj]
    exact ⟨slugChars_eq_of_headed, fun h => by rw [h]⟩

end ApiGateway.Naming
