import ApiGateway.Proofs.Compilation.PluginCascade
import ApiGateway.Proofs.Naming.Capture
import ApiGateway.Proofs.Naming.GivenName

/-!
# Slugs and base names

A slug is made of words of lower-case letters and digits, joined by single hyphens, whatever the
romanization. A base name that is extended scope by scope is the one that is made of all names at
once: names without a slug are left out in both ways. In the flat style, where the words of a slug
and the slugs of a base name have one separator, a base name is a slug and stands for itself.

## Main definitions

* `Naming.IsSlug`: the form of slugs.
* `Frame.names`: the name that a scope adds to its base name.
* `Document.scopeName`: the text of which the base name of a document is the slug.

## Main results

* `Naming.isSlug_slug`: every slug has this form.
* `Naming.slugify_append`: extending a base name by a scope.
* `Naming.slugify_slugify`: in the flat style a base name is its own slug.
* `Walk.base_eq_slugify`: the base name of a scope is made of the names from the document inwards.
-/
namespace ApiGateway.Naming

/-- The form of slugs: words of lower-case letters and digits, none of them empty, joined by single
hyphens. A slug without words is empty. -/
def IsSlug (text : List Char) : Prop :=
  ∃ words : List (List Char), text = List.intercalate ['-'] words ∧
    ∀ word ∈ words, word ≠ [] ∧ ∀ c ∈ word, c.isLower = true ∨ c.isDigit = true

/-! ## The form of slugs -/

/-- A letter or digit is, in lower case, one that words of slugs may have. -/
theorem isLower_or_isDigit_toLower {c : Char} (h : c.isAlphanum = true) :
    c.toLower.isLower = true ∨ c.toLower.isDigit = true := by
  simpa [isSlugChar, toLower_ne_separator h] using isSlugChar_toLower h

/-- Every slug has the form of slugs. -/
theorem isSlug_slugChars (naming : Naming) (cs : List Char) : IsSlug (naming.slugChars cs) := by
  refine ⟨_, slugChars_eq naming cs, ?_⟩
  intro word hword
  obtain ⟨run, hrun, rfl⟩ := List.mem_map.1 hword
  refine ⟨by simpa using ne_nil_of_mem_runs hrun, ?_⟩
  intro c hc
  obtain ⟨d, hd, rfl⟩ := List.mem_map.1 hc
  exact isLower_or_isDigit_toLower (forall_of_mem_runs hrun d hd)

theorem isSlug_slug (naming : Naming) (part : String) : IsSlug (naming.slug part).toList := by
  rw [slug, String.toList_ofList]
  exact isSlug_slugChars naming _

/-- Two lists of texts are joined by what joins the texts of each. -/
theorem intercalate_append {sep : List Char} {front back : List (List Char)} (hfront : front ≠ [])
    (hback : back ≠ []) : List.intercalate sep (front ++ back) =
      List.intercalate sep front ++ sep ++ List.intercalate sep back := by
  induction front with
  | nil => exact absurd rfl hfront
  | cons text front ih =>
    cases front with
    | nil =>
      rw [List.singleton_append, List.intercalate_cons_of_ne_nil hback, List.intercalate_singleton]
    | cons next front =>
      have hmore : next :: front ++ back ≠ [] := List.cons_ne_nil _ _
      rw [List.cons_append, List.intercalate_cons_of_ne_nil hmore, ih (List.cons_ne_nil _ _),
        List.intercalate_cons_cons]
      simp only [List.append_assoc]

/-- Two slugs that are not empty are joined by a hyphen to a slug. -/
theorem IsSlug.join {front back : List Char} (hfront : IsSlug front) (hback : IsSlug back)
    (hne : front ≠ []) (hne' : back ≠ []) : IsSlug (front ++ ['-'] ++ back) := by
  obtain ⟨words, rfl, hwords⟩ := hfront
  obtain ⟨words', rfl, hwords'⟩ := hback
  have hsome : words ≠ [] := by
    rintro rfl
    exact hne rfl
  have hsome' : words' ≠ [] := by
    rintro rfl
    exact hne' rfl
  refine ⟨words ++ words', (intercalate_append hsome hsome').symm, ?_⟩
  intro word hword
  exact (List.mem_append.1 hword).elim (hwords word) (hwords' word)

/-- Slugs that are not empty are joined by hyphens to a slug. -/
theorem isSlug_intercalate {slugs : List (List Char)}
    (h : ∀ slug ∈ slugs, IsSlug slug ∧ slug ≠ []) : IsSlug (List.intercalate ['-'] slugs) := by
  induction slugs with
  | nil => exact ⟨[], rfl, by simp⟩
  | cons slug slugs ih =>
    obtain ⟨⟨hslug, hne⟩, hrest⟩ := List.forall_mem_cons.1 h
    cases slugs with
    | nil => simpa using hslug
    | cons next slugs =>
      rw [List.intercalate_cons_cons]
      have hnext : next ≠ [] := (hrest next List.mem_cons_self).2
      exact hslug.join (ih hrest) hne (intercalate_ne_nil List.mem_cons_self hnext)

/-! ## Base names -/

/-- A base name is made of the slugs of its parts, as far as they are not empty. -/
theorem slugify_eq_intercalate (naming : Naming) (parts : List String) : naming.slugify parts =
    String.intercalate (String.singleton naming.separator)
      ((parts.map naming.slug).filter (· ≠ "")) := by
  have hslugs : (parts.map fun part => naming.slugChars part.toList).filter (· ≠ []) =
      ((parts.map naming.slug).filter (· ≠ "")).map String.toList := by
    induction parts with
    | nil => rfl
    | cons part parts ih =>
      by_cases hpart : naming.slugChars part.toList = [] <;> simp_all [slug]
  rw [slugify, hslugs, ← String.toList_inj, String.toList_ofList, String.toList_intercalate,
    String.toList_singleton]

/-- Extending a base name by a scope is making it of one part more. -/
theorem slugify_append (naming : Naming) (parts : List String) (child : String) :
    naming.slugify (parts ++ [child]) = naming.extend (naming.slugify parts) child := by
  rw [slugify_eq_intercalate, slugify_eq_intercalate, List.map_append, List.filter_append]
  generalize hslugs : (parts.map naming.slug).filter (· ≠ "") = slugs
  by_cases hown : naming.slug child = ""
  · simp [extend_of_slug_eq_empty hown, hown]
  · cases slugs with
    | nil => simp [extend, hown]
    | cons first rest =>
      have hmem : first ∈ (parts.map naming.slug).filter (· ≠ "") :=
        hslugs ▸ List.mem_cons_self
      have hfirst : first ≠ "" := by simpa using (List.mem_filter.1 hmem).2
      have hparent :
          String.intercalate (String.singleton naming.separator) (first :: rest) ≠ "" := by
        rw [Ne, ← String.toList_inj, String.toList_intercalate]
        exact intercalate_ne_nil (List.mem_map_of_mem List.mem_cons_self) (by simpa using hfirst)
      have hchild : [naming.slug child].filter (· ≠ "") = [naming.slug child] := by simp [hown]
      rw [List.map_singleton, hchild, extend, if_neg hown, if_neg hparent,
        String.intercalate_append_of_ne_nil (List.cons_ne_nil _ _) (List.cons_ne_nil _ _),
        String.intercalate_singleton]

/-- In the flat style every base name has the form of slugs. -/
theorem isSlug_slugify {naming : Naming} (hflat : naming.flat = true) (parts : List String) :
    IsSlug (naming.slugify parts).toList := by
  rw [slugify, String.toList_ofList, separator, if_pos hflat]
  refine isSlug_intercalate fun slug hslug => ?_
  obtain ⟨hmem, hne⟩ := List.mem_filter.1 hslug
  obtain ⟨part, -, rfl⟩ := List.mem_map.1 hmem
  exact ⟨isSlug_slugChars naming _, by simpa using hne⟩

/-! ## Slugs of slugs -/

/-- Runs that are joined by a character without their property are found again. -/
theorem runs_intercalate {p : Char → Bool} {sep : Char} (hsep : p sep = false)
    {words : List (List Char)} (hwords : ∀ word ∈ words, word ≠ [] ∧ ∀ c ∈ word, p c = true) :
    runs p (List.intercalate [sep] words) = words := by
  induction words with
  | nil => rfl
  | cons word words ih =>
    obtain ⟨⟨hne, hword⟩, hrest⟩ := List.forall_mem_cons.1 hwords
    cases words with
    | nil => rw [List.intercalate_singleton, runs_of_forall hword hne]
    | cons next words =>
      rw [List.intercalate_cons_cons, List.append_assoc, List.singleton_append,
        runs_append_cons hsep, runs_of_forall hword hne, ih hrest, List.singleton_append]

/-- What words of slugs are made of are letters and digits that are in lower case already. -/
theorem isAlphanum_and_toLower_eq {c : Char} (h : c.isLower = true ∨ c.isDigit = true) :
    c.isAlphanum = true ∧ c.toLower = c := by
  refine ⟨?_, toLower_eq_of_isLower_or_isDigit h⟩
  rcases h with h | h <;> simp [Char.isAlphanum, Char.isAlpha, h]

/-- A character of a slug stands in one of its words or joins them. -/
theorem IsSlug.isSlugChar_of_mem {text : List Char} (h : IsSlug text) {c : Char} (hc : c ∈ text) :
    isSlugChar c = true := by
  obtain ⟨words, rfl, hwords⟩ := h
  obtain hsep | ⟨word, hword, hc⟩ := mem_of_mem_intercalate hc
  · obtain rfl := List.mem_singleton.1 hsep
    rfl
  · rcases (hwords word hword).2 c hc with hc | hc <;> simp [isSlugChar, hc]

/-- A text in the form of slugs is its own slug when its characters are spelled as they stand. -/
theorem slugChars_eq_self {naming : Naming} {text : List Char}
    (hspell : ∀ c, isSlugChar c = true → naming.romanize c = [c]) (h : IsSlug text) :
    naming.slugChars text = text := by
  have hspelled : text.flatMap naming.romanize = text := by
    rw [List.flatMap_congr fun c hc => hspell c (h.isSlugChar_of_mem hc), List.flatMap_singleton']
  obtain ⟨words, rfl, hwords⟩ := h
  have hruns : runs Char.isAlphanum (List.intercalate ['-'] words) = words := by
    refine runs_intercalate rfl fun word hword => ?_
    obtain ⟨hne, hchars⟩ := hwords word hword
    exact ⟨hne, fun c hc => (isAlphanum_and_toLower_eq (hchars c hc)).1⟩
  have hlower : words.map (·.map Char.toLower) = words := by
    refine (List.map_congr_left fun word hword => ?_).trans (List.map_id _)
    refine (List.map_congr_left fun c hc => ?_).trans (List.map_id _)
    exact (isAlphanum_and_toLower_eq ((hwords word hword).2 c hc)).2
  rw [slugChars_eq, hspelled, hruns, hlower]

/-- In the flat style a base name is its own slug, when the characters of slugs are spelled as they
stand. -/
theorem slugify_slugify {naming : Naming} (hflat : naming.flat = true)
    (hspell : ∀ c, isSlugChar c = true → naming.romanize c = [c]) (parts : List String) :
    naming.slugify [naming.slugify parts] = naming.slugify parts := by
  rw [slugify_singleton, slug, slugChars_eq_self hspell (isSlug_slugify hflat parts),
    String.ofList_toList]

end ApiGateway.Naming

namespace ApiGateway

/-! ## The base names of scopes -/

/-- The text of which the base name of a document is the slug: the name that options or document
give, or an identifier where that has no slug or is missing. -/
def Document.scopeName (doc : Document) (options : Options) (fresh : Uuid) : String :=
  match doc.givenName? options with
  | some name =>
    if options.naming.slug name = "" then (options.nameId options.space name).text else name
  | none => fresh.text

/-- The base name of a document is made of its name. -/
theorem Document.baseName_eq_slugify {doc : Document} {options : Options} {fresh : Uuid}
    {base : String} (h : doc.baseName options fresh = .ok base) :
    base = options.naming.slugify [doc.scopeName options fresh] := by
  have hgiven : ∀ name, base = (if options.naming.slugify [name] = "" then
      options.naming.slugify [(options.nameId options.space name).text]
      else options.naming.slugify [name]) → doc.givenName? options = some name →
      base = options.naming.slugify [doc.scopeName options fresh] := by
    intro name hbase hname
    simp only [scopeName, hname]
    rw [Naming.slugify_singleton options.naming name] at hbase
    split
    · rwa [if_pos ‹_›] at hbase
    · rwa [if_neg ‹_›, ← Naming.slugify_singleton] at hbase
  simp only [baseName] at h
  cases hoption : options.documentName with
  | some name =>
    simp only [hoption] at h
    exact hgiven name (Except.ok.inj h).symm (by simp [givenName?, hoption])
  | none =>
    simp only [hoption] at h
    obtain ⟨chosen, hchosen, h⟩ := bind_eq_ok_iff.1 h
    have hname : doc.givenName? options = (chosen <|> doc.title?) := by
      rw [givenName?, hoption, ← Directive.eq_string?_of_name? hchosen]
      rfl
    cases hfound : (chosen <|> doc.title?) with
    | some name =>
      simp only [hfound] at h
      exact hgiven name (Except.ok.inj h).symm (hname.trans hfound)
    | none =>
      simp only [hfound] at h
      simp only [scopeName, hname, hfound]
      exact (Except.ok.inj h).symm

/-- The name that a scope adds to the base name of the scope around it. The document adds none. -/
def Frame.names (frame : Frame) : List String :=
  match frame.place with
  | .document => []
  | .path template => (pathName template frame.object).toOption.toList
  | .operation method => (operationName method frame.object).toOption.toList

section Walks
variable {ctx : Context} {base given : String} {build next : Build} {parent frame : Frame}
  {around : List Frame} {name : String}

/-- A scope that is entered adds its name. -/
theorem Frame.base_eq_slugify_of_enter (hnames : frame.names = [name])
    (hparent : parent.scope.base =
      ctx.naming.slugify (given :: (parent :: around).reverse.flatMap Frame.names))
    (h : Scope.enter ctx build parent.scope frame.object name = .ok (next, frame.scope)) :
    frame.scope.base =
      ctx.naming.slugify (given :: (frame :: parent :: around).reverse.flatMap Frame.names) := by
  obtain ⟨_, inside, -⟩ := Scope.enter_cases h
  have hall : (frame :: parent :: around).reverse.flatMap Frame.names =
      (parent :: around).reverse.flatMap Frame.names ++ [name] := by
    rw [List.reverse_cons, List.flatMap_append, List.flatMap_singleton, hnames]
  rw [inside.base_eq, hparent, hall, ← Naming.slugify_append, List.cons_append]

/-- The base name of every scope that the walk enters is made of the names from the document
inwards. -/
theorem Walk.base_eq_slugify (hbase : base = ctx.naming.slugify [given])
    (h : Walk ctx base build frame around) : frame.scope.base =
      ctx.naming.slugify (given :: (frame :: around).reverse.flatMap Frame.names) := by
  induction h with
  | document enter =>
    simp only [Scope.ofDocument] at enter
    obtain ⟨⟨cascade, made⟩, hdocument, enter⟩ := bind_eq_ok_iff.1 enter
    obtain ⟨-, rfl⟩ := Prod.mk.inj (Except.ok.inj enter)
    exact (Cascade.top_of_ofDocument hdocument).base_eq.trans hbase
  | path _ _ _ named enter ih =>
    exact Frame.base_eq_slugify_of_enter (by simp [Frame.names, named, Except.toOption]) ih enter
  | operation _ _ _ _ named enter ih =>
    exact Frame.base_eq_slugify_of_enter (by simp [Frame.names, named, Except.toOption]) ih enter

end Walks

/-- Slugs and base names. A slug is empty or made of runs of lower-case letters and digits, joined
by single hyphens. A base name extended by a scope is the one made of all its names at once, and so
is the base name of every scope that the walk enters, which is made of the names from the document
inwards. In the flat style a base name is its own slug, when the romanization leaves lower-case
letters, digits and the hyphen as they stand. -/
theorem slugs_of_scopes (naming : Naming) :
    (∀ part, Naming.IsSlug (naming.slug part).toList) ∧
    (∀ parts child, naming.extend (naming.slugify parts) child =
      naming.slugify (parts ++ [child])) ∧
    (∀ fresh options doc ctx base, options.naming = naming →
      Context.ofRun fresh options doc = .ok (ctx, base) →
        base = naming.slugify [doc.scopeName options fresh] ∧
        ∀ build frame around, Walk ctx base build frame around → frame.scope.base =
          naming.slugify (doc.scopeName options fresh ::
            (frame :: around).reverse.flatMap Frame.names)) ∧
    (naming.flat = true → (∀ c, Naming.isSlugChar c = true → naming.romanize c = [c]) →
      ∀ parts, naming.slugify [naming.slugify parts] = naming.slugify parts) := by
  refine ⟨naming.isSlug_slug, fun parts child => (naming.slugify_append parts child).symm, ?_,
    fun hflat hspell => Naming.slugify_slugify hflat hspell⟩
  rintro fresh options doc ctx base rfl hrun
  obtain ⟨-, hoptions, -, hname⟩ := Context.ofRun_cases hrun
  have hbase := Document.baseName_eq_slugify hname
  have hnaming : ctx.naming = options.naming := by rw [Context.naming, hoptions]
  refine ⟨hbase, fun build frame around walk => ?_⟩
  rw [← hnaming] at hbase ⊢
  exact walk.base_eq_slugify hbase

/-- The characters of slugs are spelled as they stand. -/
theorem Romanization.spell_of_isSlugChar {c : Char} (h : Naming.isSlugChar c = true) :
    spell c = [c] := by
  refine spell_of_ascii ?_
  simp only [Naming.isSlugChar, Char.isLower, Char.isDigit, Bool.or_eq_true, Bool.and_eq_true,
    decide_eq_true_eq, beq_iff_eq, ge_iff_le, UInt32.le_iff_toNat_le] at h
  have hbounds : 'z'.val.toNat = 122 ∧ '9'.val.toNat = 57 := ⟨rfl, rfl⟩
  have hval : c.toNat = c.val.toNat := rfl
  rcases h with (h | h) | rfl
  · omega
  · omega
  · decide

/-- The settings of a run over the small document, in the flat style. -/
def petOptions : Options := { documentName := some "Pet Store", flatNames := true, skipId := true }

/-- The base name of the operation of the small document is made of three names and is its own
slug. -/
theorem slugs_of_scopes_pets :
    ∃ ctx build frame around,
      Context.ofRun Uuid.dns petOptions petDocument = .ok (ctx, "pet-store") ∧
      Walk ctx "pet-store" build frame around ∧ frame.place = .operation "get" ∧
      frame.scope.base = "pet-store-pets-get" ∧
      petOptions.naming.slugify [frame.scope.base] = frame.scope.base := by
  obtain ⟨-, -, hscopes, hflat⟩ := slugs_of_scopes petOptions.naming
  have hrun : Context.ofRun Uuid.dns petOptions petDocument =
      .ok (⟨petDocument, petOptions, petOptions.stamp []⟩, "pet-store") := by
    rfl
  have root : Walk ⟨petDocument, petOptions, petOptions.stamp []⟩ "pet-store" _ _ [] :=
    Walk.document rfl
  have items : petDocument.pathItems = .ok ([] ++ ("/pets", petItem) :: []) := rfl
  have path := Walk.path root items rfl rfl rfl
  have endpoints : operations "/pets" petItem = .ok ([] ++ ("get", petOperation) :: []) := rfl
  have operation := Walk.operation path rfl endpoints rfl rfl rfl
  have hbase := (hscopes Uuid.dns petOptions petDocument _ _ rfl hrun).2 _ _ _ operation
  refine ⟨_, _, _, _, hrun, operation, rfl, hbase.trans (by decide +kernel), ?_⟩
  rw [hbase]
  exact hflat rfl (fun _ => Romanization.spell_of_isSlugChar) _

end ApiGateway
