import ApiGateway.Proofs.Error.Codes
import ApiGateway.Proofs.Json.Members
import ApiGateway.Security.OpenIdConnect

/-!
# Plugins of security requirements

What the requirements of a scope make of the plugin around it. Requirements that ask for nothing
keep it. One OpenID Connect scheme replaces it by a plugin that has the settings of the scheme and
asks for the scopes of both, whatever was in effect. A scheme that cannot be read is an error even
in a run that ignores unsupported requirements; every other shape is unsupported.

## Main definitions

* `IsScope`: the strings of a list.
* `Document.HasScheme`: the scheme of a name.
* `OpenIdExtension`: what a scheme declares for its plugin.
* `OpenIdExtension.Gives`: the plugin of a scheme.
* `RequiresNothing`: requirements that ask for nothing.

## Main results

* `openIdConnect_spec`: the plugin in effect for every value of the requirements.
-/
namespace ApiGateway

/-! ## Scopes -/

section Scopes
variable {text t : String} {texts : List String}

theorem mem_insertSorted : t ∈ insertSorted text texts ↔ t = text ∨ t ∈ texts := by
  induction texts with
  | nil => simp [insertSorted]
  | cons first rest ih =>
    rw [insertSorted]
    split
    · simp
    · split
      · simp_all
      · rw [List.mem_cons, ih, List.mem_cons]
        tauto

/-- A text put into a strictly increasing list leaves it strictly increasing. -/
theorem pairwise_insertSorted (h : texts.Pairwise (· < ·)) :
    (insertSorted text texts).Pairwise (· < ·) := by
  induction texts with
  | nil => simp [insertSorted]
  | cons first rest ih =>
    obtain ⟨hfirst, hrest⟩ := List.pairwise_cons.1 h
    rw [insertSorted]
    split
    · rename_i hlt
      refine List.pairwise_cons.2 ⟨?_, h⟩
      intro s hs
      rcases List.mem_cons.1 hs with rfl | hs
      · exact hlt
      · exact hlt.trans (hfirst s hs)
    · split
      · exact h
      · rename_i hlt hne
        refine List.pairwise_cons.2 ⟨?_, ih hrest⟩
        intro s hs
        rcases mem_insertSorted.1 hs with rfl | hs
        · exact lt_of_le_of_ne (not_lt.1 hlt) (Ne.symm hne)
        · exact hfirst s hs

/-- The union of texts has all of them, each once and in increasing order. -/
theorem sortedUnion_spec (texts : List String) :
    (sortedUnion texts).Pairwise (· < ·) ∧ ∀ text, text ∈ sortedUnion texts ↔ text ∈ texts := by
  have hfold : ∀ sorted : List String, sorted.Pairwise (· < ·) →
      (texts.foldl (fun sorted text => insertSorted text sorted) sorted).Pairwise (· < ·) ∧
        ∀ text, text ∈ texts.foldl (fun sorted text => insertSorted text sorted) sorted ↔
          text ∈ texts ∨ text ∈ sorted := by
    induction texts with
    | nil => simp
    | cons first rest ih =>
      intro sorted hsorted
      obtain ⟨hpairwise, hmem⟩ := ih (insertSorted first sorted) (pairwise_insertSorted hsorted)
      refine ⟨hpairwise, fun text => ?_⟩
      rw [List.foldl_cons, hmem, mem_insertSorted, List.mem_cons]
      tauto
  simpa [sortedUnion] using hfold [] List.Pairwise.nil

/-- A text is a scope of a value when it is one of the strings of a list. -/
def IsScope (text : String) (value : Option Json) : Prop :=
  ∃ items, value = some (.arr items) ∧ .str text ∈ items

theorem mem_scopeList_iff {value : Option Json} : text ∈ scopeList value ↔ IsScope text value := by
  have hitem : ∀ item, Json.asString? item = some text ↔ item = .str text := by
    intro item
    cases item <;> simp [Json.asString?]
  unfold scopeList IsScope
  split <;> simp_all

end Scopes

/-! ## Schemes -/

/-- The security scheme of a name is the object that references lead to from its entry. -/
def Document.HasScheme (doc : Document) (name : String) (scheme : Members) : Prop :=
  ∃ entry, doc.lookup? ("#/components/securitySchemes/" ++ Pointer.escape name) = some entry ∧
    doc.resolve entry = .ok (.obj scheme)

theorem Document.securityScheme_eq_ok_iff {doc : Document} {name : String} {scheme : Members} :
    doc.securityScheme name = .ok scheme ↔ doc.HasScheme name scheme := by
  unfold securityScheme HasScheme
  dsimp only
  split
  · rename_i hlookup
    simp [hlookup]
  · rename_i entry hlookup
    rw [bind_eq_ok_iff]
    constructor
    · rintro ⟨value, hvalue, h⟩
      split at h
      · obtain rfl := Except.ok.inj h
        exact ⟨entry, hlookup, hvalue⟩
      · cases h
    · rintro ⟨entry', hlookup', hscheme⟩
      obtain rfl := Option.some.inj (hlookup.symm.trans hlookup')
      exact ⟨.obj scheme, hscheme, rfl⟩

/-- What a scheme declares for its plugin, itself or by reference: an object that may be left out,
with settings that are an object or left out. -/
structure OpenIdExtension (doc : Document) (scheme extension settings : Members) : Prop where
  declared : ∃ found, Directive.object? doc scheme Directive.securityKey = .ok found ∧
    found.getD [] = extension
  config : extension.get? "config" = none ∧ settings = [] ∨
    extension.get? "config" = some (.obj settings)

/-- The settings of the plugin of a scheme are those that the scheme declares but for two: the scopes
are those of the settings and of the requirement, and the issuer is the address of the scheme unless
the settings have one. -/
structure OpenIdSettings (scheme settings : Members) (required : Json) (config : Members) :
    Prop where
  scopes : ∃ scopes : List String, config.get? "scopes_required" = some (.ofStrings scopes) ∧
    scopes.Pairwise (· < ·) ∧ ∀ text, text ∈ scopes ↔
      IsScope text (settings.get? "scopes_required") ∨ IsScope text (some required)
  issuer : config.get? "issuer" =
    (settings.get? "issuer").or ((scheme.string? "openIdConnectUrl").map .str)
  others : ∀ key, key ≠ "scopes_required" → key ≠ "issuer" → config.get? key = settings.get? key

/-- The plugin of a scheme is what the scheme declares, under the name of such plugins. -/
structure OpenIdExtension.Gives (scheme extension settings : Members) (required : Json)
    (plugin : Members) : Prop where
  name : plugin.get? "name" = some (.str openIdName)
  config : ∃ config, plugin.get? "config" = some (.obj config) ∧
    OpenIdSettings scheme settings required config
  others : ∀ key, key ≠ "name" → key ≠ "config" → plugin.get? key = extension.get? key

section Scheme
variable {doc : Document} {name : String} {scheme extension settings : Members} {required : Json}

theorem openIdConfig_eq_ok_iff :
    openIdConfig extension = .ok settings ↔
      extension.get? "config" = none ∧ settings = [] ∨
        extension.get? "config" = some (.obj settings) := by
  unfold openIdConfig
  split
  · rename_i hnone
    simp [hnone, eq_comm]
  · rename_i config hobject
    simp [hobject]
  · rename_i value hobject hvalue
    simp only [hvalue, reduceCtorEq, false_and, false_or, Option.some.injEq, false_iff]
    rintro rfl
    exact hobject settings rfl

/-- Settings with an issuer: their own, or else an address. -/
def withIssuer (config : Members) : Option String → Members
  | some url => if config.has "issuer" then config else config.insert "issuer" (.str url)
  | none => config

theorem get?_withIssuer (config : Members) (url : Option String) (key : String) :
    (withIssuer config url).get? key =
      if key = "issuer" then (config.get? "issuer").or (url.map .str) else config.get? key := by
  cases url with
  | none =>
    split
    · subst key
      simp [withIssuer]
    · rfl
  | some url =>
    rw [withIssuer, Members.has]
    cases hissuer : config.get? "issuer" with
    | none => simp [Members.get?_insert]
    | some value =>
      split <;> simp_all

/-- The plugin of a scheme that declares an extension. -/
theorem OpenIdExtension.exists_gives (h : OpenIdExtension doc scheme extension settings)
    (required : Json) : ∃ plugin, openIdPlugin doc scheme required = .ok plugin ∧
      OpenIdExtension.Gives scheme extension settings required plugin := by
  obtain ⟨found, hfound, rfl⟩ := h.declared
  have hconfig := openIdConfig_eq_ok_iff.2 h.config
  obtain ⟨hpairwise, hmem⟩ := sortedUnion_spec
    (scopeList (settings.get? "scopes_required") ++ scopeList (some required))
  simp only [List.mem_append, mem_scopeList_iff] at hmem
  set scopes := sortedUnion (scopeList (settings.get? "scopes_required") ++ scopeList (some required))
  set config := withIssuer (settings.insert "scopes_required" (.ofStrings scopes))
    (scheme.string? "openIdConnectUrl") with hissued
  have hplugin : openIdPlugin doc scheme required =
      .ok (((found.getD []).insert "name" (.str openIdName)).insert "config" (.obj config)) := by
    simp only [openIdPlugin, hfound, ok_bind, hconfig]
    rfl
  refine ⟨_, hplugin, ?_, ⟨config, by simp, ⟨scopes, ?_, hpairwise, hmem⟩, ?_, ?_⟩, ?_⟩
  · simp [Members.get?_insert]
  · simp [hissued, get?_withIssuer]
  · simp [hissued, get?_withIssuer, Members.get?_insert]
  · intro key hscopes hissuer
    simp [hissued, get?_withIssuer, Members.get?_insert, hscopes, hissuer]
  · intro key hname hkey
    simp [Members.get?_insert, hname, hkey]

/-- A scheme whose extension is malformed has no plugin. -/
theorem openIdExtension_of_openIdPlugin {plugin : Members}
    (h : openIdPlugin doc scheme required = .ok plugin) :
    ∃ extension settings, OpenIdExtension doc scheme extension settings := by
  simp only [openIdPlugin] at h
  obtain ⟨found, hfound, h⟩ := bind_eq_ok_iff.1 h
  obtain ⟨settings, hsettings, -⟩ := bind_eq_ok_iff.1 h
  exact ⟨found.getD [], settings, ⟨found, hfound, rfl⟩, openIdConfig_eq_ok_iff.1 hsettings⟩

/-- A requirement of one OpenID Connect scheme gives the plugin of the scheme. -/
theorem openIdConnect_of_scheme (ignoreErrors : Bool) (inherited : Option Members)
    (hscheme : doc.securityScheme name = .ok scheme)
    (htype : scheme.string? "type" = some openIdType) :
    openIdConnect doc ignoreErrors (some (.arr [.obj [(name, required)]])) inherited =
      (openIdPlugin doc scheme required).map some := by
  have hdemand : SecurityDemand.ofRequirements (some (.arr [.obj [(name, required)]])) =
      .scheme name required := rfl
  simp only [openIdConnect, hdemand, hscheme, ok_bind, htype, Option.getD_some, if_true]
  cases openIdPlugin doc scheme required <;> rfl

end Scheme

/-! ## Requirements -/

/-- Requirements that ask for nothing: there are none, or one without any scheme. -/
def RequiresNothing (requirements : Option Json) : Prop :=
  requirements = none ∨ requirements = some (.arr []) ∨ requirements = some (.arr [.obj []])

/-- Requirements that name one scheme ask for it, those that ask for nothing keep what is inherited,
and no others do. -/
theorem SecurityDemand.ofRequirements_cases (requirements : Option Json) :
    (RequiresNothing requirements ∧ ofRequirements requirements = .inherit) ∨
      (∃ name required, requirements = some (.arr [.obj [(name, required)]])) ∨
      ∃ fault, ofRequirements requirements = .unsupported fault := by
  unfold RequiresNothing ofRequirements
  split
  · exact Or.inl ⟨Or.inl rfl, rfl⟩
  · exact Or.inl ⟨Or.inr (Or.inl rfl), rfl⟩
  · unfold ofRequirement
    split
    · exact Or.inl ⟨Or.inr (Or.inr rfl), rfl⟩
    · exact Or.inr (Or.inl ⟨_, _, rfl⟩)
    · exact Or.inr (Or.inr ⟨_, rfl⟩)
    · exact Or.inr (Or.inr ⟨_, rfl⟩)
  · exact Or.inr (Or.inr ⟨_, rfl⟩)
  · exact Or.inr (Or.inr ⟨_, rfl⟩)

section Requirements
variable {doc : Document} {requirements : Option Json}

/-- Requirements that ask for nothing keep what is in effect. -/
theorem openIdConnect_of_nothing (h : RequiresNothing requirements) (ignoreErrors : Bool)
    (inherited : Option Members) :
    openIdConnect doc ignoreErrors requirements inherited = .ok inherited := by
  obtain rfl | rfl | rfl := h <;> rfl

/-- A scheme that cannot be read is an error, and so is one whose extension is malformed. -/
theorem exists_error_of_openIdConnect {name : String} {required : Json}
    (h : (¬ ∃ scheme, doc.HasScheme name scheme) ∨
      ∃ scheme, doc.HasScheme name scheme ∧ scheme.get? "type" = some (.str openIdType) ∧
        ¬ ∃ extension settings, OpenIdExtension doc scheme extension settings) :
    ∃ e : Error, e.code ≠ "E2006" ∧ ∀ ignoreErrors inherited,
      openIdConnect doc ignoreErrors (some (.arr [.obj [(name, required)]])) inherited =
        .error e := by
  rcases h with hnone | ⟨scheme, hscheme, htype, hmalformed⟩
  · cases hscheme : doc.securityScheme name with
    | ok scheme => exact absurd ⟨scheme, Document.securityScheme_eq_ok_iff.1 hscheme⟩ hnone
    | error e =>
      refine ⟨e, ?_, ?_⟩
      · have hcode := doc.failsOnly_securityScheme name e hscheme
        rintro hother
        simp [hother] at hcode
      · intro ignoreErrors inherited
        simp only [openIdConnect, SecurityDemand.ofRequirements, SecurityDemand.ofRequirement,
          hscheme, error_bind]
  · cases hplugin : openIdPlugin doc scheme required with
    | ok plugin => exact absurd (openIdExtension_of_openIdPlugin hplugin) hmalformed
    | error e =>
      refine ⟨e, ?_, ?_⟩
      · have hcode := failsOnly_openIdPlugin doc scheme required e hplugin
        rintro hother
        simp [hother, directiveCodes] at hcode
      · intro ignoreErrors inherited
        rw [openIdConnect_of_scheme _ _ (Document.securityScheme_eq_ok_iff.2 hscheme)
          (Members.string?_eq_some_iff.2 htype), hplugin]
        rfl

/-- Every other shape, and a scheme of another type, is unsupported. -/
theorem openIdConnect_of_unsupported (hnothing : ¬ RequiresNothing requirements)
    (hother : ∀ name required, requirements = some (.arr [.obj [(name, required)]]) →
      ∃ scheme, doc.HasScheme name scheme ∧ scheme.get? "type" ≠ some (.str openIdType))
    (inherited : Option Members) :
    (∃ e : Error, e.code = "E2006" ∧
      openIdConnect doc false requirements inherited = .error e) ∧
    openIdConnect doc true requirements inherited = .ok inherited := by
  obtain ⟨h, -⟩ | ⟨name, required, rfl⟩ | ⟨fault, hfault⟩ :=
    SecurityDemand.ofRequirements_cases requirements
  · exact absurd h hnothing
  · obtain ⟨scheme, hscheme, htype⟩ := hother name required rfl
    have htype : (scheme.string? "type").getD "" ≠ openIdType := by
      intro h
      refine htype (Members.string?_eq_some_iff.1 ?_)
      cases hstring : scheme.string? "type" with
      | none => simp [hstring, openIdType] at h
      | some type => simpa [hstring] using h
    simp only [openIdConnect, SecurityDemand.ofRequirements, SecurityDemand.ofRequirement,
      Document.securityScheme_eq_ok_iff.2 hscheme, ok_bind, if_neg htype]
    exact ⟨⟨_, rfl, rfl⟩, rfl⟩
  · simp only [openIdConnect, hfault]
    exact ⟨⟨_, rfl, rfl⟩, rfl⟩

/-- The plugin in effect for every value of the requirements. Requirements that ask for nothing keep
what is inherited. A requirement of one OpenID Connect scheme gives the plugin of the scheme, which
depends neither on what is inherited nor on whether unsupported requirements are ignored; when the
scheme cannot be read or its extension is malformed, that is an error, ignored by no run. Everything
else is unsupported: an error, or what is inherited. -/
theorem openIdConnect_spec (doc : Document) (requirements : Option Json) :
    (RequiresNothing requirements → ∀ ignoreErrors inherited,
      openIdConnect doc ignoreErrors requirements inherited = .ok inherited) ∧
    (∀ name required, requirements = some (.arr [.obj [(name, required)]]) →
      (∀ scheme extension settings, doc.HasScheme name scheme →
        scheme.get? "type" = some (.str openIdType) →
        OpenIdExtension doc scheme extension settings →
        ∃ plugin, OpenIdExtension.Gives scheme extension settings required plugin ∧
          ∀ ignoreErrors inherited,
            openIdConnect doc ignoreErrors requirements inherited = .ok (some plugin)) ∧
      (((¬ ∃ scheme, doc.HasScheme name scheme) ∨
          ∃ scheme, doc.HasScheme name scheme ∧ scheme.get? "type" = some (.str openIdType) ∧
            ¬ ∃ extension settings, OpenIdExtension doc scheme extension settings) →
        ∃ e : Error, e.code ≠ "E2006" ∧ ∀ ignoreErrors inherited,
          openIdConnect doc ignoreErrors requirements inherited = .error e)) ∧
    (¬ RequiresNothing requirements →
      (∀ name required, requirements = some (.arr [.obj [(name, required)]]) →
        ∃ scheme, doc.HasScheme name scheme ∧ scheme.get? "type" ≠ some (.str openIdType)) →
      ∀ inherited, (∃ e : Error, e.code = "E2006" ∧
          openIdConnect doc false requirements inherited = .error e) ∧
        openIdConnect doc true requirements inherited = .ok inherited) := by
  refine ⟨openIdConnect_of_nothing, ?_, openIdConnect_of_unsupported⟩
  rintro name required rfl
  refine ⟨?_, exists_error_of_openIdConnect⟩
  intro scheme extension settings hscheme htype hextension
  obtain ⟨plugin, hplugin, hgives⟩ := hextension.exists_gives required
  refine ⟨plugin, hgives, ?_⟩
  intro ignoreErrors inherited
  rw [openIdConnect_of_scheme _ _ (Document.securityScheme_eq_ok_iff.2 hscheme)
    (Members.string?_eq_some_iff.2 htype), hplugin]
  rfl

end Requirements

/-- The one security scheme of a small document, with settings of its own. -/
def readerScheme : Members :=
  [("openIdConnectUrl", .str "https://login.example.com"), ("type", .str "openIdConnect"),
    ("x-kong-security-openid-connect", .obj
      [("config", .obj [("scopes_required", .arr [.str "loans", .int 3, .str "email"])]),
        ("enabled", .bool true)])]

/-- A document with this scheme. -/
def libraryDocument : Document :=
  ⟨[("components", .obj [("securitySchemes", .obj [("readers", .obj readerScheme)])]),
    ("info", .obj [("title", .str "Library")]), ("openapi", .str "3.0.0"), ("paths", .obj [])],
    "3.0.0"⟩

/-- A requirement of the scheme gives the plugin that it declares with the scopes of both, a scheme
that is missing is an error, and no requirements or a list of the wrong kind keep what is
inherited. -/
theorem openIdConnect_spec_library :
    (∃ plugin, OpenIdExtension.Gives readerScheme
        [("config", .obj [("scopes_required", .arr [.str "loans", .int 3, .str "email"])]),
          ("enabled", .bool true)]
        [("scopes_required", .arr [.str "loans", .int 3, .str "email"])]
        (.arr [.str "openid", .str "email"]) plugin ∧
      ∀ ignoreErrors inherited, openIdConnect libraryDocument ignoreErrors
        (some (.arr [.obj [("readers", .arr [.str "openid", .str "email"])]])) inherited =
          .ok (some plugin)) ∧
    (∃ e : Error, e.code ≠ "E2006" ∧ ∀ ignoreErrors inherited, openIdConnect libraryDocument
      ignoreErrors (some (.arr [.obj [("guests", .arr [])]])) inherited = .error e) ∧
    (∀ ignoreErrors inherited,
      openIdConnect libraryDocument ignoreErrors none inherited = .ok inherited) ∧
    ∀ inherited, (∃ e : Error, e.code = "E2006" ∧
        openIdConnect libraryDocument false (some (.str "readers")) inherited = .error e) ∧
      openIdConnect libraryDocument true (some (.str "readers")) inherited = .ok inherited := by
  refine ⟨?_, ?_, ?_, ?_⟩
  · refine ((openIdConnect_spec libraryDocument _).2.1 "readers" _ rfl).1 readerScheme _ _ ?_ rfl ?_
    · exact ⟨.obj readerScheme, rfl, rfl⟩
    · exact ⟨⟨_, rfl, rfl⟩, Or.inr rfl⟩
  · refine ((openIdConnect_spec libraryDocument _).2.1 "guests" _ rfl).2 (Or.inl ?_)
    rintro ⟨scheme, entry, hentry, -⟩
    have hnone : libraryDocument.lookup?
        ("#/components/securitySchemes/" ++ Pointer.escape "guests") = none := rfl
    rw [hnone] at hentry
    cases hentry
  · exact (openIdConnect_spec libraryDocument none).1 (Or.inl rfl)
  · refine (openIdConnect_spec libraryDocument _).2.2 ?_ ?_
    · simp [RequiresNothing]
    · simp

end ApiGateway
