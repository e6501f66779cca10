import ApiGateway.Proofs.Document.Ordered
import ApiGateway.Proofs.Validation.Template

/-!
# Validators complete their templates

What an operation makes of a template has everything that the template has but its version. Of the
schemas and media types it adds those that the template leaves out, so a validator is complete: taken
as a template itself it gives the same validator again.

## Main definitions

* `Members.Adds`: an object with members added under some keys.
* `Plugin.Completes`: the settings of a template and what was added to them.

## Main results

* `requestValidator_self`: a validator is its own template.
* `requestValidator_spec`: what a validator has of its template, and what was added.
-/
namespace ApiGateway

/-! ## Adding members -/

namespace Members

/-- An object with members added to another under some keys that were free. -/
structure Adds (keys : List String) (members result : Members) : Prop where
  kept : ∀ key value, members.get? key = some value → result.get? key = some value
  others : ∀ key, key ∉ keys → result.get? key = members.get? key

namespace Adds
variable {keys : List String} {members result final : Members}

theorem refl (keys : List String) (members : Members) : Adds keys members members :=
  ⟨fun _ _ h => h, fun _ _ => rfl⟩

theorem insert {key : String} (hkey : key ∈ keys) (hfree : members.has key = false)
    (value : Json) : Adds keys members (members.insert key value) := by
  rw [has, Option.isSome_eq_false_iff, Option.isNone_iff_eq_none] at hfree
  constructor
  · intro other found hfound
    rw [get?_insert, if_neg]
    · exact hfound
    · rintro rfl
      rw [hfree] at hfound
      cases hfound
  · intro other hother
    rw [get?_insert, if_neg]
    rintro rfl
    exact hother hkey

theorem trans (h : Adds keys members result) (h' : Adds keys result final) :
    Adds keys members final := by
  constructor
  · intro key value hvalue
    exact h'.kept key value (h.kept key value hvalue)
  · intro key hkey
    rw [h'.others key hkey, h.others key hkey]

theorem mono (h : Adds keys members result) {more : List String} (hsub : keys ⊆ more) :
    Adds more members result :=
  ⟨h.kept, fun key hkey => h.others key fun hmem => hkey (hsub hmem)⟩

theorem has_of_has (h : Adds keys members result) {key : String}
    (hkey : members.has key = true) : result.has key = true := by
  obtain ⟨value, hvalue⟩ := Option.isSome_iff_exists.1 hkey
  rw [has, h.kept key value hvalue]
  rfl

end Adds

end Members

/-! ## Completion -/

open Plugin (settings restamp validatorName)

/-- Settings of a template, completed for an operation: its own, but for the version, and added
schemas and media types. -/
structure Plugin.Completes (body : Option RequestBody) (own config : Members) : Prop where
  kept : ∀ key, key ≠ "version" → ∀ value, own.get? key = some value →
    config.get? key = some value
  added : ∀ key, own.get? key = none → (config.get? key).isSome = true →
    key ∈ ["parameter_schema", "body_schema", "version", "allowed_content_types"]
  version : config.get? "version" = some (.str schemaDraft)
  checks : (config.get? "parameter_schema").isSome = true ∨ (config.get? "body_schema").isSome = true
  contentTypes : own.get? "allowed_content_types" = none → ∀ value,
    config.get? "allowed_content_types" = some value →
    ∃ media, body = some media ∧ media.content ≠ [] ∧
      value = .ofStrings (media.content.map (·.1))

section Completion
variable {doc : Document} {naming : Naming} {stamp : Stamp} {base : String}
  {parameters : List Parameter} {body : Option RequestBody} {template config result : Members}

theorem adds_addParameterSchema
    (h : addParameterSchema doc naming parameters config = .ok result) :
    Members.Adds ["parameter_schema"] config result := by
  obtain ⟨-, rfl⟩ | ⟨hfree, -, entries, -, rfl⟩ := addParameterSchema_cases h
  · exact .refl _ _
  · exact .insert (by decide) hfree _

theorem adds_addBodySchema (h : addBodySchema doc body config = .ok result) :
    Members.Adds ["body_schema"] config result := by
  obtain ⟨-, rfl⟩ | ⟨hfree, schema, text, -, -, rfl⟩ := addBodySchema_cases h
  · exact .refl _ _
  · exact .insert (by decide) hfree _

theorem adds_activate? (h : activate? config = some result) :
    Members.Adds ["body_schema"] config result := by
  obtain ⟨-, rfl⟩ | ⟨hfree, rfl⟩ := activate?_cases h
  · exact .refl _ _
  · exact .insert (by decide) hfree _

/-- The keys of schemas. -/
def schemaKeys : List String := ["parameter_schema", "body_schema"]

/-- Active settings have those of the template, some schema, and every schema that can be made. -/
theorem adds_of_activate? {c c' active : Members}
    (hparameters : addParameterSchema doc naming parameters config = .ok c)
    (hbody : addBodySchema doc body c = .ok c') (hactive : activate? c' = some active) :
    Members.Adds schemaKeys config active ∧
      (active.has "parameter_schema" = true ∨ parameters = []) ∧
      (active.has "body_schema" = true ∨ body.bind RequestBody.jsonSchema? = none) ∧
      (active.has "parameter_schema" = true ∨ active.has "body_schema" = true) := by
  have hadds := adds_addParameterSchema hparameters
  have hadds' := adds_addBodySchema hbody
  have hadds'' := adds_activate? hactive
  refine ⟨?_, ?_, ?_, ?_⟩
  · exact ((hadds.mono (by simp [schemaKeys])).trans (hadds'.mono (by simp [schemaKeys]))).trans
      (hadds''.mono (by simp [schemaKeys]))
  · rcases eq_or_ne parameters [] with hnil | hnil
    · exact Or.inr hnil
    · refine Or.inl (hadds''.has_of_has (hadds'.has_of_has ?_))
      exact (addParameterSchema_spec hparameters).1.2 (Or.inr hnil)
  · cases hschema : body.bind RequestBody.jsonSchema? with
    | none => exact Or.inr rfl
    | some schema =>
      refine Or.inl (hadds''.has_of_has ?_)
      exact (addBodySchema_spec hbody).1.2 (Or.inr (by rw [hschema]; rfl))
  · obtain ⟨hset, rfl⟩ | ⟨-, rfl⟩ := activate?_cases hactive
    · exact hset
    · exact Or.inr (by simp [Members.has])

/-- Media types are added unless they are set already or there are none. -/
theorem addContentTypes_cases (body : Option RequestBody) (config : Members) :
    ((config.has "allowed_content_types" = true ∨ ∀ media, body = some media → media.content = []) ∧
        addContentTypes body config = config) ∨
      (config.has "allowed_content_types" = false ∧ ∃ media, body = some media ∧
        media.content ≠ [] ∧ addContentTypes body config =
          config.insert "allowed_content_types" (.ofStrings (media.content.map (·.1)))) := by
  unfold addContentTypes
  split
  · rename_i hset
    exact Or.inl ⟨Or.inl hset, rfl⟩
  · rename_i hset
    rw [Bool.not_eq_true] at hset
    split
    · exact Or.inr ⟨hset, _, rfl, by simp, rfl⟩
    · rename_i hnone
      refine Or.inl ⟨Or.inr ?_, rfl⟩
      rintro ⟨content⟩ rfl
      cases content with
      | nil => rfl
      | cons m rest => exact absurd rfl (hnone m rest)

/-- Media types are added once and for all. -/
theorem addContentTypes_self (body : Option RequestBody) (config : Members) :
    addContentTypes body (addContentTypes body config) = addContentTypes body config := by
  obtain ⟨-, hconfig⟩ | ⟨-, media, -, -, hconfig⟩ := addContentTypes_cases body config
  · rw [hconfig, hconfig]
  · rw [hconfig]
    unfold addContentTypes
    rw [if_pos (by simp [Members.has])]

/-- Settings that are marked already can be marked again. -/
theorem addContentTypes_insert_version (body : Option RequestBody) (config : Members)
    (value : Json) :
    (addContentTypes body (config.insert "version" value)).insert "version" value =
      addContentTypes body (config.insert "version" value) := by
  obtain ⟨-, hconfig⟩ | ⟨-, media, -, -, hconfig⟩ :=
    addContentTypes_cases body (config.insert "version" value)
  · rw [hconfig, Members.insert_insert_self]
  · rw [hconfig, Members.insert_comm _ (by decide), Members.insert_insert_self]

theorem adds_addContentTypes (body : Option RequestBody) (config : Members) :
    Members.Adds ["allowed_content_types"] config (addContentTypes body config) := by
  obtain ⟨-, hconfig⟩ | ⟨hfree, media, -, -, hconfig⟩ := addContentTypes_cases body config
  · rw [hconfig]
    exact .refl _ _
  · rw [hconfig]
    exact .insert (by decide) hfree _

/-- Active settings that are marked and given media types complete those of the template. -/
theorem completes_of_adds {active : Members} (hadds : Members.Adds schemaKeys config active)
    (hactive : active.has "parameter_schema" = true ∨ active.has "body_schema" = true) :
    Plugin.Completes body config
      (addContentTypes body (active.insert "version" (.str schemaDraft))) := by
  set marked := active.insert "version" (.str schemaDraft) with hmarked
  have hmarks : ∀ key, key ≠ "version" → marked.get? key = active.get? key := by
    intro key hne
    rw [hmarked, Members.get?_insert, if_neg hne]
  have hfinal := adds_addContentTypes body marked
  constructor
  · intro key hne value hvalue
    exact hfinal.kept key value ((hmarks key hne).trans (hadds.kept key value hvalue))
  · intro key hnone hsome
    by_contra hkey
    simp only [List.mem_cons, List.not_mem_nil, or_false, not_or] at hkey
    obtain ⟨hparameter, hbody, hversion, htypes⟩ := hkey
    rw [hfinal.others key (by simpa using htypes), hmarks key hversion,
      hadds.others key (by simp [schemaKeys, hparameter, hbody]), hnone] at hsome
    cases hsome
  · exact hfinal.kept _ _ (by simp [hmarked])
  · have hhas : ∀ key, key ≠ "version" → active.has key = true →
        (addContentTypes body marked).has key = true := by
      intro key hne hset
      exact hfinal.has_of_has (by rwa [Members.has, hmarks key hne])
    exact hactive.imp (hhas _ (by decide)) (hhas _ (by decide))
  · intro hnone value hvalue
    have hfree : marked.get? "allowed_content_types" = none := by
      rw [hmarks _ (by decide), hadds.others _ (by decide), hnone]
    obtain ⟨-, hsame⟩ | ⟨-, media, hmedia, hcontent, hadded⟩ := addContentTypes_cases body marked
    · rw [hsame, hfree] at hvalue
      cases hvalue
    · rw [hadded, Members.get?_insert_self] at hvalue
      exact ⟨media, hmedia, hcontent, (Option.some.inj hvalue).symm⟩

/-- Settings that have a schema, and every schema that can be made, are not changed by making
schemas. -/
theorem addSchemas_self (doc : Document) (naming : Naming)
    (hparameters : config.has "parameter_schema" = true ∨ parameters = [])
    (hbody : config.has "body_schema" = true ∨ body.bind RequestBody.jsonSchema? = none)
    (hactive : config.has "parameter_schema" = true ∨ config.has "body_schema" = true) :
    addParameterSchema doc naming parameters config = .ok config ∧
      addBodySchema doc body config = .ok config ∧ activate? config = some config := by
  refine ⟨?_, ?_, ?_⟩
  · unfold addParameterSchema
    rcases hparameters with hset | rfl
    · rw [if_pos hset]
      rfl
    · split <;> rfl
  · unfold addBodySchema
    rcases hbody with hset | hnone
    · rw [if_pos hset]
      rfl
    · rw [hnone]
      split <;> rfl
  · unfold activate?
    rw [if_pos (by simpa using hactive)]

/-- The steps that make a validator: its settings are made active, marked, and given media types. -/
theorem exists_active_of_requestValidator {plugin : Members}
    (h : requestValidator doc naming stamp base parameters body (some template) =
      .ok (some plugin)) :
    ∃ active, Members.Adds schemaKeys (settings template) active ∧
      (active.has "parameter_schema" = true ∨ parameters = []) ∧
      (active.has "body_schema" = true ∨ body.bind RequestBody.jsonSchema? = none) ∧
      (active.has "parameter_schema" = true ∨ active.has "body_schema" = true) ∧
      plugin = (restamp stamp base (template.insert "name" (.str validatorName))).insert "config"
        (.obj (addContentTypes body (active.insert "version" (.str schemaDraft)))) := by
  rw [requestValidator_some] at h
  obtain ⟨c, hparameters, h⟩ := bind_eq_ok_iff.1 h
  obtain ⟨c', hbody, h⟩ := bind_eq_ok_iff.1 h
  obtain ⟨active, hactive, rfl⟩ := Option.map_eq_some_iff.1 (Except.ok.inj h)
  obtain ⟨hadds, hfirst, hsecond, hsome⟩ := adds_of_activate? hparameters hbody hactive
  exact ⟨active, hadds, hfirst, hsecond, hsome, rfl⟩

/-- A validator is its own template. -/
theorem requestValidator_self {plugin : Members}
    (h : requestValidator doc naming stamp base parameters body (some template) =
      .ok (some plugin)) :
    requestValidator doc naming stamp base parameters body (some plugin) = .ok (some plugin) := by
  obtain ⟨active, -, hparameters, hbody, hactive, rfl⟩ := exists_active_of_requestValidator h
  set marked := active.insert "version" (.str schemaDraft)
  set final := addContentTypes body marked with hfinal
  -- the schemas are found behind the version and the media types
  have hhas : ∀ key ∈ schemaKeys, active.has key = true → final.has key = true := by
    intro key hkey hset
    refine (adds_addContentTypes body marked).has_of_has ?_
    have hne : key ≠ "version" := by
      rintro rfl
      simp [schemaKeys] at hkey
    simpa [marked, Members.has, Members.get?_insert, hne] using hset
  obtain ⟨hfirst, hsecond, hsome⟩ := addSchemas_self doc naming
    (hparameters.imp_left (hhas _ (by decide))) (hbody.imp_left (hhas _ (by decide)))
    (hactive.imp (hhas _ (by decide)) (hhas _ (by decide)))
  have hsettings : settings ((restamp stamp base (template.insert "name" (.str validatorName))).insert
      "config" (.obj final)) = final := by
    simp [settings, Members.object?]
  rw [requestValidator_some, hsettings, hfirst, ok_bind, hsecond, ok_bind, hsome, Option.map_some]
  -- marking and adding media types change nothing, and neither do name and stamp
  rw [hfinal, addContentTypes_insert_version, addContentTypes_self, ← hfinal,
    Members.insert_comm _ (by decide), Plugin.restamp_insert_of_ne _ _ _ (by decide) (by decide)
      (by decide), Plugin.restamp_insert_name, Members.insert_insert_self,
    Members.insert_insert_self]
  rfl

/-- A validator has every field of its template but for name, stamp and settings. It has the settings
of the template but for the version, with schemas and media types added where the template leaves
them out. Taken as a template it gives itself. -/
theorem requestValidator_spec {plugin : Members}
    (h : requestValidator doc naming stamp base parameters body (some template) =
      .ok (some plugin)) :
    (∀ key, key ∉ ["name", "id", "tags", "config"] → plugin.get? key = template.get? key) ∧
    (∃ config, plugin.get? "config" = some (.obj config) ∧
      Plugin.Completes body (settings template) config) ∧
    (∀ operation : Members, (Json.obj doc.root).ordered = true →
      (Json.obj operation).ordered = true → doc.requestBody operation = .ok body →
      ∀ media, body = some media → (media.content.map (·.1)).Pairwise (· < ·)) ∧
    requestValidator doc naming stamp base parameters body (some plugin) = .ok (some plugin) := by
  have hself := requestValidator_self h
  obtain ⟨active, hadds, hparameters, hbody, hactive, rfl⟩ := exists_active_of_requestValidator h
  refine ⟨?_, ⟨_, Members.get?_insert_self _ _ _, ?_⟩, ?_, hself⟩
  · intro key hkey
    simp only [List.mem_cons, List.not_mem_nil, or_false, not_or] at hkey
    obtain ⟨hname, hid, htags, hconfig⟩ := hkey
    rw [Members.get?_insert, if_neg hconfig, restamp, Stamp.get?_apply_of_ne _ _ _ _ hid htags,
      Members.get?_insert, if_neg hname]
  · exact completes_of_adds hadds hactive
  · rintro operation hdoc hoperation hread media rfl
    exact Document.pairwise_of_requestBody hdoc hoperation hread

/-! ## Schemas of parameters -/

/-- What a validator says about a parameter: where it is and what it is called there, whether it is
required, how it is written, and its schema. -/
structure Parameter.DescribedBy (doc : Document) (naming : Naming) (q : Parameter) (entry : Json) :
    Prop where
  location : entry.get? "in" = some (.str q.location)
  name : entry.get? "name" = some (.str (q.validatedName naming))
  required : entry.get? "required" = some (.bool q.required)
  style : entry.get? "style" = some (.str (q.style.getD q.defaultStyle))
  explode : entry.get? "explode" = some (.bool (q.explode.getD false))
  schema : ∃ text, doc.extractSchema q.schema = .ok text ∧
    entry.get? "schema" = some (.str text)

theorem describedBy_of_parameterEntry {q : Parameter} {entry : Json}
    (h : parameterEntry doc naming q = .ok entry) : q.DescribedBy doc naming entry := by
  obtain ⟨text, htext, h⟩ := bind_eq_ok_iff.1 h
  obtain rfl := Except.ok.inj h
  constructor
  case schema => exact ⟨text, htext, by simp [Json.get?, Members.ofList]⟩
  all_goals simp [Json.get?, Members.ofList, Members.get?_insert]

/-- The schemas of parameters in active settings are those that were made. -/
theorem get?_parameterSchema_of_activate? {c c' active : Members}
    (hbody : addBodySchema doc body c = .ok c') (hactive : activate? c' = some active) :
    (addContentTypes body (active.insert "version" (.str schemaDraft))).get? "parameter_schema" =
      c.get? "parameter_schema" := by
  rw [(adds_addContentTypes _ _).others _ (by decide), Members.get?_insert, if_neg (by decide),
    (adds_activate? hactive).others _ (by decide), (adds_addBodySchema hbody).others _ (by decide)]

/-- Of a template without schemas of parameters an operation makes a validator that has one entry for
each of its parameters, in their order. Without parameters it makes none of them. -/
theorem parameterSchema_of_requestValidator {found : Option Members}
    (h : requestValidator doc naming stamp base parameters body (some template) = .ok found)
    (hown : (settings template).get? "parameter_schema" = none) :
    (parameters = [] → ∀ v, found = some v → (settings v).get? "parameter_schema" = none) ∧
    (parameters ≠ [] → ∃ v entries, found = some v ∧
      (settings v).get? "parameter_schema" = some (.arr entries) ∧
      List.Forall₂ (Parameter.DescribedBy doc naming) parameters entries) := by
  have hsettings : ∀ (plugin config : Members),
      settings (plugin.insert "config" (.obj config)) = config := by
    intro plugin config
    simp [settings, Members.object?]
  rw [requestValidator_some] at h
  obtain ⟨c, hparameters, h⟩ := bind_eq_ok_iff.1 h
  obtain ⟨c', hbody, h⟩ := bind_eq_ok_iff.1 h
  obtain rfl := Except.ok.inj h
  obtain ⟨hset | rfl, rfl⟩ | ⟨-, hne, entries, hentries, rfl⟩ :=
    addParameterSchema_cases hparameters
  · rw [Members.has, hown] at hset
    cases hset
  · refine ⟨?_, fun hne => absurd rfl hne⟩
    rintro - v hv
    obtain ⟨active, hactive, rfl⟩ := Option.map_eq_some_iff.1 hv
    rw [hsettings, get?_parameterSchema_of_activate? hbody hactive, hown]
  · refine ⟨fun hnil => absurd hnil hne, fun _ => ?_⟩
    have hsome : (activate? c').isSome = true := by
      refine (isSome_activate?_iff c').2 (Or.inl ?_)
      exact (adds_addBodySchema hbody).has_of_has (by simp [Members.has])
    obtain ⟨active, hactive⟩ := Option.isSome_iff_exists.1 hsome
    refine ⟨_, entries, by rw [hactive, Option.map_some], ?_,
      hentries.imp fun _ _ => describedBy_of_parameterEntry⟩
    rw [hsettings, get?_parameterSchema_of_activate? hbody hactive, Members.get?_insert_self]

end Completion

/-- An operation whose body has two media types, one of them of JSON. -/
def stockOperation : Members :=
  [("requestBody", .obj [("content", .obj
    [("application/json", .obj [("schema", .obj [("type", .str "object")])]),
      ("text/csv", .obj [])])])]

/-- A document with this operation. -/
def stockDocument : Document :=
  ⟨[("info", .obj [("title", .str "Stock")]), ("openapi", .str "3.0.0"),
    ("paths", .obj [("/stock", .obj [("post", .obj stockOperation)])])], "3.0.0"⟩

/-- A template that is turned off and has a setting of its own gives a validator that is turned off,
has the setting, a schema and both media types, and is its own template. -/
theorem requestValidator_spec_stock :
    ∃ (media : RequestBody) (plugin config : Members),
      stockDocument.requestBody stockOperation = .ok (some media) ∧
      requestValidator stockDocument { flat := false } ⟨[], Uuid.dns, true, Uuid.named⟩ "stock" []
        (some media) (some [("config", .obj [("verbose_response", .bool true)]),
          ("enabled", .bool false)]) = .ok (some plugin) ∧
      plugin.get? "enabled" = some (.bool false) ∧
      plugin.get? "config" = some (.obj config) ∧
      config.get? "verbose_response" = some (.bool true) ∧
      config.get? "version" = some (.str schemaDraft) ∧
      (media.content.map (·.1)).Pairwise (· < ·) ∧
      requestValidator stockDocument { flat := false } ⟨[], Uuid.dns, true, Uuid.named⟩ "stock" []
        (some media) (some plugin) = .ok (some plugin) := by
  have hread : stockDocument.requestBody stockOperation = .ok (some
      ⟨[("application/json", some (.obj [("type", .str "object")])), ("text/csv", none)]⟩) := rfl
  have hsome : ((requestValidator stockDocument { flat := false } ⟨[], Uuid.dns, true, Uuid.named⟩
      "stock" [] (some ⟨[("application/json", some (.obj [("type", .str "object")])),
        ("text/csv", none)]⟩) (some [("config", .obj [("verbose_response", .bool true)]),
          ("enabled", .bool false)])).toOption.map Option.isSome) = some true := by
    decide +kernel
  obtain ⟨found, hfound, hplugin⟩ := Option.map_eq_some_iff.1 hsome
  obtain ⟨plugin, rfl⟩ := Option.isSome_iff_exists.1 hplugin
  rw [toOption_eq_some_iff] at hfound
  obtain ⟨hfields, ⟨config, hconfig, hcompletes⟩, hordered, hself⟩ := requestValidator_spec hfound
  refine ⟨_, plugin, config, hread, hfound, ?_, hconfig, ?_, hcompletes.version, ?_, hself⟩
  · exact hfields "enabled" (by decide)
  · exact hcompletes.kept "verbose_response" (by decide) _ rfl
  · exact hordered stockOperation (by decide) (by decide) hread _ rfl

end ApiGateway
