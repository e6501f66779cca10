import ApiGateway.Proofs.Outcome
import ApiGateway.Proofs.Plugin.Overlay
import ApiGateway.Validation.RequestValidator

/-!
# Templates of request validators

The declared validator is a template. What an operation makes of it depends on its settings and on
what the operation takes, and not on the owner it was stamped for before. It makes a validator
exactly when there is something to validate: settings that the template has itself, a parameter, or
a body with a schema, whose text is never empty.

## Main definitions

* `Plugin.settings`: what a plugin has under `config`.
* `Plugin.Checks`: a template that has something to validate.

## Main results

* `isSome_requestValidator_iff`: when an operation makes a validator.
* `requestValidator_restamp`: a validator for another owner.
-/
namespace ApiGateway

/-! ## Written values are not empty -/

theorem integerText_ne_empty (n : ℤ) : integerText n ≠ "" := by
  unfold integerText
  split <;> simp

theorem positionalText_ne_nil (plus : String) (digits : List Char) (point : ℤ) :
    positionalText plus digits point ≠ [] := by
  simp only [positionalText]
  split
  · split <;> simp
  · split
    · simp
    · split <;> simp

theorem Binary64.text_ne_empty (x : Binary64) : x.text ≠ "" := by
  intro h
  have htext := congrArg String.toList h
  simp only [text, textWith, String.toList_ofList] at htext
  split at htext
  · cases htext
  · split at htext
    · simp at htext
    · exact positionalText_ne_nil _ _ _ htext

theorem Json.compact_ne_empty (value : Json) : value.compact ≠ "" := by
  cases value with
  | null => simp [compact]
  | bool b => cases b <;> simp [compact]
  | int n => simpa [compact] using integerText_ne_empty n
  | float x => simpa [compact] using x.text_ne_empty
  | str text => simp [compact, quote]
  | arr items => simp [compact]
  | obj members => simp [compact]

/-- A schema that is there has a text that is not empty. -/
theorem Document.ne_empty_of_extractSchema {doc : Document} {schema : Json} {text : String}
    (h : doc.extractSchema (some schema) = .ok text) : text ≠ "" := by
  obtain ⟨complete, -, rfl⟩ := map_eq_ok_iff.1 h
  exact complete.compact_ne_empty

/-! ## Settings -/

namespace Plugin

/-- What a plugin has under `config`, nothing when that is no object. -/
def settings (plugin : Members) : Members := (plugin.object? "config").getD []

/-- A template has something to validate for an operation: the schemas or media types it sets
itself, the parameters, or the schema of the first JSON media type of the body. -/
def Checks (template : Members) (parameters : List Parameter) (body : Option RequestBody) : Prop :=
  ((settings template).has "parameter_schema" = true ∨
    (settings template).has "body_schema" = true ∨
    (settings template).has "allowed_content_types" = true) ∨
  parameters ≠ [] ∨ (body.bind RequestBody.jsonSchema?).isSome = true

end Plugin

open Plugin (settings restamp validatorName)

section Settings
variable {doc : Document} {naming : Naming} {parameters : List Parameter}
  {body : Option RequestBody} {config result : Members}

/-- The schemas of the parameters are added unless they are set already or there are none. -/
theorem addParameterSchema_cases
    (h : addParameterSchema doc naming parameters config = .ok result) :
    ((config.has "parameter_schema" = true ∨ parameters = []) ∧ result = config) ∨
      (config.has "parameter_schema" = false ∧ parameters ≠ [] ∧ ∃ entries,
        List.Forall₂ (fun p entry => parameterEntry doc naming p = .ok entry) parameters entries ∧
          result = config.insert "parameter_schema" (.arr entries)) := by
  unfold addParameterSchema at h
  split at h
  · rename_i hset
    exact Or.inl ⟨Or.inl hset, (Except.ok.inj h).symm⟩
  · rename_i hset
    rw [Bool.not_eq_true] at hset
    obtain ⟨entries, hentries, h⟩ := bind_eq_ok_iff.1 h
    have hall := forall₂_of_mapM_eq_ok hentries
    obtain rfl := Except.ok.inj h
    cases hall with
    | nil => exact Or.inl ⟨Or.inr rfl, by simp⟩
    | cons hentry hrest =>
      exact Or.inr ⟨hset, by simp, _, List.Forall₂.cons hentry hrest, by simp⟩

/-- Parameters are set unless they are set already or there are none. -/
theorem addParameterSchema_spec (h : addParameterSchema doc naming parameters config = .ok result) :
    (result.has "parameter_schema" = true ↔
      config.has "parameter_schema" = true ∨ parameters ≠ []) ∧
    ∀ key ≠ "parameter_schema", result.has key = config.has key := by
  obtain ⟨hset | rfl, rfl⟩ | ⟨-, hparameters, entries, -, rfl⟩ := addParameterSchema_cases h
  · simp [hset]
  · simp
  · refine ⟨by simp [Members.has, hparameters], ?_⟩
    intro key hne
    simp [Members.has, Members.get?_insert, hne]

/-- The schema of the body is added unless it is set already or there is none. -/
theorem addBodySchema_cases (h : addBodySchema doc body config = .ok result) :
    ((config.has "body_schema" = true ∨ body.bind RequestBody.jsonSchema? = none) ∧
        result = config) ∨
      (config.has "body_schema" = false ∧ ∃ schema text,
        body.bind RequestBody.jsonSchema? = some schema ∧
          doc.extractSchema (some schema) = .ok text ∧
          result = config.insert "body_schema" (.str text)) := by
  unfold addBodySchema at h
  split at h
  · rename_i hset
    exact Or.inl ⟨Or.inl hset, (Except.ok.inj h).symm⟩
  · rename_i hset
    rw [Bool.not_eq_true] at hset
    cases hschema : body.bind RequestBody.jsonSchema? with
    | none =>
      rw [hschema] at h
      exact Or.inl ⟨Or.inr rfl, (Except.ok.inj h).symm⟩
    | some schema =>
      rw [hschema] at h
      obtain ⟨text, htext, h⟩ := bind_eq_ok_iff.1 h
      rw [if_neg (doc.ne_empty_of_extractSchema htext)] at h
      exact Or.inr ⟨hset, schema, text, rfl, htext, (Except.ok.inj h).symm⟩

/-- The schema of the body is set unless it is set already or there is none. -/
theorem addBodySchema_spec (h : addBodySchema doc body config = .ok result) :
    (result.has "body_schema" = true ↔ config.has "body_schema" = true ∨
      (body.bind RequestBody.jsonSchema?).isSome = true) ∧
    ∀ key ≠ "body_schema", result.has key = config.has key := by
  obtain ⟨hset | hnone, rfl⟩ | ⟨-, schema, text, hschema, -, rfl⟩ := addBodySchema_cases h
  · simp [hset]
  · simp [hnone]
  · refine ⟨by simp [Members.has, hschema], ?_⟩
    intro key hne
    simp [Members.has, Members.get?_insert, hne]

/-- Settings are active as they are when they have a schema, and with an empty one when they have
media types. -/
theorem activate?_cases (h : activate? config = some result) :
    ((config.has "parameter_schema" = true ∨ config.has "body_schema" = true) ∧
        result = config) ∨
      (config.has "body_schema" = false ∧
        result = config.insert "body_schema" (.str "\x7b\x7d")) := by
  unfold activate? at h
  split at h
  · rename_i hschema
    exact Or.inl ⟨by simpa using hschema, (Option.some.inj h).symm⟩
  · rename_i hschema
    split at h
    · exact Or.inr ⟨by simp_all, (Option.some.inj h).symm⟩
    · cases h

theorem isSome_activate?_iff (config : Members) : (activate? config).isSome = true ↔
    config.has "parameter_schema" = true ∨ config.has "body_schema" = true ∨
      config.has "allowed_content_types" = true := by
  unfold activate?
  split
  · rename_i hschema
    rw [Bool.or_eq_true] at hschema
    simp only [Option.isSome_some, true_iff]
    exact or_assoc.1 (Or.inl hschema)
  · split <;> simp_all

end Settings

/-! ## Validators -/

section Validators
variable {doc : Document} {naming : Naming} {stamp : Stamp} {base : String}
  {parameters : List Parameter} {body : Option RequestBody}

/-- The settings of a template do not depend on its owner and its name. -/
theorem Plugin.settings_restamp (stamp : Stamp) (base : String) (plugin : Members) :
    settings (restamp stamp base plugin) = settings plugin := by
  simp [settings, Members.object?, restamp, Stamp.get?_apply_of_ne]

theorem Plugin.settings_insert_name (plugin : Members) (value : Json) :
    settings (plugin.insert "name" value) = settings plugin := by
  simp [settings, Members.object?, Members.get?_insert]

/-- A validator is made in three steps: its two schemas, its activation, and all that it checks. -/
theorem requestValidator_some (doc : Document) (naming : Naming) (stamp : Stamp) (base : String)
    (parameters : List Parameter) (body : Option RequestBody) (template : Members) :
    requestValidator doc naming stamp base parameters body (some template) = (do
      let config ← addParameterSchema doc naming parameters (settings template)
      let config ← addBodySchema doc body config
      return (activate? config).map fun config =>
        (restamp stamp base (template.insert "name" (.str validatorName))).insert "config"
          (.obj (addContentTypes body (config.insert "version" (.str schemaDraft))))) := by
  have hsettings : settings (restamp stamp base (template.insert "name" (.str validatorName))) =
      settings template := by
    rw [Plugin.settings_restamp, Plugin.settings_insert_name]
  rw [← hsettings]
  rfl

/-- An operation has a validator exactly when there is a template that has something to validate
for it. -/
theorem isSome_requestValidator_iff {template found : Option Members}
    (h : requestValidator doc naming stamp base parameters body template = .ok found) :
    found.isSome = true ↔ ∃ t, template = some t ∧ Plugin.Checks t parameters body := by
  cases template with
  | none =>
    obtain rfl := Except.ok.inj h
    simp
  | some t =>
    rw [requestValidator_some] at h
    obtain ⟨config, hparameters, h⟩ := bind_eq_ok_iff.1 h
    obtain ⟨config', hbody, h⟩ := bind_eq_ok_iff.1 h
    obtain rfl := Except.ok.inj h
    obtain ⟨hschema, hothers⟩ := addParameterSchema_spec hparameters
    obtain ⟨hschema', hothers'⟩ := addBodySchema_spec hbody
    rw [Option.isSome_map, isSome_activate?_iff, hothers' _ (by decide), hschema, hschema',
      hothers _ (by decide), hothers' _ (by decide), hothers _ (by decide)]
    simp only [Option.some.injEq, exists_eq_left', Plugin.Checks]
    tauto

/-- What an operation makes of a template that was stamped, stamped for another owner, is what it
makes of the template for this owner. -/
theorem requestValidator_restamp {template found : Option Members} {origin : String}
    (h : requestValidator doc naming stamp base parameters body
      (template.map (restamp stamp origin)) = .ok found) (owner : String) :
    requestValidator doc naming stamp owner parameters body template =
      .ok (found.map (restamp stamp owner)) := by
  cases template with
  | none =>
    obtain rfl := Except.ok.inj h
    rfl
  | some t =>
    rw [Option.map_some, requestValidator_some, Plugin.settings_restamp] at h
    obtain ⟨config, hparameters, h⟩ := bind_eq_ok_iff.1 h
    obtain ⟨config', hbody, h⟩ := bind_eq_ok_iff.1 h
    obtain rfl := Except.ok.inj h
    simp only [requestValidator_some, hparameters, ok_bind, hbody, Option.map_map]
    congr 2
    funext active
    rw [Function.comp_apply, Plugin.restamp_insert_of_ne _ _ _ (by decide : "config" ≠ "id")
      (by decide) (by decide), Plugin.restamp_restamp, Plugin.restamp_insert_name]

end Validators

end ApiGateway
