import ApiGateway.Compilation.Compile
import ApiGateway.Proofs.Outcome

/-!
# Given names

A document takes its base name from the options, from itself or from its title. When it has none of
them it takes a fresh identifier, and only then two runs can name it differently.

## Main definitions

* `Document.givenName?`: the name that options or document give.
* `Document.NamedAlike`: fresh identifiers that make no difference for the base name.

## Main results

* `Document.baseName_eq`: with a name given, no fresh identifier is used.
-/
namespace ApiGateway

/-- The name that options or document give: that of the options, else the one that the document
gives itself, else its title. -/
def Document.givenName? (doc : Document) (options : Options) : Option String :=
  options.documentName <|> doc.root.string? Directive.nameKey <|> doc.title?

theorem Directive.eq_string?_of_name? {scope : Members} {chosen : Option String}
    (h : Directive.name? scope = .ok chosen) : chosen = scope.string? Directive.nameKey := by
  unfold Directive.name? at h
  unfold Members.string?
  cases hget : scope.get? nameKey with
  | none =>
    rw [hget] at h
    exact (Except.ok.inj h).symm
  | some value =>
    rw [hget] at h
    cases value with
    | str name => exact (Except.ok.inj h).symm
    | _ => cases h

/-- With a name given, no fresh identifier is used. -/
theorem Document.baseName_eq {doc : Document} {options : Options}
    (h : doc.givenName? options ≠ none) (fresh fresh' : Uuid) :
    doc.baseName options fresh = doc.baseName options fresh' := by
  unfold baseName
  unfold givenName? at h
  cases hname : options.documentName with
  | some name => simp only [pure, Except.pure, ok_bind, Option.orElse_eq_orElse, Option.orElse_some]
  | none =>
    rw [hname] at h
    cases hown : Directive.name? doc.root with
    | error e => simp only [error_bind]
    | ok chosen =>
      rw [← Directive.eq_string?_of_name? hown] at h
      simp only [ok_bind]
      cases hgiven : (chosen <|> doc.title?) with
      | none => simp [hgiven] at h
      | some name => rfl

/-- Two fresh identifiers of which a document that needs one makes the same base name. -/
def Document.NamedAlike (doc : Document) (options : Options) (fresh fresh' : Uuid) : Prop :=
  doc.givenName? options = none → doc.baseName options fresh = doc.baseName options fresh'

/-- Runs that name a document without a name alike name every document alike. -/
theorem Document.NamedAlike.baseName_eq {doc : Document} {options : Options} {fresh fresh' : Uuid}
    (h : doc.NamedAlike options fresh fresh') :
    doc.baseName options fresh = doc.baseName options fresh' := by
  by_cases hgiven : doc.givenName? options = none
  · exact h hgiven
  · exact Document.baseName_eq hgiven fresh fresh'

/-- Whether a document can be named does not depend on the fresh identifier. -/
theorem Document.map_baseName (doc : Document) (options : Options) (fresh fresh' : Uuid) :
    ((doc.baseName options fresh).map fun _ => ()) =
      (doc.baseName options fresh').map fun _ => () := by
  unfold baseName
  cases options.documentName with
  | some name =>
    refine map_bind_congr_right _ fun chosen => ?_
    dsimp only
    cases chosen <|> doc.title? <;> simp only [pure, Except.pure, map_ok]
  | none =>
    refine map_bind_congr_right _ fun chosen => ?_
    dsimp only
    cases chosen <|> doc.title? <;> simp only [pure, Except.pure, map_ok]

end ApiGateway
