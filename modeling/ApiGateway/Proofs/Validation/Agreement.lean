import ApiGateway.Proofs.Document.Agreement
import ApiGateway.Proofs.Validation.Collection
import ApiGateway.Validation.RequestValidator

/-!
# Validators of documents that agree

What a schema collects is found by following references, never one twice, so neither the depth of
the search nor the number of references in the document has an influence. Documents that agree but
for their paths give the same self-contained schemas and the same request validators.

## Main results

* `Document.Agree.collectReference_eq`: following one reference.
* `Document.Agree.extractSchema_eq`: the text of a self-contained schema.
* `Document.Agree.requestValidator_eq`: the validator of an operation.
-/
namespace ApiGateway.Document

/-- References are collected alike one after the other when each is, as long as there is room. -/
theorem foldlM_collectReference_congr {doc doc' : Document} {bound bound' : List String}
    (hclosed : doc.Closed bound) (hclosed' : doc'.Closed bound') {depth depth' : Nat}
    (hstep : ∀ r ∈ bound, r ∈ bound' → ∀ c : Collected, Room c.references bound depth →
      Room c.references bound' depth' →
      doc.collectReference depth r c = doc'.collectReference depth' r c)
    {references : List String} (hsub : references ⊆ bound) (hsub' : references ⊆ bound')
    {c : Collected} (hroom : Room c.references bound depth)
    (hroom' : Room c.references bound' depth') :
    references.foldlM (fun c r => doc.collectReference depth r c) c =
      references.foldlM (fun c r => doc'.collectReference depth' r c) c := by
  refine foldlM_congr_of_invariant (fun s : Collected => Room s.references bound depth ∧
    Room s.references bound' depth') ⟨hroom, hroom'⟩
    (fun r hr s hs => hstep r (hsub hr) (hsub' hr) s hs.1 hs.2) ?_
  rintro r hr s t ⟨hs, hs'⟩ ht
  have ht' := (hstep r (hsub hr) (hsub' hr) s hs hs').symm.trans ht
  exact ⟨hs.grow hclosed (by simpa using hsub hr)
      (collectReference_grows hclosed depth (hsub hr) hs ht),
    hs'.grow hclosed' (by simpa using hsub' hr)
      (collectReference_grows hclosed' depth' (hsub' hr) hs' ht')⟩

namespace Agree
variable {doc doc' : Document} (h : doc.Agree doc')
include h

/-- Following a reference depends neither on paths nor on the depth, when the depth suffices. -/
theorem collectReference_eq {bound bound' : List String} (hout : ∀ r ∈ bound, ¬ IntoPaths r)
    (hclosed : doc.Closed bound) (hclosed' : doc'.Closed bound') {depth depth' : Nat}
    {reference : String} (hr : reference ∈ bound) (hr' : reference ∈ bound') {c : Collected}
    (hroom : Room c.references bound depth) (hroom' : Room c.references bound' depth') :
    doc.collectReference depth reference c = doc'.collectReference depth' reference c := by
  induction depth generalizing depth' reference c with
  | zero =>
    -- the depth of one search is exhausted only by references that are collected
    have hmem := hroom.mem_of_zero hr
    cases depth' with
    | zero => rfl
    | succ depth' => rw [collectReference, collectReference, if_pos hmem]
  | succ depth ih =>
    cases depth' with
    | zero => rw [collectReference, collectReference, if_pos (hroom'.mem_of_zero hr')]
    | succ depth' =>
      rw [collectReference, collectReference]
      by_cases hmem : reference ∈ c.references
      · rw [if_pos hmem, if_pos hmem]
      · rw [if_neg hmem, if_neg hmem]
        have hlookup := h.lookup?_eq (hout reference hr)
        rw [hlookup]
        cases htarget : doc'.lookup? reference with
        | none => rfl
        | some target =>
          have hsub := hclosed reference hr target (hlookup.trans htarget)
          have hsub' := hclosed' reference hr' target htarget
          dsimp only
          rw [walkSchema_eq_foldlM, walkSchema_eq_foldlM]
          exact foldlM_collectReference_congr hclosed hclosed'
            (fun r hr hr' c hroom hroom' => ih hr hr' hroom hroom') hsub hsub'
            (hroom.add hr hmem) (hroom'.add hr' hmem)

/-- A schema collects the same. -/
theorem collect_eq {schema : Json} (hschema : schema.Detached) :
    doc.collect schema = doc'.collect schema := by
  have hout : ∀ r ∈ schema.references ++ doc.references, ¬ IntoPaths r := by
    intro r hr
    obtain hr | hr := List.mem_append.1 hr
    · exact hschema r hr
    · exact h.detached r hr
  have hsub : ∀ d : Document, schema.schemaReferences ⊆ schema.references ++ d.references :=
    fun _ _ hr => List.mem_append_left _ (schema.schemaReferences_subset hr)
  rw [collect, collect, walkSchema_eq_foldlM, walkSchema_eq_foldlM]
  exact foldlM_collectReference_congr (doc.closed_references schema) (doc'.closed_references schema)
    (fun r hr hr' c hroom hroom' => h.collectReference_eq hout (doc.closed_references schema)
      (doc'.closed_references schema) hr hr' hroom hroom')
    (hsub doc) (hsub doc') (doc.room_references schema) (doc'.room_references schema)

/-- The text of a self-contained schema. -/
theorem extractSchema_eq {schema : Option Json} (hschema : ∀ s, schema = some s → s.Detached) :
    doc.extractSchema schema = doc'.extractSchema schema := by
  cases schema with
  | none => rfl
  | some schema =>
    rw [extractSchema, extractSchema, selfContained, selfContained, h.collect_eq (hschema schema rfl)]

/-- The validator of an operation. -/
theorem requestValidator_eq {parameters : List Parameter} {body : Option RequestBody}
    (hparameters : ∀ p ∈ parameters, p.Detached) (hbody : ∀ b, body = some b → b.Detached)
    (naming : Naming) (stamp : Stamp) (base : String) (template : Option Members) :
    requestValidator doc naming stamp base parameters body template =
      requestValidator doc' naming stamp base parameters body template := by
  have hentries : ∀ config, addParameterSchema doc naming parameters config =
      addParameterSchema doc' naming parameters config := by
    intro config
    have hentry : ∀ p ∈ parameters, parameterEntry doc naming p = parameterEntry doc' naming p := by
      intro p hp
      rw [parameterEntry, parameterEntry, h.extractSchema_eq (hparameters p hp)]
    rw [addParameterSchema, addParameterSchema, mapM_congr hentry]
  have hschema : ∀ config, addBodySchema doc body config = addBodySchema doc' body config := by
    intro config
    unfold addBodySchema
    cases hjson : body.bind RequestBody.jsonSchema? with
    | none => rfl
    | some schema =>
      obtain ⟨b, hb, hfound⟩ := Option.bind_eq_some_iff.1 hjson
      obtain ⟨entry, hentry, hsome⟩ := Option.bind_eq_some_iff.1 hfound
      have hdetached := hbody b hb entry (List.mem_of_find?_eq_some hentry) schema hsome
      dsimp only
      rw [h.extractSchema_eq fun s hs => Option.some.inj hs ▸ hdetached]
  unfold requestValidator
  simp only [hentries, hschema]

end Agree

end ApiGateway.Document
