import ApiGateway.Document.Cycle
import ApiGateway.Proofs.Document.Agreement

/-!
# The search for circular schemas

The search repeats no reference on its way, so the depth that it starts with is never exhausted and
has no influence. Documents that agree but for their paths therefore have the same cycles, although
they have different numbers of references.

## Main results

* `Json.walkReferences_congr`: a walk depends on its visits to the references of the value.
* `Document.Agree.visit_eq`: a visit depends neither on paths nor on a sufficient depth.
* `Document.Agree.circularReference?_eq`: the cycles of documents that agree.
-/
namespace ApiGateway

namespace Json
variable {ε σ : Type} {visit other : String → σ → Except ε σ}

mutual

/-- A walk depends on its visits to the references of the value alone. -/
theorem walkReferences_congr : ∀ (value : Json) (state : σ),
    (∀ r ∈ value.references, ∀ s, visit r s = other r s) →
    walkReferences visit value state = walkReferences other value state
  | .obj members, state, h => by
    rw [walkReferences, walkReferences]
    cases hown : Members.string? members "$ref" with
    | none => exact walkMembers_congr members state h
    | some r =>
      have hr : r ∈ (Json.obj members).references := mem_references_of_reference?
        (by simp [reference?, get?, Members.string?_eq_some_iff.1 hown, asString?])
      dsimp only
      rw [h r hr state]
      exact bind_congr fun s => walkMembers_congr members s h
  | .arr items, state, h => by
    rw [walkReferences, walkReferences]
    exact walkItems_congr items state h
  | .null, _, _ | .bool _, _, _ | .int _, _, _ | .float _, _, _ | .str _, _, _ => rfl

theorem walkItems_congr : ∀ (items : List Json) (state : σ),
    (∀ r ∈ referencesInItems items, ∀ s, visit r s = other r s) →
    walkItems visit items state = walkItems other items state
  | [], _, _ => rfl
  | item :: rest, state, h => by
    rw [walkItems, walkItems, walkReferences_congr item state
      fun r hr => h r (List.mem_append_left _ hr)]
    exact bind_congr fun s => walkItems_congr rest s fun r hr => h r (List.mem_append_right _ hr)

theorem walkMembers_congr : ∀ (members : List (String × Json)) (state : σ),
    (∀ r ∈ referencesInMembers members, ∀ s, visit r s = other r s) →
    walkMembers visit members state = walkMembers other members state
  | [], _, _ => rfl
  | (key, value) :: rest, state, h => by
    have hrest : ∀ s, walkMembers visit rest s = walkMembers other rest s := fun s =>
      walkMembers_congr rest s fun r hr => h r (List.mem_append_right _ hr)
    have hvalue := walkReferences_congr value state fun r hr =>
      h r (List.mem_append_left _ (List.mem_append_right _ hr))
    rw [walkMembers, walkMembers]
    split
    · exact hrest state
    · rw [hvalue]
      exact bind_congr hrest

end

end Json

namespace Document

/-- A search that starts from a component schema has room for all references. -/
theorem room_schema (doc : Document) (name : String) :
    Room [schemaReference name] (schemaReference name :: doc.references)
      (doc.referenceBound + 1) where
  nodup := by simp
  subset := by simp
  lt := by
    have hdoc := (Json.obj doc.root).length_references_le
    simp only [references, referenceBound, List.length_cons, List.length_nil]
    omega

/-- A component schema has no other references than its document. -/
theorem references_subset_of_mem_schemas {doc : Document} {schema : String × Json}
    (h : schema ∈ doc.schemas) : schema.2.references ⊆ doc.references := by
  unfold schemas at h
  split at h
  · rename_i members hmembers
    obtain ⟨components, hcomponents, hget⟩ := Option.bind_eq_some_iff.1 hmembers
    cases components with
    | obj inner =>
      intro r hr
      refine Json.references_subset_of_mem_children (Json.mem_children_of_get? hcomponents) ?_
      refine Json.references_subset_of_mem_children (Json.mem_children_of_get? hget) ?_
      exact Json.references_subset_of_mem_children (List.mem_map_of_mem h) hr
    | _ => cases hget
  · cases h

end Document

namespace Document.Agree
variable {doc doc' : Document} (h : doc.Agree doc')
include h

theorem schemas_eq : doc.schemas = doc'.schemas := by
  rw [schemas, schemas, h.root.get?_eq "components" (by decide)]

/-- A visit depends neither on paths nor on the depth, when the depth suffices. -/
theorem visit_eq {bound bound' : List String} (hbound : doc.references ⊆ bound)
    (hbound' : doc'.references ⊆ bound') {depth depth' : Nat} {way : List String}
    (hroom : Room way bound depth) (hroom' : Room way bound' depth') {reference : String}
    (hr : reference ∈ doc.references) (hr' : reference ∈ doc'.references) (cleared : List String) :
    doc.visit depth way reference cleared = doc'.visit depth' way reference cleared := by
  induction depth generalizing depth' way reference cleared with
  | zero =>
    -- the depth of one search is exhausted only by references on the way
    have hmem := hroom.mem_of_zero (hbound hr)
    cases depth' with
    | zero => rfl
    | succ depth' => rw [visit, visit, if_pos hmem]
  | succ depth ih =>
    cases depth' with
    | zero => rw [visit, visit, if_pos (hroom'.mem_of_zero (hbound' hr'))]
    | succ depth' =>
      rw [visit, visit]
      by_cases hway : reference ∈ way
      · rw [if_pos hway, if_pos hway]
      · rw [if_neg hway, if_neg hway]
        split
        · rfl
        · rw [h.lookup?_eq (h.detached _ hr)]
          cases htarget : doc'.lookup? reference with
          | none => rfl
          | some target =>
            have htarget' := (h.lookup?_eq (h.detached _ hr)).trans htarget
            dsimp only
            rw [Json.walkReferences_congr target cleared fun r hmem =>
              ih (hroom.add (hbound hr) hway) (hroom'.add (hbound' hr') hway)
                (references_subset_of_lookup? htarget' hmem)
                (references_subset_of_lookup? htarget hmem)]

/-- The component schemas are searched alike. -/
theorem searchSchema_eq {schema : String × Json} (hschema : schema ∈ doc.schemas)
    (cleared : List String) :
    doc.searchSchema cleared schema = doc'.searchSchema cleared schema := by
  have hschema' : schema ∈ doc'.schemas := h.schemas_eq ▸ hschema
  unfold searchSchema
  dsimp only
  rw [Json.walkReferences_congr schema.2 cleared fun r hr s => h.visit_eq
    (List.subset_cons_self _ _) (List.subset_cons_self _ _) (doc.room_schema schema.1)
    (doc'.room_schema schema.1) (references_subset_of_mem_schemas hschema hr)
    (references_subset_of_mem_schemas hschema' hr) s]

/-- The cycles of documents that agree but for their paths. -/
theorem circularReference?_eq : doc.circularReference? = doc'.circularReference? := by
  unfold circularReference?
  rw [← h.schemas_eq, foldlM_congr [] fun schema hschema s => h.searchSchema_eq hschema s]

end Document.Agree

end ApiGateway
