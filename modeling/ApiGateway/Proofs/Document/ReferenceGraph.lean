import ApiGateway.Proofs.Document.Cycle
import ApiGateway.Proofs.Document.Pointer
import Mathlib.Logic.Relation

/-!
# Cycles of references

The references of a document are the nodes of a graph: one leads to another when it resolves to a
value that mentions the other. The search for circular schemas goes depth first through this graph.
It is stated here once more as a relation, without any bound on its depth: a derivation of it is a
run that ends. What the search says is read off its runs, by induction on them.

* Every reference on the way leads to the ones that are met, so one that is met again lies on a
  cycle.
* Following references from a cleared one comes to an end on every path. So no cycle can be reached
  from it, and the search is right to skip it.

## Main definitions

* `Json.mentioned`: the references that a value mentions.
* `Document.LeadsTo`: the graph of the references.
* `Document.Searches`, `Document.SearchesSchemas`: the runs of the search.

## Main results

* `Json.walkReferences_eq_foldlM`: a walk visits the references that the value mentions.
* `Document.searches_visit`, `Document.searchesSchemas_foldlM`: the search always ends.
* `Document.Searches.cycle_of_error`: a reference that closes a cycle lies on one.
* `Document.Searches.acc_of_ok`: what a search clears leads into no cycle.
* `Document.circularReference?_spec`: what the search for circular schemas finds.
-/
namespace ApiGateway

/-! ## What a value mentions -/

namespace Json

mutual

/-- The references that a value mentions, from left to right: its own one, and those of the values
below it, but for what stands below `$ref`. -/
def mentioned : Json → List String
  | .obj members => (Members.string? members "$ref").toList ++ mentionedInMembers members
  | .arr items => mentionedInItems items
  | _ => []

/-- The references that the items of a list mention. -/
def mentionedInItems : List Json → List String
  | [] => []
  | item :: rest => mentioned item ++ mentionedInItems rest

/-- The references that the members of an object other than `$ref` mention. -/
def mentionedInMembers : List (String × Json) → List String
  | [] => []
  | (key, value) :: rest =>
    (if key = "$ref" then [] else mentioned value) ++ mentionedInMembers rest

end

mutual

/-- A value mentions references that it has. -/
theorem mentioned_subset : ∀ value : Json, value.mentioned ⊆ value.references
  | .obj members => by
    intro r hr
    obtain hown | hbelow := List.mem_append.1 (by simpa only [mentioned] using hr)
    · have hget := Members.string?_eq_some_iff.1 (Option.mem_toList.1 hown)
      exact mem_references_of_reference? (by simp [reference?, get?, hget, asString?])
    · simpa only [references] using mentionedInMembers_subset members hbelow
  | .arr items => by
    simpa only [mentioned, references] using mentionedInItems_subset items
  | .null | .bool _ | .int _ | .float _ | .str _ => by simp [mentioned]

theorem mentionedInItems_subset : ∀ items : List Json,
    mentionedInItems items ⊆ referencesInItems items
  | [] => by simp [mentionedInItems]
  | item :: rest => by
    simp only [mentionedInItems, referencesInItems]
    exact List.append_subset.2
      ⟨List.subset_append_of_subset_left _ (mentioned_subset item),
        List.subset_append_of_subset_right _ (mentionedInItems_subset rest)⟩

theorem mentionedInMembers_subset : ∀ members : List (String × Json),
    mentionedInMembers members ⊆ referencesInMembers members
  | [] => by simp [mentionedInMembers]
  | (key, value) :: rest => by
    simp only [mentionedInMembers, referencesInMembers]
    refine List.append_subset.2 ⟨List.subset_append_of_subset_left _ ?_,
      List.subset_append_of_subset_right _ (mentionedInMembers_subset rest)⟩
    by_cases hkey : key = "$ref"
    · simp [hkey]
    · simpa [hkey] using mentioned_subset value

end

section Walk
variable {ε σ : Type} (visit : String → σ → Except ε σ)

mutual

/-- A walk visits the references that the value mentions, one after the other. -/
theorem walkReferences_eq_foldlM : ∀ (value : Json) (state : σ),
    walkReferences visit value state = value.mentioned.foldlM (fun s r => visit r s) state
  | .obj members, state => by
    rw [walkReferences, mentioned, List.foldlM_append]
    cases Members.string? members "$ref" with
    | none => exact walkMembers_eq_foldlM members state
    | some reference =>
      simp only [Option.toList_some, List.foldlM_cons, List.foldlM_nil, bind_pure]
      exact bind_congr fun s => walkMembers_eq_foldlM members s
  | .arr items, state => by
    rw [walkReferences, mentioned]
    exact walkItems_eq_foldlM items state
  | .null, _ | .bool _, _ | .int _, _ | .float _, _ | .str _, _ => rfl

theorem walkItems_eq_foldlM : ∀ (items : List Json) (state : σ),
    walkItems visit items state =
      (mentionedInItems items).foldlM (fun s r => visit r s) state
  | [], _ => rfl
  | item :: rest, state => by
    rw [walkItems, mentionedInItems, List.foldlM_append, walkReferences_eq_foldlM item state]
    exact bind_congr fun s => walkItems_eq_foldlM rest s

theorem walkMembers_eq_foldlM : ∀ (members : List (String × Json)) (state : σ),
    walkMembers visit members state =
      (mentionedInMembers members).foldlM (fun s r => visit r s) state
  | [], _ => rfl
  | (key, value) :: rest, state => by
    rw [walkMembers, mentionedInMembers, List.foldlM_append]
    by_cases hkey : key = "$ref"
    · rw [if_pos hkey, if_pos hkey]
      exact walkMembers_eq_foldlM rest state
    · rw [if_neg hkey, if_neg hkey, walkReferences_eq_foldlM value state]
      exact bind_congr fun s => walkMembers_eq_foldlM rest s

end

end Walk

end Json

namespace Document

/-! ## The runs of the search -/

/-- A reference leads to another one when it resolves to a value that mentions it. -/
def LeadsTo (doc : Document) (r s : String) : Prop :=
  ∃ target, doc.lookup? r = some target ∧ s ∈ target.mentioned

/-- The runs of the search along references, one after the other. They depend on the references on
the way and on those that are cleared, and end with all that are cleared then, or with a reference
that closes a cycle. -/
inductive Searches (doc : Document) :
    (way references cleared : List String) → Except String (List String) → Prop where
  | done {way cleared : List String} : doc.Searches way [] cleared (.ok cleared)
  | closes {way rest cleared : List String} {r : String} :
      r ∈ way → doc.Searches way (r :: rest) cleared (.error r)
  | skips {way rest cleared : List String} {r : String} {result : Except String (List String)} :
      r ∉ way → r ∈ cleared → doc.Searches way rest cleared result →
      doc.Searches way (r :: rest) cleared result
  | dangles {way rest cleared : List String} {r : String}
      {result : Except String (List String)} :
      r ∉ way → r ∉ cleared → doc.lookup? r = none →
      doc.Searches way rest (r :: cleared) result → doc.Searches way (r :: rest) cleared result
  | fails {way rest cleared : List String} {r s : String} {target : Json} :
      r ∉ way → r ∉ cleared → doc.lookup? r = some target →
      doc.Searches (r :: way) target.mentioned cleared (.error s) →
      doc.Searches way (r :: rest) cleared (.error s)
  | clears {way rest cleared found : List String} {r : String} {target : Json}
      {result : Except String (List String)} :
      r ∉ way → r ∉ cleared → doc.lookup? r = some target →
      doc.Searches (r :: way) target.mentioned cleared (.ok found) →
      doc.Searches way rest (r :: found) result → doc.Searches way (r :: rest) cleared result

/-- The runs of the search through component schemas, one after the other. -/
inductive SearchesSchemas (doc : Document) :
    (schemas : Members) → (cleared : List String) → Except String (List String) → Prop where
  | done {cleared : List String} : doc.SearchesSchemas [] cleared (.ok cleared)
  | skips {name : String} {schema : Json} {rest : Members} {cleared : List String}
      {result : Except String (List String)} :
      schemaReference name ∈ cleared → doc.SearchesSchemas rest cleared result →
      doc.SearchesSchemas ((name, schema) :: rest) cleared result
  | fails {name r : String} {schema : Json} {rest : Members} {cleared : List String} :
      schemaReference name ∉ cleared →
      doc.Searches [schemaReference name] schema.mentioned cleared (.error r) →
      doc.SearchesSchemas ((name, schema) :: rest) cleared (.error r)
  | clears {name : String} {schema : Json} {rest : Members} {cleared found : List String}
      {result : Except String (List String)} :
      schemaReference name ∉ cleared →
      doc.Searches [schemaReference name] schema.mentioned cleared (.ok found) →
      doc.SearchesSchemas rest (schemaReference name :: found) result →
      doc.SearchesSchemas ((name, schema) :: rest) cleared result

variable {doc : Document} {way references cleared found : List String} {r s : String}
  {result other : Except String (List String)}

/-- A search has one result. -/
theorem Searches.unique (h : doc.Searches way references cleared result)
    (h' : doc.Searches way references cleared other) : result = other := by
  induction h generalizing other with
  | done =>
    cases h'
    rfl
  | closes hway =>
    cases h' with
    | closes => rfl
    | skips hnew => exact absurd hway hnew
    | dangles hnew => exact absurd hway hnew
    | fails hnew => exact absurd hway hnew
    | clears hnew => exact absurd hway hnew
  | skips hnew hknown _ ih =>
    cases h' with
    | closes hway => exact absurd hway hnew
    | skips _ _ hrest => exact ih hrest
    | dangles _ hunknown => exact absurd hknown hunknown
    | fails _ hunknown => exact absurd hknown hunknown
    | clears _ hunknown => exact absurd hknown hunknown
  | dangles hnew hunknown hlookup _ ih =>
    cases h' with
    | closes hway => exact absurd hway hnew
    | skips _ hknown => exact absurd hknown hunknown
    | dangles _ _ _ hrest => exact ih hrest
    | fails _ _ hsome => cases hlookup.symm.trans hsome
    | clears _ _ hsome => cases hlookup.symm.trans hsome
  | fails hnew hunknown hlookup _ ih =>
    cases h' with
    | closes hway => exact absurd hway hnew
    | skips _ hknown => exact absurd hknown hunknown
    | dangles _ _ hnone => cases hlookup.symm.trans hnone
    | fails _ _ hsome hbelow =>
      obtain rfl := Option.some.inj (hlookup.symm.trans hsome)
      exact ih hbelow
    | clears _ _ hsome hbelow =>
      obtain rfl := Option.some.inj (hlookup.symm.trans hsome)
      cases ih hbelow
  | clears hnew hunknown hlookup _ _ ihbelow ihrest =>
    cases h' with
    | closes hway => exact absurd hway hnew
    | skips _ hknown => exact absurd hknown hunknown
    | dangles _ _ hnone => cases hlookup.symm.trans hnone
    | fails _ _ hsome hbelow =>
      obtain rfl := Option.some.inj (hlookup.symm.trans hsome)
      cases ihbelow hbelow
    | clears _ _ hsome hbelow hrest =>
      obtain rfl := Option.some.inj (hlookup.symm.trans hsome)
      obtain rfl := Except.ok.inj (ihbelow hbelow)
      exact ihrest hrest

/-- A search through component schemas has one result. -/
theorem SearchesSchemas.unique {schemas : Members}
    (h : doc.SearchesSchemas schemas cleared result)
    (h' : doc.SearchesSchemas schemas cleared other) : result = other := by
  induction h generalizing other with
  | done =>
    cases h'
    rfl
  | skips hknown _ ih =>
    cases h' with
    | skips _ hrest => exact ih hrest
    | fails hunknown => exact absurd hknown hunknown
    | clears hunknown => exact absurd hknown hunknown
  | fails hunknown hbelow =>
    cases h' with
    | skips hknown => exact absurd hknown hunknown
    | fails _ hbelow' => exact hbelow.unique hbelow'
    | clears _ hbelow' => cases hbelow.unique hbelow'
  | clears hunknown hbelow _ ih =>
    cases h' with
    | skips hknown => exact absurd hknown hunknown
    | fails _ hbelow' => cases hbelow.unique hbelow'
    | clears _ hbelow' hrest =>
      obtain rfl := Except.ok.inj (hbelow.unique hbelow')
      exact ih hrest

/-! ## The search ends -/

/-- Visits with a depth that suffices are a run of the search without a bound. -/
theorem searches_visit {bound : List String} (hbound : doc.references ⊆ bound) (depth : Nat)
    (hroom : Room way bound depth) (hsub : references ⊆ bound) (cleared : List String) :
    doc.Searches way references cleared
      (references.foldlM (fun c r => doc.visit depth way r c) cleared) := by
  induction depth generalizing way references cleared with
  | zero =>
    cases references with
    | nil => exact .done
    | cons r rest => exact .closes (hroom.mem_of_zero (hsub List.mem_cons_self))
  | succ depth ih =>
    induction references generalizing cleared with
    | nil => exact .done
    | cons r rest ihrest =>
      obtain ⟨hr, hrest⟩ := List.cons_subset.1 hsub
      rw [List.foldlM_cons, visit]
      by_cases hway : r ∈ way
      · rw [if_pos hway]
        exact .closes hway
      rw [if_neg hway]
      by_cases hknown : r ∈ cleared
      · rw [if_pos hknown]
        exact .skips hway hknown (ihrest hrest cleared)
      rw [if_neg hknown]
      cases hlookup : doc.lookup? r with
      | none => exact .dangles hway hknown hlookup (ihrest hrest (r :: cleared))
      | some target =>
        have hbelow := ih (hroom.add hr hway) (fun s hs =>
          hbound (references_subset_of_lookup? hlookup (target.mentioned_subset hs))) cleared
        dsimp only
        rw [Json.walkReferences_eq_foldlM]
        cases hrun : target.mentioned.foldlM (fun c s => doc.visit depth (r :: way) s c) cleared with
        | error s =>
          rw [hrun] at hbelow
          exact .fails hway hknown hlookup hbelow
        | ok found =>
          rw [hrun] at hbelow
          exact .clears hway hknown hlookup hbelow (ihrest hrest (r :: found))

/-- The search through component schemas is a run of the search without a bound. -/
theorem searchesSchemas_foldlM {schemas : Members} (hschemas : schemas ⊆ doc.schemas)
    (cleared : List String) :
    doc.SearchesSchemas schemas cleared (schemas.foldlM doc.searchSchema cleared) := by
  induction schemas generalizing cleared with
  | nil => exact .done
  | cons entry rest ih =>
    obtain ⟨name, schema⟩ := entry
    obtain ⟨hentry, hrest⟩ := List.cons_subset.1 hschemas
    rw [List.foldlM_cons, searchSchema]
    by_cases hknown : schemaReference name ∈ cleared
    · rw [if_pos hknown]
      exact .skips hknown (ih hrest cleared)
    rw [if_neg hknown]
    have hsub : schema.mentioned ⊆ schemaReference name :: doc.references := fun r hr =>
      List.mem_cons_of_mem _ (references_subset_of_mem_schemas hentry (schema.mentioned_subset hr))
    have hbelow := searches_visit (List.subset_cons_self _ _) _ (doc.room_schema name) hsub cleared
    rw [← Json.walkReferences_eq_foldlM] at hbelow
    cases hrun : schema.walkReferences (doc.visit (doc.referenceBound + 1) [schemaReference name])
        cleared with
    | error r =>
      rw [hrun] at hbelow
      exact .fails hknown hbelow
    | ok found =>
      rw [hrun] at hbelow
      exact .clears hknown hbelow (ih hrest (schemaReference name :: found))

/-- What is cleared stays cleared, and all that is searched is cleared in the end. -/
theorem Searches.subset_of_ok (h : doc.Searches way references cleared result)
    (hresult : result = .ok found) : cleared ⊆ found ∧ references ⊆ found := by
  induction h generalizing found with
  | done =>
    obtain rfl := Except.ok.inj hresult
    exact ⟨List.Subset.refl _, List.nil_subset _⟩
  | closes => cases hresult
  | skips _ hknown _ ih =>
    obtain ⟨hcleared, hrest⟩ := ih hresult
    exact ⟨hcleared, List.cons_subset.2 ⟨hcleared hknown, hrest⟩⟩
  | dangles _ _ _ _ ih =>
    obtain ⟨hcleared, hrest⟩ := ih hresult
    obtain ⟨hr, hcleared⟩ := List.cons_subset.1 hcleared
    exact ⟨hcleared, List.cons_subset.2 ⟨hr, hrest⟩⟩
  | fails => cases hresult
  | clears _ _ _ _ _ ihbelow ih =>
    obtain ⟨hbelow, -⟩ := ihbelow rfl
    obtain ⟨hcleared, hrest⟩ := ih hresult
    obtain ⟨hr, hcleared⟩ := List.cons_subset.1 hcleared
    exact ⟨List.Subset.trans hbelow hcleared, List.cons_subset.2 ⟨hr, hrest⟩⟩

/-- The component schemas that are still to be searched: all whose references are not cleared. -/
def Remaining (doc : Document) (schemas : Members) (cleared : List String) : Prop :=
  ∀ name, schemaReference name ∉ cleared → schemas.get? name = doc.schemas.get? name

namespace Remaining
variable {schemas : Members} {name : String} {schema : Json}

/-- A schema that is searched next is what its reference leads to. -/
theorem lookup?_eq (h : doc.Remaining ((name, schema) :: schemas) cleared)
    (hnew : schemaReference name ∉ cleared) :
    doc.lookup? (schemaReference name) = some schema := by
  have hget := h name hnew
  rw [Members.get?_cons, if_pos rfl] at hget
  exact lookup?_schemaReference hget.symm

/-- The reference of a schema that is searched next is one of a component schema. -/
theorem mem_keys (h : doc.Remaining ((name, schema) :: schemas) cleared)
    (hnew : schemaReference name ∉ cleared) : name ∈ doc.schemas.keys := by
  have hget := h name hnew
  rw [Members.get?_cons, if_pos rfl] at hget
  exact List.mem_map_of_mem (Members.mem_of_get? hget.symm)

/-- A schema is done with when its reference is cleared. -/
theorem rest (h : doc.Remaining ((name, schema) :: schemas) cleared) (hsub : cleared ⊆ found)
    (hname : schemaReference name ∈ found) : doc.Remaining schemas found := by
  intro other hother
  have hne : other ≠ name := by
    rintro rfl
    exact hother hname
  rw [← h other fun hmem => hother (hsub hmem), Members.get?_cons, if_neg hne]

end Remaining

/-! ## What closes a cycle lies on one -/

/-- When every reference on the way leads to all that are searched, a reference that closes a cycle
lies on one, and is reached from one of those that are searched. -/
theorem Searches.cycle_of_error (h : doc.Searches way references cleared result)
    (hway : ∀ w ∈ way, ∀ r ∈ references, Relation.TransGen doc.LeadsTo w r)
    (hresult : result = .error s) :
    Relation.TransGen doc.LeadsTo s s ∧
      ∃ r ∈ references, Relation.ReflTransGen doc.LeadsTo r s := by
  -- what holds of the references after the first one holds of all
  have hmore : ∀ {r : String} {rest : List String},
      (Relation.TransGen doc.LeadsTo s s ∧
        ∃ t ∈ rest, Relation.ReflTransGen doc.LeadsTo t s) →
      Relation.TransGen doc.LeadsTo s s ∧
        ∃ t ∈ r :: rest, Relation.ReflTransGen doc.LeadsTo t s := by
    intro r rest h
    obtain ⟨hcycle, t, ht, hreach⟩ := h
    exact ⟨hcycle, t, List.mem_cons_of_mem _ ht, hreach⟩
  induction h with
  | done => cases hresult
  | @closes way rest cleared r hmem =>
    obtain rfl := Except.error.inj hresult
    exact ⟨hway r hmem r List.mem_cons_self, r, List.mem_cons_self, .refl⟩
  | skips _ _ _ ih =>
    exact hmore (ih (fun w hw r hr => hway w hw r (List.mem_cons_of_mem _ hr)) hresult)
  | dangles _ _ _ _ ih =>
    exact hmore (ih (fun w hw r hr => hway w hw r (List.mem_cons_of_mem _ hr)) hresult)
  | @fails way rest cleared r _ target _ _ hlookup _ ih =>
    have hway' : ∀ w ∈ r :: way, ∀ t ∈ target.mentioned, Relation.TransGen doc.LeadsTo w t := by
      intro w hw t ht
      obtain rfl | hw := List.mem_cons.1 hw
      · exact .single ⟨target, hlookup, ht⟩
      · exact (hway w hw r List.mem_cons_self).tail ⟨target, hlookup, ht⟩
    obtain ⟨hcycle, t, ht, hreach⟩ := ih hway' hresult
    exact ⟨hcycle, r, List.mem_cons_self, hreach.head ⟨target, hlookup, ht⟩⟩
  | clears _ _ _ _ _ _ ih =>
    exact hmore (ih (fun w hw r hr => hway w hw r (List.mem_cons_of_mem _ hr)) hresult)

/-- A reference that the search through component schemas finds lies on a cycle, and is reached from
a component schema. -/
theorem SearchesSchemas.cycle_of_error {schemas : Members}
    (h : doc.SearchesSchemas schemas cleared result) (hremain : doc.Remaining schemas cleared)
    (hresult : result = .error s) :
    Relation.TransGen doc.LeadsTo s s ∧
      ∃ name ∈ doc.schemas.keys, Relation.ReflTransGen doc.LeadsTo (schemaReference name) s := by
  induction h with
  | done => cases hresult
  | skips hknown _ ih => exact ih (hremain.rest (List.Subset.refl _) hknown) hresult
  | @fails name r schema rest cleared hnew hbelow =>
    have hlookup := hremain.lookup?_eq hnew
    have hway : ∀ w ∈ [schemaReference name], ∀ t ∈ schema.mentioned,
        Relation.TransGen doc.LeadsTo w t := by
      intro w hw t ht
      obtain rfl := List.mem_singleton.1 hw
      exact .single ⟨schema, hlookup, ht⟩
    obtain rfl := Except.error.inj hresult
    obtain ⟨hcycle, t, ht, hreach⟩ := hbelow.cycle_of_error hway rfl
    exact ⟨hcycle, name, hremain.mem_keys hnew, hreach.head ⟨schema, hlookup, ht⟩⟩
  | clears _ hbelow _ ih =>
    obtain ⟨hsub, -⟩ := hbelow.subset_of_ok rfl
    exact ih (hremain.rest (List.subset_cons_of_subset _ hsub) List.mem_cons_self) hresult

/-! ## What is cleared leads into no cycle -/

/-- Where following references comes to an end on every path, no reference leads back to itself. -/
theorem not_cycle_of_acc (hr : Acc (Function.swap doc.LeadsTo) r) :
    ¬ Relation.TransGen doc.LeadsTo r r := by
  induction hr with
  | intro r _ ih =>
    intro hcycle
    obtain ⟨s, hrs, hsr⟩ := Relation.TransGen.head'_iff.1 hcycle
    exact ih s hrs (Relation.TransGen.tail' hsr hrs)

/-- What is reached from a reference comes to an end where the reference does. -/
theorem acc_of_reaches (hr : Acc (Function.swap doc.LeadsTo) r)
    (hreach : Relation.ReflTransGen doc.LeadsTo r s) : Acc (Function.swap doc.LeadsTo) s := by
  induction hreach with
  | refl => exact hr
  | tail _ hstep ih => exact ih.inv hstep

/-- When following cleared references comes to an end, following all that a search clears does. -/
theorem Searches.acc_of_ok (h : doc.Searches way references cleared result)
    (hcleared : ∀ r ∈ cleared, Acc (Function.swap doc.LeadsTo) r) (hresult : result = .ok found) :
    ∀ r ∈ found, Acc (Function.swap doc.LeadsTo) r := by
  induction h generalizing found with
  | done =>
    obtain rfl := Except.ok.inj hresult
    exact hcleared
  | closes => cases hresult
  | skips _ _ _ ih => exact ih hcleared hresult
  | @dangles way rest cleared r _ _ _ hlookup _ ih =>
    have hr : Acc (Function.swap doc.LeadsTo) r := by
      refine .intro r fun s hs => ?_
      obtain ⟨target, htarget, -⟩ := hs
      cases hlookup.symm.trans htarget
    exact ih (List.forall_mem_cons.2 ⟨hr, hcleared⟩) hresult
  | fails => cases hresult
  | @clears way rest cleared below r target _ _ _ hlookup hbelow _ ihbelow ih =>
    have hfound := ihbelow hcleared rfl
    have hr : Acc (Function.swap doc.LeadsTo) r := by
      refine .intro r fun s hs => ?_
      obtain ⟨target', htarget, hs⟩ := hs
      obtain rfl := Option.some.inj (hlookup.symm.trans htarget)
      exact hfound s ((hbelow.subset_of_ok rfl).2 hs)
    exact ih (List.forall_mem_cons.2 ⟨hr, hfound⟩) hresult

/-- When the search through component schemas finds no cycle, following the references of all of
them comes to an end. -/
theorem SearchesSchemas.acc_of_ok {schemas : Members}
    (h : doc.SearchesSchemas schemas cleared result) (hremain : doc.Remaining schemas cleared)
    (hcleared : ∀ r ∈ cleared, Acc (Function.swap doc.LeadsTo) r) (hresult : result = .ok found) :
    ∀ name ∈ schemas.keys, Acc (Function.swap doc.LeadsTo) (schemaReference name) := by
  induction h with
  | done =>
    intro name hname
    cases hname
  | @skips name schema rest cleared _ hknown _ ih =>
    have hrest := ih (hremain.rest (List.Subset.refl _) hknown) hcleared hresult
    exact List.forall_mem_cons.2 ⟨hcleared _ hknown, hrest⟩
  | fails => cases hresult
  | @clears name schema rest cleared below _ hnew hbelow _ ih =>
    obtain ⟨hsub, hmentioned⟩ := hbelow.subset_of_ok rfl
    have hbelow' := hbelow.acc_of_ok hcleared rfl
    have hname : Acc (Function.swap doc.LeadsTo) (schemaReference name) := by
      refine .intro _ fun s hs => ?_
      obtain ⟨target, htarget, hs⟩ := hs
      obtain rfl := Option.some.inj ((hremain.lookup?_eq hnew).symm.trans htarget)
      exact hbelow' s (hmentioned hs)
    have hrest := ih (hremain.rest (List.subset_cons_of_subset _ hsub) List.mem_cons_self)
      (List.forall_mem_cons.2 ⟨hname, hbelow'⟩) hresult
    exact List.forall_mem_cons.2 ⟨hname, hrest⟩

/-- What the search for circular schemas finds. It always ends: its answer is that of the one run of
the search without a bound. A reference that it finds resolves, lies on a cycle, and is reached from
a component schema; and it finds none exactly when no reference that is reached from a component
schema lies on a cycle, however often references share a target or lead nowhere. -/
theorem circularReference?_spec (doc : Document) :
    (∃ result, doc.SearchesSchemas doc.schemas [] result ∧
      (∀ other, doc.SearchesSchemas doc.schemas [] other → other = result) ∧
      ∀ r, doc.circularReference? = some r ↔ result = .error r) ∧
    (∀ r, doc.circularReference? = some r →
      (∃ target, doc.lookup? r = some target) ∧ Relation.TransGen doc.LeadsTo r r ∧
        ∃ name ∈ doc.schemas.keys, Relation.ReflTransGen doc.LeadsTo (schemaReference name) r) ∧
    (doc.circularReference? = none ↔
      ∀ name ∈ doc.schemas.keys, ∀ r, Relation.ReflTransGen doc.LeadsTo (schemaReference name) r →
        ¬ Relation.TransGen doc.LeadsTo r r) := by
  have hrun : doc.SearchesSchemas doc.schemas [] (doc.schemas.foldlM doc.searchSchema []) :=
    searchesSchemas_foldlM (List.Subset.refl doc.schemas) []
  have hremain : doc.Remaining doc.schemas [] := fun _ _ => rfl
  have hfound : ∀ r, doc.circularReference? = some r ↔
      doc.schemas.foldlM doc.searchSchema [] = .error r := by
    intro r
    rw [circularReference?]
    split <;> simp_all
  have hcycle : ∀ r, doc.circularReference? = some r →
      Relation.TransGen doc.LeadsTo r r ∧
        ∃ name ∈ doc.schemas.keys, Relation.ReflTransGen doc.LeadsTo (schemaReference name) r :=
    fun r hr => hrun.cycle_of_error hremain ((hfound r).1 hr)
  refine ⟨⟨_, hrun, fun other hother => hother.unique hrun, hfound⟩, ?_, ?_⟩
  · intro r hr
    obtain ⟨hclosed, hreach⟩ := hcycle r hr
    obtain ⟨s, ⟨target, htarget, -⟩, -⟩ := Relation.TransGen.head'_iff.1 hclosed
    exact ⟨⟨target, htarget⟩, hclosed, hreach⟩
  constructor
  · intro hnone name hname r hreach
    cases hresult : doc.schemas.foldlM doc.searchSchema [] with
    | error s => simp [(hfound s).2 hresult] at hnone
    | ok cleared =>
      have hacc := hrun.acc_of_ok hremain (by simp) hresult name hname
      exact not_cycle_of_acc (acc_of_reaches hacc hreach)
  · intro hfree
    cases hresult : doc.circularReference? with
    | none => rfl
    | some r =>
      obtain ⟨hclosed, name, hname, hreach⟩ := hcycle r hresult
      exact absurd hclosed (hfree name hname r hreach)

end Document

end ApiGateway
