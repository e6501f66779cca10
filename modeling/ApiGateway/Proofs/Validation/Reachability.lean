import ApiGateway.Proofs.Validation.Collection

/-!
# Collecting computes what can be reached

Collecting follows references into any part of the document, so there is no structure that it goes
down. It is stated here once more as a relation, without any bound on its depth: a derivation of it
is a run that ends. There is one for every schema, since no reference is followed twice, and it
collects all that can be reached unless something of it leads nowhere.

## Main definitions

* `Document.Collects`: the runs of collecting.

## Main results

* `Document.collects_collectReference`: collecting always ends.
* `Document.Collects.reaches_of_error`: collecting fails at a reference that leads nowhere.
* `Document.reachable_of_collect`: when collecting fails, and what it collects otherwise.
-/
namespace ApiGateway.Document

/-- The runs of collecting references, one after the other, and all that they reach. They depend on
what is collected already, and end with all that is collected then, or with an error. -/
inductive Collects (doc : Document) : (references : List String) → (before : Collected) →
    Except Error Collected → Prop where
  | done {c : Collected} : doc.Collects [] c (.ok c)
  | skips {r : String} {rest : List String} {c : Collected} {result : Except Error Collected} :
      r ∈ c.references → doc.Collects rest c result → doc.Collects (r :: rest) c result
  | dangles {r : String} {rest : List String} {c : Collected} :
      r ∉ c.references → doc.lookup? r = none →
      doc.Collects (r :: rest) c (.error (.unresolved r))
  | fails {r : String} {rest : List String} {c : Collected} {target : Json} {e : Error} :
      r ∉ c.references → doc.lookup? r = some target →
      doc.Collects target.schemaReferences
        ⟨r :: c.references, c.definitions.insert (definitionName r) target⟩ (.error e) →
      doc.Collects (r :: rest) c (.error e)
  | follows {r : String} {rest : List String} {c found : Collected} {target : Json}
      {result : Except Error Collected} :
      r ∉ c.references → doc.lookup? r = some target →
      doc.Collects target.schemaReferences
        ⟨r :: c.references, c.definitions.insert (definitionName r) target⟩ (.ok found) →
      doc.Collects rest found result → doc.Collects (r :: rest) c result

variable {doc : Document} {references : List String} {c : Collected}
  {result other : Except Error Collected}

/-- Collecting has one result. -/
theorem Collects.unique (h : doc.Collects references c result)
    (h' : doc.Collects references c other) : result = other := by
  induction h generalizing other with
  | done =>
    cases h'
    rfl
  | skips hknown _ ih =>
    cases h' with
    | skips _ hrest => exact ih hrest
    | dangles hnew => exact absurd hknown hnew
    | fails hnew => exact absurd hknown hnew
    | follows hnew => exact absurd hknown hnew
  | dangles hnew hlookup =>
    cases h' with
    | skips hknown => exact absurd hknown hnew
    | dangles => rfl
    | fails _ hsome => cases hlookup.symm.trans hsome
    | follows _ hsome => cases hlookup.symm.trans hsome
  | fails hnew hlookup _ ih =>
    cases h' with
    | skips hknown => exact absurd hknown hnew
    | dangles _ hnone => cases hlookup.symm.trans hnone
    | fails _ hsome hbelow =>
      obtain rfl := Option.some.inj (hlookup.symm.trans hsome)
      exact ih hbelow
    | follows _ hsome hbelow =>
      obtain rfl := Option.some.inj (hlookup.symm.trans hsome)
      cases ih hbelow
  | follows hnew hlookup _ _ ihbelow ihrest =>
    cases h' with
    | skips hknown => exact absurd hknown hnew
    | dangles _ hnone => cases hlookup.symm.trans hnone
    | fails _ hsome hbelow =>
      obtain rfl := Option.some.inj (hlookup.symm.trans hsome)
      cases ihbelow hbelow
    | follows _ hsome hbelow hrest =>
      obtain rfl := Option.some.inj (hlookup.symm.trans hsome)
      obtain rfl := Except.ok.inj (ihbelow hbelow)
      exact ihrest hrest

/-- Following references with a depth that suffices is a run of collecting without a bound. -/
theorem collects_collectReference {bound : List String} (hclosed : doc.Closed bound) (depth : Nat)
    (hroom : Room c.references bound depth) (hsub : references ⊆ bound) :
    doc.Collects references c
      (references.foldlM (fun c r => doc.collectReference depth r c) c) := by
  induction depth generalizing references c with
  | zero =>
    induction references with
    | nil => exact .done
    | cons r rest ih =>
      obtain ⟨hr, hrest⟩ := List.cons_subset.1 hsub
      exact .skips (hroom.mem_of_zero hr) (ih hrest)
  | succ depth ih =>
    induction references generalizing c with
    | nil => exact .done
    | cons r rest ihrest =>
      obtain ⟨hr, hrest⟩ := List.cons_subset.1 hsub
      rw [List.foldlM_cons]
      by_cases hknown : r ∈ c.references
      · rw [collectReference, if_pos hknown]
        exact .skips hknown (ihrest hroom hrest)
      cases hlookup : doc.lookup? r with
      | none =>
        rw [collectReference, if_neg hknown, hlookup]
        exact .dangles hknown hlookup
      | some target =>
        have hbelow := ih (hroom.add hr hknown) (hclosed r hr target hlookup)
          (c := ⟨r :: c.references, c.definitions.insert (definitionName r) target⟩)
        have hrun : doc.collectReference (depth + 1) r c =
            target.schemaReferences.foldlM (fun c s => doc.collectReference depth s c)
              ⟨r :: c.references, c.definitions.insert (definitionName r) target⟩ := by
          rw [collectReference, if_neg hknown, hlookup]
          exact walkSchema_eq_foldlM _ _ _
        rw [← hrun] at hbelow
        cases hresult : doc.collectReference (depth + 1) r c with
        | error e =>
          rw [hresult] at hbelow
          exact .fails hknown hlookup hbelow
        | ok found =>
          rw [hresult] at hbelow
          have hgrows := collectReference_grows hclosed (depth + 1) hr hroom hresult
          exact .follows hknown hlookup hbelow
            (ihrest (hroom.grow hclosed (by simpa using hr) hgrows) hrest)

/-- Collecting from a schema ends. -/
theorem collects_collect (doc : Document) (schema : Json) :
    doc.Collects schema.schemaReferences {} (doc.collect schema) := by
  rw [collect, walkSchema_eq_foldlM]
  exact collects_collectReference (doc.closed_references schema) _ (doc.room_references schema)
    fun _ hr => List.mem_append_left _ (schema.schemaReferences_subset hr)

/-- Collecting fails only at a reference that can be reached and leads nowhere. -/
theorem Collects.reaches_of_error {e : Error} (h : doc.Collects references c result)
    (hresult : result = .error e) :
    ∃ r, e = .unresolved r ∧ doc.Reaches references r ∧ doc.lookup? r = none := by
  induction h with
  | done => cases hresult
  | skips _ _ ih =>
    obtain ⟨r, he, hreach, hlookup⟩ := ih hresult
    exact ⟨r, he, hreach.mono (List.subset_cons_self _ _), hlookup⟩
  | @dangles r rest c _ hlookup =>
    obtain rfl := Except.error.inj hresult
    exact ⟨r, rfl, .start List.mem_cons_self, hlookup⟩
  | @fails r rest c target e' _ htarget _ ih =>
    obtain ⟨s, he, hreach, hlookup⟩ := ih hresult
    have hr : [r] ⊆ r :: rest := by simp
    exact ⟨s, he, (hreach.of_lookup? htarget).mono hr, hlookup⟩
  | follows _ _ _ _ _ ih =>
    obtain ⟨r, he, hreach, hlookup⟩ := ih hresult
    exact ⟨r, he, hreach.mono (List.subset_cons_self _ _), hlookup⟩

/-- Collecting succeeds when all that can be reached resolves. -/
theorem exists_collect_eq_ok {schema : Json}
    (h : ∀ r, doc.Reaches schema.schemaReferences r → doc.lookup? r ≠ none) :
    ∃ c, doc.collect schema = .ok c := by
  cases hresult : doc.collect schema with
  | ok c => exact ⟨c, rfl⟩
  | error e =>
    obtain ⟨r, -, hreach, hlookup⟩ := (doc.collects_collect schema).reaches_of_error hresult
    exact absurd hlookup (h r hreach)

/-- What collecting from a schema computes. It always ends: its result is that of the one run without
a bound. It fails exactly when a reference that can be reached leads nowhere, and names one that
does. Otherwise it collects the references that can be reached, each once. -/
theorem reachable_of_collect (doc : Document) (schema : Json) :
    (doc.Collects schema.schemaReferences {} (doc.collect schema) ∧
      ∀ other, doc.Collects schema.schemaReferences {} other → other = doc.collect schema) ∧
    (∀ e, doc.collect schema = .error e →
      ∃ r, e = .unresolved r ∧ e.message = "E1003: unresolved $ref: " ++ r ∧
        doc.Reaches schema.schemaReferences r ∧ doc.lookup? r = none) ∧
    ((∃ e, doc.collect schema = .error e) ↔
      ∃ r, doc.Reaches schema.schemaReferences r ∧ doc.lookup? r = none) ∧
    (∀ c, doc.collect schema = .ok c →
      c.references.Nodup ∧ ∀ r, r ∈ c.references ↔ doc.Reaches schema.schemaReferences r) := by
  have hrun := doc.collects_collect schema
  refine ⟨⟨hrun, fun other hother => hother.unique hrun⟩, ?_, ⟨?_, ?_⟩, ?_⟩
  · intro e he
    obtain ⟨r, rfl, hreach, hlookup⟩ := hrun.reaches_of_error he
    exact ⟨r, rfl, rfl, hreach, hlookup⟩
  · rintro ⟨e, he⟩
    obtain ⟨r, -, hreach, hlookup⟩ := hrun.reaches_of_error he
    exact ⟨r, hreach, hlookup⟩
  · rintro ⟨r, hreach, hlookup⟩
    cases hresult : doc.collect schema with
    | error e => exact ⟨e, rfl⟩
    | ok c =>
      obtain ⟨-, hreaches, hresolves, -⟩ := collect_spec hresult
      obtain ⟨target, htarget⟩ := hresolves r ((hreaches r).2 hreach)
      cases hlookup.symm.trans htarget
  · intro c hc
    obtain ⟨hnodup, hreaches, -, -⟩ := collect_spec hc
    exact ⟨hnodup, hreaches⟩

end ApiGateway.Document
