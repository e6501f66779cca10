import ApiGateway.Proofs.Document.References
import ApiGateway.Proofs.Outcome
import ApiGateway.Validation.Schema
import Mathlib.Data.List.Basic

/-!
# What a schema collects

Extraction walks a schema, collects each reference it meets once, and walks the target of each
collected reference in turn. The references that are collected are those that can be reached this
way, in a document whose references may well form cycles; the depth up to which they are followed
is never exhausted, since no reference is collected twice and all are references of schema or
document.

## Main definitions

* `Json.schemaReferences`: the references that the walk of one schema visits.
* `Document.Reaches`: the references that can be reached from others.
* `Document.definitionsOf`: the definitions of references.
* `Document.Grows`: what collecting references adds to what is collected already.

## Main results

* `walkSchema_eq_foldlM`: a walk visits one reference after the other.
* `Document.collectReference_grows`: what following one reference adds.
* `Document.collect_spec`: what a schema collects.
-/
namespace ApiGateway

/-! ## The walk of one schema -/

/-- The references that the walk of a schema visits, from left to right: its own one, or else those
of the schemas inside. -/
def Json.schemaReferences (schema : Json) : List String :=
  match schema.reference? with
  | some reference => [reference]
  | none => (subschemas schema).attach.flatMap fun ⟨sub, _⟩ => schemaReferences sub
termination_by sizeOf schema
decreasing_by exact sizeOf_lt_of_mem_subschemas ‹_›

namespace Json

theorem schemaReferences_of_reference? {schema : Json} {r : String}
    (h : schema.reference? = some r) : schema.schemaReferences = [r] := by
  rw [schemaReferences, h]

theorem schemaReferences_of_reference?_eq_none {schema : Json} (h : schema.reference? = none) :
    schema.schemaReferences = (subschemas schema).flatMap schemaReferences := by
  rw [schemaReferences, h]
  simp only [List.flatMap_subtype, List.unattach_attach]

/-- A schema inside another has no other references. -/
theorem references_subset_of_mem_subschemas {schema sub : Json} (h : sub ∈ subschemas schema) :
    sub.references ⊆ schema.references := by
  cases schema with
  | obj members =>
    -- every schema inside stands below the value of a member
    suffices ∃ key value, Members.get? members key = some value ∧
        (sub = value ∨ sub ∈ value.children) by
      obtain ⟨key, value, hget, rfl | hsub⟩ := this
      · exact references_subset_of_mem_children (mem_children_of_get? hget)
      · exact fun _ hr => references_subset_of_mem_children (mem_children_of_get? hget)
          (references_subset_of_mem_children hsub hr)
    simp only [subschemas, List.mem_append, List.mem_flatMap, List.mem_filterMap,
      Option.map_eq_some_iff] at h
    obtain (⟨key, -, hsub⟩ | hsub) | ⟨key, -, value, hget, rfl⟩ := h
    · cases hget : Members.list? members key with
      | none => simp [hget] at hsub
      | some items =>
        rw [hget] at hsub
        exact ⟨key, .arr items, Members.list?_eq_some_iff.1 hget, Or.inr hsub⟩
    · cases hget : Members.object? members "properties" with
      | none => simp [hget, Members.values] at hsub
      | some properties =>
        rw [hget] at hsub
        exact ⟨_, .obj properties, Members.object?_eq_some_iff.1 hget, Or.inr hsub⟩
    · exact ⟨key, .obj value, Members.object?_eq_some_iff.1 hget, Or.inl rfl⟩
  | _ => simp [subschemas] at h

/-- The walk of a schema visits references of the schema. -/
theorem schemaReferences_subset (schema : Json) : schema.schemaReferences ⊆ schema.references := by
  cases hown : schema.reference? with
  | some r =>
    rw [schemaReferences_of_reference? hown]
    simpa using mem_references_of_reference? hown
  | none =>
    rw [schemaReferences_of_reference?_eq_none hown]
    intro r hr
    obtain ⟨sub, hsub, hr⟩ := List.mem_flatMap.1 hr
    exact references_subset_of_mem_subschemas hsub (schemaReferences_subset sub hr)
termination_by sizeOf schema
decreasing_by exact sizeOf_lt_of_mem_subschemas hsub

end Json

/-- The walk of a schema visits one reference after the other. -/
theorem walkSchema_eq_foldlM {ε σ : Type} (visit : String → σ → Except ε σ) (schema : Json)
    (state : σ) :
    walkSchema visit schema state =
      schema.schemaReferences.foldlM (fun state r => visit r state) state := by
  rw [walkSchema]
  cases hown : schema.reference? with
  | some r => simp [Json.schemaReferences_of_reference? hown]
  | none =>
    rw [Json.schemaReferences_of_reference?_eq_none hown, foldlM_flatMap]
    simp only [List.foldlM_subtype, List.unattach_attach]
    exact foldlM_congr _ fun sub hsub s => walkSchema_eq_foldlM visit sub s
termination_by sizeOf schema
decreasing_by exact sizeOf_lt_of_mem_subschemas hsub

/-! ## What can be reached -/

/-- The name under which the target of a reference is defined. -/
def definitionName (reference : String) : String :=
  Pointer.unescape (definitionSegment reference)

namespace Document

/-- What can be reached from references: they themselves, and what the walks of the targets of
reached references visit. -/
inductive Reaches (doc : Document) (start : List String) : String → Prop where
  | start {r : String} : r ∈ start → doc.Reaches start r
  | follow {r s : String} {target : Json} : doc.Reaches start r → doc.lookup? r = some target →
      s ∈ target.schemaReferences → doc.Reaches start s

/-- A list of references has every reference that the targets of its references visit. -/
def Closed (doc : Document) (references : List String) : Prop :=
  ∀ r ∈ references, ∀ target, doc.lookup? r = some target →
    target.schemaReferences ⊆ references

/-- The definitions of references. Of two references with one name the first in the list stays. -/
def definitionsOf (doc : Document) : List String → Members
  | [] => []
  | r :: rest => (doc.definitionsOf rest).insert (definitionName r) ((doc.lookup? r).getD .null)

variable {doc : Document} {start more : List String} {r s : String}

theorem Reaches.mono (h : doc.Reaches start r) (hsub : start ⊆ more) : doc.Reaches more r := by
  induction h with
  | start hr => exact .start (hsub hr)
  | follow _ htarget hs ih => exact .follow ih htarget hs

/-- What is reached from the target of a reference is reached from the reference. -/
theorem Reaches.of_lookup? {target : Json} (h : doc.lookup? r = some target)
    (hs : doc.Reaches target.schemaReferences s) : doc.Reaches [r] s := by
  induction hs with
  | start hs => exact .follow (.start List.mem_cons_self) h hs
  | follow _ htarget hs ih => exact .follow ih htarget hs

/-- A closed list has everything that is reached from its references. -/
theorem Closed.mem_of_reaches (h : doc.Closed more) (hsub : start ⊆ more)
    (hr : doc.Reaches start r) : r ∈ more := by
  induction hr with
  | start hr => exact hsub hr
  | follow _ htarget hs ih => exact h _ ih _ htarget hs

/-- The references of a value and of the document are closed. -/
theorem closed_references (doc : Document) (value : Json) :
    doc.Closed (value.references ++ doc.references) := by
  intro r _ target htarget s hs
  exact List.mem_append_right _
    (references_subset_of_lookup? htarget (target.schemaReferences_subset hs))

/-! ## Collecting -/

/-- What collecting references adds to what is collected already: references that are reached from
them, each with all that its target visits, and their definitions. -/
structure Grows (doc : Document) (met : List String) (before after : Collected) : Prop where
  suffix : before.references <:+ after.references
  visited : met ⊆ after.references
  fresh : ∀ r ∈ after.references, r ∈ before.references ∨ doc.Reaches met r ∧
    ∃ target, doc.lookup? r = some target ∧ target.schemaReferences ⊆ after.references
  nodup : before.references.Nodup → after.references.Nodup
  definitions : before.definitions = doc.definitionsOf before.references →
    after.definitions = doc.definitionsOf after.references

/-- Nothing is added where all is collected already. -/
theorem Grows.of_subset {c : Collected} (h : start ⊆ c.references) : doc.Grows start c c where
  suffix := List.suffix_refl _
  visited := h
  fresh _ hr := Or.inl hr
  nodup := id
  definitions := id

/-- Collecting goes on where it has ended. -/
theorem Grows.append {a b c : Collected} (h : doc.Grows start a b) (h' : doc.Grows more b c) :
    doc.Grows (start ++ more) a c where
  suffix := h.suffix.trans h'.suffix
  visited := List.append_subset.2 ⟨fun _ hr => h'.suffix.subset (h.visited hr), h'.visited⟩
  fresh r hr := by
    obtain hr | ⟨hreach, hclosed⟩ := h'.fresh r hr
    · obtain hr | ⟨hreach, target, htarget, hsub⟩ := h.fresh r hr
      · exact Or.inl hr
      · exact Or.inr ⟨hreach.mono (List.subset_append_left _ _), target, htarget,
          fun _ hs => h'.suffix.subset (hsub hs)⟩
    · exact Or.inr ⟨hreach.mono (List.subset_append_right _ _), hclosed⟩
  nodup := h'.nodup ∘ h.nodup
  definitions := h'.definitions ∘ h.definitions

/-- What a reference adds, when what the walk of its target adds is known. -/
theorem Grows.follow {c c' : Collected} {target : Json} (hr : r ∉ c.references)
    (htarget : doc.lookup? r = some target)
    (h : doc.Grows target.schemaReferences
      ⟨r :: c.references, c.definitions.insert (definitionName r) target⟩ c') :
    doc.Grows [r] c c' where
  suffix := (List.suffix_cons _ _).trans h.suffix
  visited := by simpa using h.suffix.subset List.mem_cons_self
  fresh s hs := by
    obtain hs | ⟨hreach, hclosed⟩ := h.fresh s hs
    · obtain rfl | hs := List.mem_cons.1 hs
      · exact Or.inr ⟨.start List.mem_cons_self, target, htarget, h.visited⟩
      · exact Or.inl hs
    · exact Or.inr ⟨hreach.of_lookup? htarget, hclosed⟩
  nodup hnodup := h.nodup (List.nodup_cons.2 ⟨hr, hnodup⟩)
  definitions hdefinitions := h.definitions (by simp [definitionsOf, htarget, hdefinitions])

end Document

/-- Collecting references of a closed list leaves the depth sufficient. -/
theorem Room.grow {doc : Document} {bound visited : List String} {depth : Nat} {c c' : Collected}
    (h : Room c.references bound depth) (hclosed : doc.Closed bound) (hvisited : visited ⊆ bound)
    (hgrows : doc.Grows visited c c') : Room c'.references bound depth where
  nodup := hgrows.nodup h.nodup
  subset r hr := by
    obtain hr | ⟨hreach, -⟩ := hgrows.fresh r hr
    · exact h.subset hr
    · exact hclosed.mem_of_reaches hvisited hreach
  lt := by
    have := h.lt
    have := hgrows.suffix.length_le
    omega

/-- Nothing is collected yet, and the depth suffices for all references of a value and of the
document. -/
theorem Document.room_references (doc : Document) (value : Json) :
    Room [] (value.references ++ doc.references)
      (value.countReferences + doc.referenceBound + 1) where
  nodup := List.nodup_nil
  subset := List.nil_subset _
  lt := by
    have hvalue := value.length_references_le
    have hdoc := (Json.obj doc.root).length_references_le
    simp only [List.length_append, references, referenceBound, List.length_nil]
    omega

namespace Document
variable {doc : Document} {bound : List String}

/-- Collecting references one after the other adds what they reach when following each does. -/
theorem foldlM_grows {step : Collected → String → Except Error Collected} {depth : Nat}
    (hclosed : doc.Closed bound)
    (hstep : ∀ r ∈ bound, ∀ c c', Room c.references bound depth → step c r = .ok c' → doc.Grows [r] c c')
    {references : List String} (hsub : references ⊆ bound) {c c' : Collected}
    (hc : Room c.references bound depth) (h : references.foldlM step c = .ok c') :
    doc.Grows references c c' := by
  induction references generalizing c with
  | nil =>
    obtain rfl := Except.ok.inj h
    exact .of_subset (List.nil_subset _)
  | cons r rest ih =>
    obtain ⟨hr, hrest⟩ := List.cons_subset.1 hsub
    rw [List.foldlM_cons, bind_eq_ok_iff] at h
    obtain ⟨m, hm, h⟩ := h
    have hfirst := hstep r hr c m hc hm
    exact hfirst.append (ih hrest (hc.grow hclosed (by simpa using hr) hfirst) h)

/-- Following a reference collects what it reaches. -/
theorem collectReference_grows (hclosed : doc.Closed bound) (depth : Nat) {r : String}
    (hr : r ∈ bound) {c c' : Collected} (hc : Room c.references bound depth)
    (h : doc.collectReference depth r c = .ok c') : doc.Grows [r] c c' := by
  induction depth generalizing r c c' with
  | zero =>
    obtain rfl := Except.ok.inj h
    exact .of_subset (by simpa using hc.mem_of_zero hr)
  | succ depth ih =>
    rw [collectReference] at h
    split at h
    · rename_i hmem
      obtain rfl := Except.ok.inj h
      exact .of_subset (by simpa using hmem)
    · rename_i hnew
      split at h
      · cases h
      · rename_i target htarget
        rw [walkSchema_eq_foldlM] at h
        exact .follow hnew htarget (foldlM_grows hclosed (fun s hs _ _ => ih hs)
          (hclosed r hr target htarget) (hc.add hr hnew) h)

/-- What a schema collects: each reference that can be reached from it once, all of which resolve,
with their definitions. -/
theorem collect_spec {schema : Json} {c : Collected} (h : doc.collect schema = .ok c) :
    c.references.Nodup ∧ (∀ r, r ∈ c.references ↔ doc.Reaches schema.schemaReferences r) ∧
      (∀ r ∈ c.references, ∃ target, doc.lookup? r = some target) ∧
      c.definitions = doc.definitionsOf c.references := by
  have hclosed := doc.closed_references schema
  rw [collect, walkSchema_eq_foldlM] at h
  have hgrows := foldlM_grows hclosed (fun _ hs _ _ => collectReference_grows hclosed _ hs)
    (fun _ hs => List.mem_append_left _ (schema.schemaReferences_subset hs))
    (doc.room_references schema) h
  have hfresh : ∀ r ∈ c.references, doc.Reaches schema.schemaReferences r ∧
      ∃ target, doc.lookup? r = some target ∧ target.schemaReferences ⊆ c.references := by
    intro r hr
    obtain hr | hr := hgrows.fresh r hr
    · cases hr
    · exact hr
  refine ⟨hgrows.nodup List.nodup_nil, ?_, ?_, hgrows.definitions rfl⟩
  · intro r
    constructor
    · exact fun hr => (hfresh r hr).1
    · refine fun hr => Closed.mem_of_reaches ?_ hgrows.visited hr
      intro s hs target htarget
      obtain ⟨-, target', htarget', hsub⟩ := hfresh s hs
      rwa [← Option.some.inj (htarget'.symm.trans htarget)]
  · intro r hr
    obtain ⟨-, target, htarget, -⟩ := hfresh r hr
    exact ⟨target, htarget⟩

end Document

end ApiGateway
