import ApiGateway.Document.Reference
import ApiGateway.Proofs.Json.Members
import Mathlib.Data.List.Perm.Subperm

/-!
# The references in a value

A value refers to what the strings under `$ref` say, at any depth. What a pointer finds in a value
has no other references than the value itself, so all references that can be met by following
references are among those of the document and of the value one starts from.

## Main definitions

* `Json.references`: the strings under `$ref` in a value.
* `Room`: a depth that suffices to follow references without repeating one.

## Main results

* `Json.length_references_le`: a value has no more references than are counted in it.
* `Document.references_subset_of_lookup?`: what a document refers to from the target of a reference.
-/
namespace ApiGateway

namespace Json

mutual

/-- The strings under `$ref` in a value, at any depth. -/
def references : Json → List String
  | .obj members => referencesInMembers members
  | .arr items => referencesInItems items
  | _ => []

/-- The strings under `$ref` in the items of a list. -/
def referencesInItems : List Json → List String
  | [] => []
  | item :: rest => references item ++ referencesInItems rest

/-- The strings under `$ref` in the members of an object. -/
def referencesInMembers : List (String × Json) → List String
  | [] => []
  | (key, value) :: rest =>
    (if key = "$ref" then value.asString?.toList else []) ++ references value ++
      referencesInMembers rest

end

mutual

/-- A value has no more references than are counted in it. -/
theorem length_references_le : ∀ value : Json, value.references.length ≤ value.countReferences
  | .obj members => by
    simpa only [references, countReferences] using length_referencesInMembers_le members
  | .arr items => by
    simpa only [references, countReferences] using length_referencesInItems_le items
  | .null | .bool _ | .int _ | .float _ | .str _ => by simp [references, countReferences]

theorem length_referencesInItems_le : ∀ items : List Json,
    (referencesInItems items).length ≤ countInItems items
  | [] => by simp [referencesInItems, countInItems]
  | item :: rest => by
    have hitem := length_references_le item
    have hrest := length_referencesInItems_le rest
    simp only [referencesInItems, countInItems, List.length_append]
    omega

theorem length_referencesInMembers_le : ∀ members : List (String × Json),
    (referencesInMembers members).length ≤ countInMembers members
  | [] => by simp [referencesInMembers, countInMembers]
  | (key, value) :: rest => by
    have hvalue := length_references_le value
    have hrest := length_referencesInMembers_le rest
    have hown : (if key = "$ref" then value.asString?.toList else []).length ≤
        if key = "$ref" then 1 else 0 := by
      split
      · cases value.asString? <;> simp
      · simp
    simp only [referencesInMembers, countInMembers, List.length_append]
    omega

end

/-- The references of a list are those of its items. -/
@[simp] theorem mem_referencesInItems {r : String} {items : List Json} :
    r ∈ referencesInItems items ↔ ∃ item ∈ items, r ∈ item.references := by
  induction items with
  | nil => simp [referencesInItems]
  | cons item rest ih => simp [referencesInItems, ih]

/-- The references of an object are its own and those of its members. -/
@[simp] theorem mem_referencesInMembers {r : String} {members : Members} :
    r ∈ referencesInMembers members ↔
      ∃ key value, (key, value) ∈ members ∧
        ((key = "$ref" ∧ value = .str r) ∨ r ∈ value.references) := by
  induction members with
  | nil => simp [referencesInMembers]
  | cons m rest ih =>
    obtain ⟨key, value⟩ := m
    have hown : r ∈ (if key = "$ref" then value.asString?.toList else []) ↔
        key = "$ref" ∧ value = .str r := by
      split <;> cases value <;> simp_all [asString?, eq_comm]
    simp only [referencesInMembers, List.mem_append, hown, ih, List.mem_cons, Prod.mk.injEq]
    constructor
    · rintro (h | ⟨k, v, hm, h⟩)
      · exact ⟨key, value, Or.inl ⟨rfl, rfl⟩, h⟩
      · exact ⟨k, v, Or.inr hm, h⟩
    · rintro ⟨k, v, ⟨rfl, rfl⟩ | hm, h⟩
      · exact Or.inl h
      · exact Or.inr ⟨k, v, hm, h⟩

/-- A value directly below another has no other references. -/
theorem references_subset_of_mem_children {value child : Json} (h : child ∈ value.children) :
    child.references ⊆ value.references := by
  intro r hr
  cases value with
  | arr items => exact mem_referencesInItems.2 ⟨child, h, hr⟩
  | obj members =>
    obtain ⟨⟨key, value⟩, hm, rfl⟩ := List.mem_map.1 h
    exact mem_referencesInMembers.2 ⟨key, value, hm, Or.inr hr⟩
  | _ => cases h

/-- What is found under a key of an object is directly below it. -/
theorem mem_children_of_get? {members : Members} {key : String} {value : Json}
    (h : members.get? key = some value) : value ∈ (Json.obj members).children :=
  List.mem_map_of_mem (Members.mem_of_get? h)

/-- A value that refers to something has the reference. -/
theorem mem_references_of_reference? {value : Json} {r : String} (h : value.reference? = some r) :
    r ∈ value.references := by
  obtain ⟨target, htarget, hr⟩ := Option.bind_eq_some_iff.1 h
  obtain rfl : target = .str r := by cases target <;> simp_all [asString?]
  cases value with
  | obj members =>
    exact mem_referencesInMembers.2
      ⟨"$ref", _, Members.mem_of_get? htarget, Or.inl ⟨rfl, rfl⟩⟩
  | _ => cases htarget

end Json

namespace Pointer

/-- A step leads to a value directly below. -/
theorem mem_children_of_step? {value child : Json} {segment : String}
    (h : step? value segment = some child) : child ∈ value.children := by
  cases value with
  | arr items =>
    obtain ⟨i, -, hi⟩ := Option.bind_eq_some_iff.1 h
    exact List.mem_of_getElem? hi
  | obj members => exact Json.mem_children_of_get? h
  | _ => cases h

/-- The value at the end of segments has no other references than the value they start from. -/
theorem references_subset_of_descend? {value child : Json} {segments : List String}
    (h : descend? value segments = some child) : child.references ⊆ value.references := by
  induction segments generalizing value with
  | nil =>
    obtain rfl := Option.some.inj h
    exact fun _ hr => hr
  | cons segment rest ih =>
    obtain ⟨next, hnext, hrest⟩ := Option.bind_eq_some_iff.1 h
    exact fun _ hr =>
      Json.references_subset_of_mem_children (mem_children_of_step? hnext) (ih hrest hr)

end Pointer

namespace Document

/-- The references of a document. -/
def references (doc : Document) : List String := (Json.obj doc.root).references

/-- The target of a reference has no other references than the document. -/
theorem references_subset_of_lookup? {doc : Document} {reference : String} {target : Json}
    (h : doc.lookup? reference = some target) : target.references ⊆ doc.references := by
  obtain ⟨segments, -, hsegments⟩ := Option.bind_eq_some_iff.1 h
  exact Pointer.references_subset_of_descend? hsegments

end Document

/-! ## How deep references lead -/

/-- The depth that is left suffices for all references of a list that are not met yet. -/
structure Room (met bound : List String) (depth : Nat) : Prop where
  nodup : met.Nodup
  subset : met ⊆ bound
  lt : bound.length < depth + met.length

namespace Room
variable {met bound : List String} {depth : Nat} {r : String}

/-- No new reference of the list is met with the depth exhausted. -/
theorem mem_of_zero (h : Room met bound 0) (hr : r ∈ bound) : r ∈ met := by
  by_contra hnew
  have hsub : r :: met ⊆ bound := List.cons_subset.2 ⟨hr, h.subset⟩
  have hle := (List.subperm_of_subset (List.nodup_cons.2 ⟨hnew, h.nodup⟩) hsub).length_le
  have hlt := h.lt
  simp only [List.length_cons] at hle
  omega

/-- A new reference takes one step of depth. -/
theorem add (h : Room met bound (depth + 1)) (hr : r ∈ bound) (hnew : r ∉ met) :
    Room (r :: met) bound depth where
  nodup := List.nodup_cons.2 ⟨hnew, h.nodup⟩
  subset := List.cons_subset.2 ⟨hr, h.subset⟩
  lt := by
    have := h.lt
    simp only [List.length_cons]
    omega

end Room

end ApiGateway
