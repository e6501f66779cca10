import ApiGateway.Document.Operation
import ApiGateway.Proofs.Document.References
import ApiGateway.Proofs.Outcome

/-!
# Documents in order

An object is a list of members, and is meant to have its keys in order. In a document whose objects
all do, everything that references lead to does too. So the media types of a request body, which are
the keys of an object, are in order.

## Main definitions

* `Json.ordered`: whether the objects in a value have their keys in order.

## Main results

* `Document.ordered_of_resolve`: what references lead to.
* `Document.pairwise_of_requestBody`: the media types of a request body are in order.
-/
namespace ApiGateway

namespace Json

mutual

/-- Whether the objects in a value, at any depth, have their keys in strictly increasing order. -/
def ordered : Json → Bool
  | .obj members => decide ((members.map (·.1)).Pairwise (· < ·)) && orderedMembers members
  | .arr items => orderedItems items
  | _ => true

/-- Whether the objects in the items of a list have their keys in order. -/
def orderedItems : List Json → Bool
  | [] => true
  | item :: rest => ordered item && orderedItems rest

/-- Whether the objects in the members of an object have their keys in order. -/
def orderedMembers : List (String × Json) → Bool
  | [] => true
  | (_, value) :: rest => ordered value && orderedMembers rest

end

theorem orderedItems_iff {items : List Json} :
    orderedItems items = true ↔ ∀ item ∈ items, item.ordered = true := by
  induction items with
  | nil => simp [orderedItems]
  | cons item rest ih => simp [orderedItems, ih]

theorem orderedMembers_iff {members : List (String × Json)} :
    orderedMembers members = true ↔ ∀ m ∈ members, m.2.ordered = true := by
  induction members with
  | nil => simp [orderedMembers]
  | cons m rest ih => simp [orderedMembers, ih]

/-- What is directly below a value whose objects are in order is such a value. -/
theorem ordered_of_mem_children {value child : Json} (h : value.ordered = true)
    (hchild : child ∈ value.children) : child.ordered = true := by
  cases value with
  | arr items => exact orderedItems_iff.1 h child hchild
  | obj members =>
    obtain ⟨m, hm, rfl⟩ := List.mem_map.1 hchild
    rw [ordered, Bool.and_eq_true] at h
    exact orderedMembers_iff.1 h.2 m hm
  | _ => cases hchild

end Json

namespace Document
variable {doc : Document}

/-- What references lead to in a document whose objects are in order is a value whose objects are
in order. -/
theorem ordered_of_resolve (hdoc : (Json.obj doc.root).ordered = true) {value target : Json}
    (hvalue : value.ordered = true) (h : doc.resolve value = .ok target) :
    target.ordered = true := by
  have hdescend : ∀ segments (value found : Json), value.ordered = true →
      Pointer.descend? value segments = some found → found.ordered = true := by
    intro segments
    induction segments with
    | nil =>
      intro value found hvalue h
      obtain rfl := Option.some.inj h
      exact hvalue
    | cons segment rest ih =>
      intro value found hvalue h
      obtain ⟨next, hnext, hrest⟩ := Option.bind_eq_some_iff.1 h
      exact ih next found
        (Json.ordered_of_mem_children hvalue (Pointer.mem_children_of_step? hnext)) hrest
  have hwithin : ∀ hops (value : Json), value.ordered = true →
      doc.resolveWithin hops value = .ok target → target.ordered = true := by
    intro hops
    induction hops with
    | zero =>
      intro value _ h
      cases h
    | succ hops ih =>
      intro value hvalue h
      rw [resolveWithin] at h
      split at h
      · obtain rfl := Except.ok.inj h
        exact hvalue
      · split at h
        · cases h
        · rename_i next hnext
          obtain ⟨segments, -, hsegments⟩ := Option.bind_eq_some_iff.1 hnext
          exact ih next (hdescend segments _ next hdoc hsegments) h
  exact hwithin maxHops value hvalue h

/-- The media types of the body of an operation are in strictly increasing order. -/
theorem pairwise_of_requestBody (hdoc : (Json.obj doc.root).ordered = true) {operation : Members}
    (hoperation : (Json.obj operation).ordered = true) {body : RequestBody}
    (h : doc.requestBody operation = .ok (some body)) :
    (body.content.map (·.1)).Pairwise (· < ·) := by
  unfold requestBody at h
  split at h
  · cases h
  · rename_i raw hraw
    obtain ⟨value, hvalue, h⟩ := bind_eq_ok_iff.1 h
    have hordered := ordered_of_resolve hdoc
      (Json.ordered_of_mem_children hoperation (Json.mem_children_of_get? hraw)) hvalue
    split at h
    · split at h
      · rename_i content hcontent
        obtain rfl := Option.some.inj (Except.ok.inj h)
        have hcontent := Json.ordered_of_mem_children hordered
          (Json.mem_children_of_get? (Members.object?_eq_some_iff.1 hcontent))
        rw [Json.ordered, Bool.and_eq_true, decide_eq_true_eq] at hcontent
        simpa [Function.comp_def, -String.lt_iff_ltb] using hcontent.1
      · cases h
    · cases h

end Document

end ApiGateway
