import ApiGateway.Document.Basic

/-!
# References below a value

Every object with a string under `$ref` refers to something. References are visited in the
order in which they stand, and counted; the count bounds every walk that follows references
without repeating one.

## Main definitions

* `Json.walkReferences`: visits the references of a value from left to right.
* `Json.countReferences`: how many references a value holds at most.
* `Document.referenceBound`: a bound for the references of a document.
-/
namespace ApiGateway

namespace Json

mutual

/-- Visits the references of a value: first its own, then those below members other than
`$ref` and below items. A visit changes a state or ends the walk. -/
def walkReferences {ε σ : Type} (visit : String → σ → Except ε σ) :
    Json → σ → Except ε σ
  | .obj members, state =>
    match Members.string? members "$ref" with
    | some reference => do walkMembers visit members (← visit reference state)
    | none => walkMembers visit members state
  | .arr items, state => walkItems visit items state
  | _, state => .ok state

/-- Visits the references of the items of a list. -/
def walkItems {ε σ : Type} (visit : String → σ → Except ε σ) :
    List Json → σ → Except ε σ
  | [], state => .ok state
  | item :: rest, state => do walkItems visit rest (← walkReferences visit item state)

/-- Visits the references below the members of an object other than `$ref`. -/
def walkMembers {ε σ : Type} (visit : String → σ → Except ε σ) :
    List (String × Json) → σ → Except ε σ
  | [], state => .ok state
  | (key, value) :: rest, state =>
    if key = "$ref" then walkMembers visit rest state
    else do walkMembers visit rest (← walkReferences visit value state)

end

mutual

/-- How many references a value holds. -/
def countReferences : Json → Nat
  | .obj members => countInMembers members
  | .arr items => countInItems items
  | _ => 0

/-- How many references the items of a list hold. -/
def countInItems : List Json → Nat
  | [] => 0
  | item :: rest => countReferences item + countInItems rest

/-- How many references the members of an object hold, its own included. -/
def countInMembers : List (String × Json) → Nat
  | [] => 0
  | (key, value) :: rest =>
    (if key = "$ref" then 1 else 0) + countReferences value + countInMembers rest

end

end Json

/-- A bound for the number of different references in a document. -/
def Document.referenceBound (doc : Document) : Nat := (Json.obj doc.root).countReferences

end ApiGateway
