import ApiGateway.Document.Reference

/-!
# Circular schemas

A component schema is circular when references lead from it back to a reference on the way.
The search goes depth first through the component schemas in the order of their names; it
keeps the references on the way and those that are known to lead into no cycle.

Following a reference never repeats one on the way, so the number of references in the
document bounds the depth of the search.

## Main definitions

* `Document.visit`: follows one reference.
* `Document.circularReference?`: the reference that closes the first cycle.
-/
namespace ApiGateway

namespace Document

/-- Visits a reference: one on the way closes a cycle, a new one is followed, and afterwards
it is known to lead into no cycle. The first argument bounds the depth. -/
def visit (doc : Document) : Nat → (way : List String) → String → List String →
    Except String (List String)
  | 0, _, reference, _ => .error reference
  | depth + 1, way, reference, cleared =>
    if reference ∈ way then .error reference
    else if reference ∈ cleared then .ok cleared
    else
      match doc.lookup? reference with
      | none => .ok (reference :: cleared)
      | some target => do
        let cleared ← target.walkReferences (doc.visit depth (reference :: way)) cleared
        .ok (reference :: cleared)

/-- The component schemas of a document. -/
def schemas (doc : Document) : Members :=
  match (doc.root.get? "components").bind (·.get? "schemas") with
  | some (.obj schemas) => schemas
  | _ => []

/-- The reference to a component schema. -/
def schemaReference (name : String) : String := "#/components/schemas/" ++ Pointer.escape name

/-- Searches one component schema, unless it is known to lead into no cycle. -/
def searchSchema (doc : Document) (cleared : List String) (schema : String × Json) :
    Except String (List String) :=
  let reference := schemaReference schema.1
  if reference ∈ cleared then .ok cleared
  else do
    let cleared ←
      schema.2.walkReferences (doc.visit (doc.referenceBound + 1) [reference]) cleared
    .ok (reference :: cleared)

/-- The reference that closes the first cycle among the component schemas. -/
def circularReference? (doc : Document) : Option String :=
  match doc.schemas.foldlM doc.searchSchema [] with
  | .error reference => some reference
  | .ok _ => none

end Document

end ApiGateway
