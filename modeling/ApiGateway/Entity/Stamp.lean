import ApiGateway.Json.Basic
import ApiGateway.Uuid.Basic

/-!
# Stamps

Every entity of a configuration is an object. A stamp gives it its identifier, derived from
the base name of its owner and its kind, and the tags of the run.

## Main definitions

* `Stamp`: tags, namespace and whether identifiers are written.
* `Stamp.idText`: the identifier of a kind of entity under a base name.
* `Stamp.apply`: sets identifier and tags.
* `Stamp.foreignKey`: the value by which other entities refer to one.
-/
namespace ApiGateway

/-- What is stamped on the entities of one run. -/
structure Stamp where
  tags : List String
  space : Uuid
  skipId : Bool
  nameId : Uuid → String → Uuid := Uuid.named

namespace Stamp

/-- The tags as a list value. -/
def tagList (stamp : Stamp) : Json := .ofStrings stamp.tags

/-- The identifier of a kind of entity under a base name. -/
def idText (stamp : Stamp) (base kind : String) : String :=
  (stamp.nameId stamp.space (base ++ "." ++ kind)).text

/-- Sets the identifier, unless identifiers are left out, and the tags. -/
def apply (stamp : Stamp) (entity : Members) (base kind : String) : Members :=
  let entity :=
    if stamp.skipId then entity else entity.insert "id" (.str (stamp.idText base kind))
  entity.insert "tags" stamp.tagList

/-- The field by which other entities refer to one. -/
def keyField (stamp : Stamp) : String := if stamp.skipId then "name" else "id"

/-- The value by which other entities refer to one. -/
def foreignKey (stamp : Stamp) (owner : Members) : Json :=
  (owner.get? stamp.keyField).getD .null

/-- A stamped entity has the tags of the run. -/
@[simp] theorem get?_tags_apply (stamp : Stamp) (entity : Members) (base kind : String) :
    (stamp.apply entity base kind).get? "tags" = some stamp.tagList := by
  simp [apply]

/-- A stamp touches only identifier and tags. -/
theorem get?_apply_of_ne (stamp : Stamp) (entity : Members) (base kind : String) {key : String}
    (hid : key ≠ "id") (htags : key ≠ "tags") :
    (stamp.apply entity base kind).get? key = entity.get? key := by
  simp only [apply, Members.get?_insert, htags, if_false]
  split
  · rfl
  · simp [Members.get?_insert, hid]

end Stamp

end ApiGateway
