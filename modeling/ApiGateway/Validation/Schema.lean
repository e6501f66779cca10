import ApiGateway.Document.Reference
import ApiGateway.Json.Print

/-!
# Self-contained schemas

A schema taken out of a document may refer to other schemas. Extraction collects every schema
that can be reached, puts the collected ones under `definitions`, and points the references
there.

References are collected depth first, each once, so the number of references in schema and
document bounds the depth.

## Main definitions

* `subschemas`: the schemas directly inside a schema.
* `Collected`: the references met so far and the definitions they need.
* `Document.collect`: everything that can be reached from a schema.
* `Json.redirect`: points references to definitions.
* `Document.extractSchema`: the text of a self-contained schema.
-/
namespace ApiGateway

/-- The items of a list value, none for any other value. -/
def Json.items : Json → List Json
  | .arr items => items
  | _ => []

/-- The schemas directly inside a schema: alternatives, properties, and single schemas, where
values that are no objects, such as a truth value for additional properties, are left out. -/
def subschemas : Json → List Json
  | .obj schema =>
    let alternatives := ["allOf", "anyOf", "oneOf"].flatMap fun key =>
      (Members.list? schema key).getD []
    let properties := ((Members.object? schema "properties").getD []).values
    let singles := ["not", "items", "additionalProperties"].filterMap fun key =>
      (Members.object? schema key).map Json.obj
    alternatives ++ properties ++ singles
  | _ => []

/-- A value found under a key is smaller than the object. -/
theorem Members.sizeOf_lt_of_get? {members : Members} {key : String} {value : Json}
    (h : members.get? key = some value) : sizeOf value < sizeOf members := by
  induction members with
  | nil => simp at h
  | cons m rest ih =>
    obtain ⟨k, v⟩ := m
    simp only [get?] at h
    split at h
    · simp at h; subst h; simp; omega
    · have := ih h; simp; omega

/-- A schema inside another is smaller. -/
theorem sizeOf_lt_of_mem_subschemas {schema sub : Json} (h : sub ∈ subschemas schema) :
    sizeOf sub < sizeOf schema := by
  match schema with
  | .obj members =>
    simp only [subschemas, List.mem_append, List.mem_flatMap, List.mem_filterMap] at h
    rcases h with (⟨key, _, h⟩ | h) | ⟨key, _, h⟩
    · unfold Members.list? at h
      split at h
      · rename_i items hget
        have hlt := Members.sizeOf_lt_of_get? hget
        have hmem := List.sizeOf_lt_of_mem (by simpa using h)
        simp at hlt ⊢; omega
      · simp at h
    · unfold Members.object? at h
      split at h
      · rename_i inner hget
        have hlt := Members.sizeOf_lt_of_get? hget
        simp only [Option.getD_some, Members.values, List.mem_map] at h
        obtain ⟨⟨k, v⟩, hm, rfl⟩ := h
        have hmem := List.sizeOf_lt_of_mem hm
        simp at hlt hmem ⊢; omega
      · simp [Members.values] at h
    · unfold Members.object? at h
      split at h
      · rename_i inner hget
        have hlt := Members.sizeOf_lt_of_get? hget
        simp at h; subst h
        simp at hlt ⊢; omega
      · simp at h
  | .null | .bool _ | .int _ | .float _ | .str _ | .arr _ => simp [subschemas] at h

/-- What has been reached: the references, and the definitions by name. -/
structure Collected where
  references : List String := []
  definitions : Members := []

/-- The written form of the definition name of a reference: the name of a component schema, or
the segments of any other pointer joined by underscores. -/
def definitionSegment (reference : String) : List Char :=
  match Text.after? "#/components/schemas/".toList reference.toList with
  | some name => name
  | none => (trimStart reference.toList).map fun c => if c = '/' then '_' else c
where
  /-- Drops every leading number sign with a slash. -/
  trimStart : List Char → List Char
    | '#' :: '/' :: rest => trimStart rest
    | other => other

/-- Where a collected reference points after extraction. -/
def definitionReference (reference : String) : String :=
  "#/definitions/" ++ String.ofList (definitionSegment reference)

/-- Visits the references of a schema. A reference stands for the whole schema; otherwise the
schemas inside are visited in order. -/
def walkSchema {ε σ : Type} (visit : String → σ → Except ε σ) (schema : Json) (state : σ) :
    Except ε σ :=
  match schema.reference? with
  | some reference => visit reference state
  | none => (subschemas schema).attach.foldlM
      (fun state ⟨sub, _⟩ => walkSchema visit sub state) state
termination_by sizeOf schema
decreasing_by exact sizeOf_lt_of_mem_subschemas ‹_›

namespace Document

/-- Collects a reference and everything its target reaches. The first argument bounds the
depth. -/
def collectReference (doc : Document) : Nat → String → Collected → Except Error Collected
  | 0, _, collected => .ok collected
  | depth + 1, reference, collected =>
    if reference ∈ collected.references then .ok collected
    else
      match doc.lookup? reference with
      | none => .error (.unresolved reference)
      | some target =>
        let name := Pointer.unescape (definitionSegment reference)
        walkSchema (doc.collectReference depth) target
          ⟨reference :: collected.references, collected.definitions.insert name target⟩

/-- Collects everything a schema reaches. -/
def collect (doc : Document) (schema : Json) : Except Error Collected :=
  walkSchema (doc.collectReference (schema.countReferences + doc.referenceBound + 1)) schema {}

end Document

namespace Json

mutual

/-- Points collected references, wherever they stand, to their definitions. -/
def redirect (references : List String) : Json → Json
  | .arr items => .arr (redirectItems references items)
  | .obj members => .obj (redirectMembers references members)
  | other => other

/-- Points the references in a list to their definitions. -/
def redirectItems (references : List String) : List Json → List Json
  | [] => []
  | item :: rest => redirect references item :: redirectItems references rest

/-- Points the reference of an object and those below its members to their definitions. -/
def redirectMembers (references : List String) : List (String × Json) → List (String × Json)
  | [] => []
  | (key, value) :: rest =>
    let value :=
      if key = "$ref" then
        match value with
        | .str reference =>
          if reference ∈ references then .str (definitionReference reference) else value
        | _ => value
      else redirect references value
    (key, value) :: redirectMembers references rest

end

end Json

/-- The value of a self-contained schema: the schema, or just its reference, with what it
reaches under `definitions`. -/
def Document.selfContained (doc : Document) (schema : Json) : Except Error Json := do
  let collected ← doc.collect schema
  let primary := match schema.reference? with
    | some reference => Json.obj [("$ref", .str reference)]
    | none => schema
  let complete := match primary with
    | .obj members =>
      if collected.definitions = [] then primary
      else .obj (Members.insert members "definitions" (.obj collected.definitions))
    | other => other
  return complete.redirect collected.references

/-- The text of a self-contained schema, empty without a schema. -/
def Document.extractSchema (doc : Document) (schema : Option Json) : Except Error String :=
  match schema with
  | none => .ok ""
  | some schema => (doc.selfContained schema).map Json.compact

end ApiGateway
