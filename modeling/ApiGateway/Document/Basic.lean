import ApiGateway.Document.Pointer
import ApiGateway.Error

/-!
# API documents

A document is the tree of an API description of version 3 whose `paths` are an object. It is
kept untyped, since most of it is copied or ignored.

## Main definitions

* `Document`: the root object with its version.
* `Document.ofJson`: the checks that make a value a document.
* `Document.lookup?`: the value a local reference points to.
* `Document.resolve`: the value at the end of a chain of references.
* `Document.securityScheme`: a security scheme by name.
-/
namespace ApiGateway

/-- An API description. -/
structure Document where
  root : Members
  version : String

/-- The servers that a scope declares itself. -/
def serversOf (scope : Members) : List Json := (scope.list? "servers").getD []

/-- The reference that an object stands for, if its `$ref` is a string. -/
def Json.reference? (value : Json) : Option String := (value.get? "$ref").bind Json.asString?

namespace Document

/-- The longest chain of references that is walked. -/
def maxHops : Nat := 32

/-- The version a root object declares, which has to be of the third generation. -/
def versionOf (root : Members) : Except Error String :=
  match root.string? "openapi" with
  | none => .error .notApiDocument
  | some version =>
    if (Text.after? "3.".toList version.toList).isSome then .ok version
    else .error (.structural (.unsupportedVersion version))

/-- The document that a value describes. -/
def ofJson (value : Json) : Except Error Document :=
  match value with
  | .obj root => do
    let version ← versionOf root
    match Members.get? root "paths" with
    | some (.obj _) => .ok ⟨root, version⟩
    | some _ => .error (.structural .pathsNotObject)
    | none => .error (.structural .pathsMissing)
  | _ => .error .rootNotObject

/-- The title of the document, unless it is empty. -/
def title? (doc : Document) : Option String :=
  match ((doc.root.get? "info").bind (·.get? "title")).bind Json.asString? with
  | some "" => none
  | title => title

/-- The servers of the whole document. -/
def servers (doc : Document) : List Json := serversOf doc.root

/-- The security requirements of the whole document. -/
def security? (doc : Document) : Option Json := doc.root.get? "security"

/-- The value a local reference points to. Other references point nowhere. -/
def lookup? (doc : Document) (reference : String) : Option Json :=
  (Pointer.segments? reference).bind fun segments => Pointer.descend? (.obj doc.root) segments

/-- Follows a chain of references, looking at no more than `hops` values. -/
def resolveWithin (doc : Document) : Nat → Json → Except Error Json
  | 0, _ => .error (.chainTooLong maxHops)
  | hops + 1, value =>
    match value.reference? with
    | none => .ok value
    | some reference =>
      match doc.lookup? reference with
      | none => .error (.unresolved reference)
      | some target => doc.resolveWithin hops target

/-- The value at the end of a chain of references. -/
def resolve (doc : Document) (value : Json) : Except Error Json :=
  doc.resolveWithin maxHops value

/-- The security scheme of a name, with references followed. -/
def securityScheme (doc : Document) (name : String) : Except Error Members :=
  let reference := "#/components/securitySchemes/" ++ Pointer.escape name
  match doc.lookup? reference with
  | none => .error (.unresolved reference)
  | some raw => do
    match ← doc.resolve raw with
    | .obj scheme => .ok scheme
    | _ => .error (.structural (.securitySchemeNotObject name))

end Document

end ApiGateway
