import ApiGateway.Document.Basic

/-!
# Operations

The paths of a document with their operations, and what an operation takes: parameters, merged
from the path item and the operation, and the media types of its request body.

## Main definitions

* `Document.pathItems`: the path items in the order of their templates.
* `operations`: the operations of a path item in the order of their methods.
* `Parameter`, `Document.parameters`: the parameters of an operation.
* `RequestBody`, `Document.requestBody`: the media types of a request body.
-/
namespace ApiGateway

/-- The methods an operation may have, in alphabetical order. -/
def methods : List String := ["delete", "get", "head", "options", "patch", "post", "put", "trace"]

/-- A parameter of an operation. Its schema may be a reference. -/
structure Parameter where
  name : String
  location : String
  required : Bool
  style : Option String
  explode : Option Bool
  schema : Option Json
  deriving Inhabited

/-- The media types of a request body in order, each with its schema if it has one. -/
structure RequestBody where
  content : List (String × Option Json)
  deriving Inhabited

/-- The path items of a document in the order of their templates, with references followed.
Members of `paths` that do not start with a slash are no path items. -/
def Document.pathItems (doc : Document) : Except Error (List (String × Members)) :=
  let paths := (doc.root.object? "paths").getD []
  let templates := paths.filter fun (template, _) => template.toList.head? = some '/'
  templates.mapM fun (template, raw) => do
    match ← doc.resolve raw with
    | .obj item => .ok (template, item)
    | _ => .error (.structural (.pathItemNotObject template))

/-- The operations of a path item in the order of their methods. -/
def operations (path : String) (item : Members) : Except Error (List (String × Members)) :=
  let declared := methods.filterMap fun method =>
    (item.get? method).map fun value => (method, value)
  declared.mapM fun (method, value) =>
    match value with
    | .obj operation => .ok (method, operation)
    | _ => .error (.structural (.operationNotObject method.toUpper path))

/-- The schema of the first media type of a parameter. -/
def contentSchema? (parameter : Members) : Option Json :=
  match parameter.object? "content" with
  | some ((_, media) :: _) => media.get? "schema"
  | _ => none

/-- The parameter that an object describes, if it has a name and a location. -/
def Parameter.ofObject? (parameter : Members) : Option Parameter :=
  match parameter.string? "in", parameter.string? "name" with
  | some location, some name =>
    some
      { name, location
        required := (parameter.bool? "required").getD false
        style := parameter.string? "style"
        explode := parameter.bool? "explode"
        schema := parameter.get? "schema" <|> contentSchema? parameter }
  | _, _ => none

/-- Whether two parameters have the same name and location. -/
def Parameter.sameKey (p q : Parameter) : Bool := p.name == q.name && p.location == q.location

/-- Puts a parameter in the place of the first one with its name and location, or at the
end. -/
def Parameter.override (parameters : List Parameter) (p : Parameter) : List Parameter :=
  match parameters with
  | [] => [p]
  | q :: rest => if q.sameKey p then p :: rest else q :: override rest p

/-- The parameters that a path item or an operation lists. Entries that describe no parameter
are left out. -/
def Document.listedParameters (doc : Document) (scope : Members) :
    Except Error (List Parameter) := do
  let entries ← ((scope.list? "parameters").getD []).mapM doc.resolve
  return entries.filterMap fun entry => entry.asObject?.bind Parameter.ofObject?

/-- The parameters of an operation: those of the path item, overridden and extended by those of
the operation. -/
def Document.parameters (doc : Document) (item operation : Members) :
    Except Error (List Parameter) := do
  let shared ← doc.listedParameters item
  let own ← doc.listedParameters operation
  return own.foldl Parameter.override shared

/-- The request body of an operation. A body without an object of media types is none. -/
def Document.requestBody (doc : Document) (operation : Members) :
    Except Error (Option RequestBody) := do
  match operation.get? "requestBody" with
  | none => return none
  | some raw =>
    match ← doc.resolve raw with
    | .obj body =>
      match Members.object? body "content" with
      | some content =>
        return some ⟨content.map fun (mediaType, media) => (mediaType, media.get? "schema")⟩
      | none => return none
    | _ => return none

end ApiGateway
