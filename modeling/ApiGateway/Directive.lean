import ApiGateway.Document.Basic

/-!
# Directives

Extensions of a scope that steer the compilation. Directives whose value is an object may
instead refer to an object below `#/components/x-kong/`, and nowhere else.

## Main definitions

* `Directive.name?`: the name a scope gives itself.
* `Directive.tags?`: the tags of the document.
* `Directive.object?`: a directive whose value is an object.
-/
namespace ApiGateway.Directive

/-- The name of a scope. -/
def nameKey : String := "x-kong-name"

/-- The tags of the document. -/
def tagsKey : String := "x-kong-tags"

/-- The defaults of the services of a scope. -/
def serviceKey : String := "x-kong-service-defaults"

/-- The defaults of the upstreams of a scope. -/
def upstreamKey : String := "x-kong-upstream-defaults"

/-- The defaults of the routes of a scope. -/
def routeKey : String := "x-kong-route-defaults"

/-- The start of a key that declares a plugin. -/
def pluginStart : String := "x-kong-plugin-"

/-- The settings of the plugin of a security scheme. -/
def securityKey : String := "x-kong-security-openid-connect"

/-- Where references of directives have to point. -/
def space : String := "#/components/x-kong"

/-- The name a scope gives itself. -/
def name? (scope : Members) : Except Error (Option String) :=
  match scope.get? nameKey with
  | none => .ok none
  | some (.str name) => .ok (some name)
  | some _ => .error (.nameNotString nameKey)

/-- The tags of the document. -/
def tags? (doc : Document) : Except Error (Option (List String)) :=
  match doc.root.get? tagsKey with
  | none => .ok none
  | some value =>
    match value.asList?.bind fun items => items.mapM Json.asString? with
    | some tags => .ok (some tags)
    | none => .error (.tagsNotStrings tagsKey)

/-- The objects that directives may refer to. -/
def components? (doc : Document) : Except Error (Option Members) :=
  match (doc.root.get? "components").bind (·.get? "x-kong") with
  | none => .ok none
  | some (.obj components) => .ok (some components)
  | some _ => .error (.extension "/components/x-kong" .notObject)

/-- Descends from an object through objects only. `walked` is the pointer so far. -/
def descend (reference : String) (current : Members) (walked : String) :
    List String → Except Error Members
  | [] => .ok current
  | segment :: rest =>
    let walked := walked ++ "/" ++ segment
    match current.get? segment with
    | none => .error (.extensionReference reference .notFound)
    | some (.obj next) => descend reference next walked rest
    | some _ => .error (.extensionReference reference (.notObject walked))

/-- The object that the value of a directive stands for: itself, or what it refers to. -/
def dereference (doc : Document) (value : Members) : Except Error Members :=
  match value.get? "$ref" with
  | none => .ok value
  | some (.str reference) =>
    match Text.after? (space ++ "/").toList reference.toList with
    | none => .error (.extensionReference reference .outsideNamespace)
    | some relative => do
      match ← components? doc with
      | none => .error (.extensionReference reference .notFound)
      | some components => descend reference components space (Pointer.segments relative)
  | some _ => .error (.extensionReference "$ref" .notString)

/-- A directive whose value is an object. -/
def object? (doc : Document) (scope : Members) (key : String) : Except Error (Option Members) :=
  match scope.get? key with
  | none => .ok none
  | some (.obj value) => (dereference doc value).map some
  | some _ => .error (.extension key .notObject)

end ApiGateway.Directive
