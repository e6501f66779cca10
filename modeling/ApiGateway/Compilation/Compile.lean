import ApiGateway.Compilation.Scope
import ApiGateway.Configuration.Basic
import ApiGateway.Document.Cycle
import ApiGateway.Document.Operation
import ApiGateway.Document.Read
import ApiGateway.Route.Header
import ApiGateway.Route.Path
import ApiGateway.Validation.RequestValidator

/-!
# Compilation

A document becomes a configuration in one walk: the document, then its paths in order, then
the operations of each path in order. Every operation gives one route, or one for each
combination of its header values.

## Main definitions

* `Document.baseName`: the base name of a document.
* `Cascade.operationRoutes`: the routes of an operation, with the plugins they are to carry.
* `enterOperation`, `enterPath`: the steps of the walk.
* `Build.finish`: the configuration of a finished build.
* `compile`: the whole compilation.
* `compileText`: the compilation of a text.
-/
namespace ApiGateway

/-- The base name of a document: the name in the options, else the one it gives itself, else
its title. A name without letters and digits is replaced by its identifier, and a document
without any name takes a fresh identifier. -/
def Document.baseName (doc : Document) (options : Options) (fresh : Uuid) :
    Except Error String := do
  let chosen ← match options.documentName with
    | some name => pure (some name)
    | none => Directive.name? doc.root
  let fallback (id : Uuid) := options.naming.slugify [id.text]
  match chosen <|> doc.title? with
  | some name =>
    let slug := options.naming.slugify [name]
    return if slug = "" then fallback (options.nameId options.space name) else slug
  | none => return fallback fresh

/-- The plugins of the routes of an operation: those that wait for it, its own OpenID Connect
plugin when that differs from the one in effect, and its request validator. -/
def Cascade.operationPlugins (ctx : Context) (scope : Cascade) (operation : Members)
    (parameters : List Parameter) (body : Option RequestBody) : Except Error (List Members) := do
  let plugins ←
    if ctx.options.openId && operation.has "security" then do
      let openId ← openIdConnect ctx.doc ctx.options.ignoreSecurityErrors
        (operation.get? "security") scope.openId
      match openId with
      | none => pure scope.pending
      | some plugin =>
        let inEffect := (scope.openId.map fun other => Json.sameMembers plugin other).getD false
        if inEffect then pure scope.pending
        else pure (Plugin.insert scope.pending (Plugin.restamp ctx.stamp scope.base plugin))
    else pure scope.pending
  let validator ← requestValidator ctx.doc ctx.naming ctx.stamp scope.base parameters body
    scope.validator
  match validator with
  | some plugin => return Plugin.insert plugins plugin
  | none => return plugins

/-- The route of an operation before headers split it. -/
def Cascade.route (ctx : Context) (scope : Cascade) (method : String) (path : RoutePath) : Members :=
  let stamped := ctx.stamp.apply (scope.defaults.route.getD []) scope.base "route"
  stamped.insert "name" (.str scope.base)
    |>.insert "methods" (.ofStrings [method.toUpper])
    |>.insert "paths" (.ofStrings [path.regex])
    |>.insert "regex_priority" (.int path.priority)
    |>.insertNew "strip_path" (.bool false)

/-- The priority that the route defaults of a scope set. -/
def Cascade.defaultPriority (scope : Cascade) : Option Int :=
  ((scope.defaults.route.getD []).get? "regex_priority").bind Json.asInt64?

/-- The plugins and the routes of an operation. -/
def Cascade.operationRoutes (ctx : Context) (scope : Cascade) (path : String) (item : Members)
    (method : String) (operation : Members) : Except Error (List Members × List Members) := do
  let parameters ← ctx.doc.parameters item operation
  let body ← ctx.doc.requestBody operation
  let plugins ← scope.operationPlugins ctx operation parameters body
  let routePath ← routePath ctx.doc ctx.naming parameters scope.defaultPriority path
  let routes ← expandHeaders ctx.doc ctx.naming ctx.stamp scope.base parameters
    (scope.route ctx method routePath)
  return (plugins, routes)

/-- The name of an operation: the one it gives itself, else its identifier, else its method. -/
def operationName (method : String) (operation : Members) : Except Error String := do
  let given ← Directive.name? operation
  return (given <|> operation.string? "operationId").getD method

/-- The name of a path: the one it gives itself, else its template. -/
def pathName (path : String) (item : Members) : Except Error String := do
  return (← Directive.name? item).getD path

/-- Adds the routes of an operation. -/
def enterOperation (ctx : Context) (parent : Scope) (path : String) (item : Members)
    (build : Build) (entry : String × Members) : Except Error Build := do
  let (method, operation) := entry
  let (build, scope) ← Scope.enter ctx build parent operation (← operationName method operation)
  let (plugins, routes) ← scope.operationRoutes ctx path item method operation
  return routes.foldl (Build.addRoute ctx scope.service scope.base plugins) build

/-- Enters a path and its operations. -/
def enterPath (ctx : Context) (root : Scope) (build : Build) (entry : String × Members) :
    Except Error Build := do
  let (path, item) := entry
  let (build, scope) ← Scope.enter ctx build root item (← pathName path item)
  (← operations path item).foldlM (enterOperation ctx scope path item) build

/-- The name of an entity, empty when it has none. -/
def entityName (entity : Members) : String := (entity.string? "name").getD ""

/-- Entities in the order of their names; entities of one name keep their order. -/
def sortEntities (entities : List Members) : List Members :=
  entities.mergeSort fun a b => !decide (entityName b < entityName a)

/-- Drops the service of the document when the document has no servers, no route belongs to
that service and there are others. Its plugins leave the top level with it. -/
def Build.dropUnused (stamp : Stamp) (hasServers : Bool) (build : Build) : Build :=
  match build.slots with
  | first :: second :: rest =>
    if !hasServers && first.routes.isEmpty then
      let owner := stamp.foreignKey first.service
      ⟨second :: rest, build.shared.filter fun plugin =>
        !((plugin.get? "service").map owner.sameValue).getD false⟩
    else build
  | _ => build

/-- The service of a slot with its routes. -/
def Slot.complete (slot : Slot) : Members := slot.service.insert "routes" (.ofObjects slot.routes)

/-- The configuration of a finished build. -/
def Build.finish (stamp : Stamp) (hasServers : Bool) (build : Build) : Configuration :=
  let kept := build.dropUnused stamp hasServers
  { formatVersion := Configuration.currentFormat
    services := sortEntities (kept.slots.map Slot.complete)
    upstreams := sortEntities (kept.slots.filterMap (·.upstream))
    plugins := Plugin.sortShared kept.shared }

/-- Compiles a document. The fresh identifier names a document that has no name. -/
def compile (fresh : Uuid) (options : Options) (doc : Document) : Except Error Configuration := do
  if !options.ignoreCircularReferences then
    if let some reference := doc.circularReference? then
      throw (.circular reference)
  let tags ← match options.tags with
    | some tags => pure tags
    | none => do pure ((← Directive.tags? doc).getD [])
  let base ← doc.baseName options fresh
  let ctx : Context := ⟨doc, options, options.stamp tags⟩
  let (build, root) ← Scope.ofDocument ctx {} base
  let build ← (← doc.pathItems).foldlM (enterPath ctx root) build
  return build.finish ctx.stamp (!doc.servers.isEmpty)

/-- Compiles the document that a text describes. -/
def compileText (fresh : Uuid) (options : Options) (text : String) :
    Except Error Configuration := do
  compile fresh options (← Document.read text)

end ApiGateway
