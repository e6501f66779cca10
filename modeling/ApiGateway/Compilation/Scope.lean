import ApiGateway.Compilation.Options
import ApiGateway.Entity.Plugin
import ApiGateway.Entity.Service
import ApiGateway.Security.OpenIdConnect

/-!
# Scopes

A compilation walks down from the document over its paths to their operations. Each of them is
a scope that hands defaults, servers and plugins to the scopes inside it. A scope with its own
service defaults, upstream defaults or servers gets a service of its own; the routes of any
other scope belong to the service of the scope around it, and the plugins declared since that
service was made wait for the routes.

## Main definitions

* `Build`: the services made so far, with their routes, and the plugins of the top level.
* `Build.addService`, `Build.addRoute`: the two ways a build grows.
* `Cascade`: what a scope hands down.
* `Cascade.ofDocument`, `Cascade.enter`: the cascade of the document, and of a scope inside
  another, with the service the scope makes.
* `Scope`: a cascade with the service that its routes belong to.
* `Scope.ofDocument`, `Scope.enter`: the scope of the document, and a scope inside another.
-/
namespace ApiGateway

/-- A service with its upstream and the routes that belong to it. -/
structure Slot where
  service : Members
  upstream : Option Members
  routes : List Members

/-- What a compilation has made so far. -/
structure Build where
  slots : List Slot := []
  shared : List Members := []

/-- What every step of one compilation knows. -/
structure Context where
  doc : Document
  options : Options
  stamp : Stamp

/-- How scopes are named. -/
def Context.naming (ctx : Context) : Naming := ctx.options.naming

/-- A service as its defaults and servers make it, before plugins and routes are added, with
its upstream. -/
structure Made where
  service : Members
  upstream : Option Members

namespace Build

/-- Adds a service that carries plugins; those of consumers go to the top level. -/
def addService (ctx : Context) (build : Build) (plugins : List Members) (made : Made) : Build :=
  let (moved, kept) := Plugin.bubble "service" (ctx.stamp.foreignKey made.service) plugins
  let slot : Slot := ⟨made.service.insert "plugins" (.ofObjects kept), made.upstream, []⟩
  ⟨build.slots ++ [slot], build.shared ++ moved⟩

/-- Adds a route to a service. Its plugins are stamped for the route; those of consumers go to
the top level. -/
def addRoute (ctx : Context) (index : Nat) (base : String) (plugins : List Members)
    (build : Build) (route : Members) : Build :=
  let name := (route.string? "name").getD base
  let own := plugins.map (Plugin.restamp ctx.stamp name)
  let (moved, kept) := Plugin.bubble "route" (ctx.stamp.foreignKey route) own
  let complete := route.insert "plugins" (.ofObjects kept)
  ⟨build.slots.modify index fun slot => { slot with routes := slot.routes ++ [complete] },
    build.shared ++ moved⟩

end Build

/-- What a scope hands down to the scopes inside it. -/
structure Cascade where
  base : String
  defaults : Defaults
  servers : List Json
  /-- all plugins in effect -/
  plugins : List Members
  /-- the plugins in effect that the service does not carry -/
  pending : List Members
  /-- the template of request validators -/
  validator : Option Members
  /-- the OpenID Connect plugin in effect, without a stamp -/
  openId : Option Members

/-- The defaults that a scope declares itself. -/
def declaredDefaults (doc : Document) (object : Members) : Except Error Defaults := do
  let service ← Directive.object? doc object Directive.serviceKey
  let upstream ← Directive.object? doc object Directive.upstreamKey
  let route ← Directive.object? doc object Directive.routeKey
  return ⟨service, upstream, route⟩

namespace Cascade

/-- The service of a scope. -/
def make (ctx : Context) (cascade : Cascade) : Except Error Made := do
  let (entity, up) ←
    service ctx.stamp cascade.base cascade.servers cascade.defaults ctx.options.readUri
  return ⟨entity, up⟩

/-- The cascade of the document, which always makes a service. -/
def ofDocument (ctx : Context) (base : String) : Except Error (Cascade × Made) := do
  let defaults ← declaredDefaults ctx.doc ctx.doc.root
  let declared ← Plugin.build ctx.doc ctx.stamp base ctx.doc.root []
  let (validator, plugins) := Plugin.extractValidator declared none
  let openId ←
    if ctx.options.openId then
      openIdConnect ctx.doc ctx.options.ignoreSecurityErrors ctx.doc.security? none
    else pure none
  let plugins := match openId with
    | some plugin => Plugin.insert plugins (Plugin.restamp ctx.stamp base plugin)
    | none => plugins
  let cascade : Cascade := ⟨base, defaults, ctx.doc.servers, plugins, [], validator, openId⟩
  return (cascade, ← cascade.make ctx)

/-- The cascade of a scope inside another, with a name. Its own defaults replace those around it
kind by kind, its own servers replace all servers. With any of its own it makes a service. -/
def enter (ctx : Context) (parent : Cascade) (object : Members) (name : String) :
    Except Error (Cascade × Option Made) := do
  let base := ctx.naming.extend parent.base name
  let own ← declaredDefaults ctx.doc object
  let ownServers := serversOf object
  let defaults : Defaults :=
    ⟨own.service <|> parent.defaults.service, own.upstream <|> parent.defaults.upstream,
      own.route <|> parent.defaults.route⟩
  let servers := if ownServers.isEmpty then parent.servers else ownServers
  let declared ← Plugin.build ctx.doc ctx.stamp base object parent.plugins
  let (validator, plugins) := Plugin.extractValidator declared parent.validator
  if own.service.isSome || own.upstream.isSome || !ownServers.isEmpty then
    let cascade : Cascade := ⟨base, defaults, servers, plugins, [], validator, parent.openId⟩
    return (cascade, some (← cascade.make ctx))
  else
    let waiting ← Plugin.build ctx.doc ctx.stamp base object parent.pending
    let (_, pending) := Plugin.extractValidator waiting none
    return (⟨base, defaults, servers, plugins, pending, validator, parent.openId⟩, none)

end Cascade

/-- A scope: what it hands down, and the index of the service that its routes belong to. -/
structure Scope extends Cascade where
  service : Nat

namespace Scope

/-- The scope of the document, whose service joins the build. -/
def ofDocument (ctx : Context) (build : Build) (base : String) :
    Except Error (Build × Scope) := do
  let (cascade, made) ← Cascade.ofDocument ctx base
  return (build.addService ctx cascade.plugins made, ⟨cascade, build.slots.length⟩)

/-- A scope inside another. The service it makes joins the build, otherwise it shares the one of
the scope around it. -/
def enter (ctx : Context) (build : Build) (parent : Scope) (object : Members) (name : String) :
    Except Error (Build × Scope) := do
  match ← parent.toCascade.enter ctx object name with
  | (cascade, some made) =>
    return (build.addService ctx cascade.plugins made, ⟨cascade, build.slots.length⟩)
  | (cascade, none) => return (build, ⟨cascade, parent.service⟩)

end Scope

end ApiGateway
