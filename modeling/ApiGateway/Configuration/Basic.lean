import ApiGateway.Json.Basic

/-!
# Declarative configurations

What a compilation produces: services with their nested routes and plugins, upstreams, and the
plugins that need more than one owner.

## Main definitions

* `Configuration`: the parts of a configuration.
* `Configuration.fields`: its fields in the order in which they are written.
* `Configuration.ofJson?`: the configuration a value describes.
* `Configuration.routeCount`: the number of routes of all services.
* `Configuration.identifiers`: every identifier at any depth.
-/
namespace ApiGateway

/-- A declarative configuration. -/
structure Configuration where
  formatVersion : String
  services : List Members
  upstreams : List Members
  plugins : List Members

/-- The objects of a list value, other items left out. -/
def objectsIn (value : Option Json) : List Members :=
  match value with
  | some (.arr items) => items.filterMap Json.asObject?
  | _ => []

namespace Configuration

/-- The format version of compiled configurations. -/
def currentFormat : String := "3.0"

/-- The fields in the order in which they are written. The list of plugins is left out when it
is empty. -/
def fields (c : Configuration) : List (String × Json) :=
  [("_format_version", .str c.formatVersion), ("services", .ofObjects c.services),
   ("upstreams", .ofObjects c.upstreams)] ++
    if c.plugins = [] then [] else [("plugins", .ofObjects c.plugins)]

/-- The configuration as a value. -/
def toJson (c : Configuration) : Json := .obj (Members.ofList c.fields)

/-- A list of objects. -/
def objects? (value : Json) : Option (List Members) :=
  value.asList?.bind fun items => items.mapM Json.asObject?

/-- A configuration out of the values of its fields. Without plugins there are none. -/
def ofParts? (version services upstreams : Json) (plugins : Option Json) :
    Option Configuration := do
  return ⟨← version.asString?, ← objects? services, ← objects? upstreams,
    ← (plugins.map objects?).getD (some [])⟩

/-- The configuration a value describes: an object with its fields, or a list of them in
order. Other fields of an object are ignored. -/
def ofJson? : Json → Option Configuration
  | .obj members => do
    ofParts? (← Members.get? members "_format_version") (← Members.get? members "services")
      (← Members.get? members "upstreams") (Members.get? members "plugins")
  | .arr [version, services, upstreams] => ofParts? version services upstreams none
  | .arr [version, services, upstreams, plugins] =>
    ofParts? version services upstreams (some plugins)
  | _ => none

/-- The number of routes of all services. -/
def routeCount (c : Configuration) : Nat :=
  (c.services.flatMap fun s => (s.list? "routes").getD []).length

/-- The first service of a name. -/
def service? (c : Configuration) (name : String) : Option Members :=
  c.services.find? fun s => s.string? "name" == some name

/-- The routes nested in a service. -/
def routesOf (service : Members) : List Members := objectsIn (service.get? "routes")

/-- The plugins nested in a service or a route. -/
def pluginsOf (owner : Members) : List Members := objectsIn (owner.get? "plugins")

mutual

/-- The strings under `id` in a value, in the order of a walk. -/
def identifiersIn : Json → List String
  | .arr items => identifiersInItems items
  | .obj members => identifiersInMembers members
  | _ => []

/-- The identifiers in the items of a list. -/
def identifiersInItems : List Json → List String
  | [] => []
  | item :: rest => identifiersIn item ++ identifiersInItems rest

/-- The identifier of an object and those below its members, in the order of keys. -/
def identifiersInMembers : List (String × Json) → List String
  | [] => []
  | (key, .str text) :: rest =>
    if key = "id" then text :: identifiersInMembers rest else identifiersInMembers rest
  | (_, value) :: rest => identifiersIn value ++ identifiersInMembers rest

end

/-- Every identifier of a configuration. -/
def identifiers (c : Configuration) : List String := identifiersIn c.toJson

end Configuration

end ApiGateway
