import ApiGateway.Entity.Stamp
import ApiGateway.Server.Basic

/-!
# Services and upstreams

A service is made from the defaults of its scope, with name, identifier and tags set and host,
port, path and protocol filled in from the first server. When the defaults name no host and
there are several servers, or defaults for an upstream, the service points to an upstream that
lists its targets.

## Main definitions

* `Defaults`: the defaults of the three kinds of entities.
* `upstream`: an upstream with its targets.
* `service`: a service, with an upstream when it needs one.
-/
namespace ApiGateway

/-- The defaults of a scope for each kind of entity. -/
structure Defaults where
  service : Option Members := none
  upstream : Option Members := none
  route : Option Members := none

/-- Sets a key unless it is present. -/
def Members.insertNew (members : Members) (key : String) (value : Json) : Members :=
  if members.has key then members else members.insert key value

/-- Setting a key unless it is present leaves other keys alone. -/
theorem Members.get?_insertNew_of_ne (members : Members) (key : String) (value : Json)
    {other : String} (hne : other ≠ key) :
    (members.insertNew key value).get? other = members.get? other := by
  unfold insertNew
  split
  · rfl
  · simp [get?_insert, hne]

/-- The name of the upstream of a service. -/
def upstreamName (base : String) : String := base ++ ".upstream"

/-- A target that the defaults of an upstream declare, with the tags of the run. -/
def declaredTarget (stamp : Stamp) : Json → Json
  | .obj target => .obj (Members.insert target "tags" stamp.tagList)
  | other => other

/-- The entry of a server among the targets of an upstream. -/
def serverTarget (stamp : Stamp) (t : Target) : Json :=
  .obj ((Members.insert [] "target" (.str t.authority)).insert "tags" stamp.tagList)

/-- An upstream made from its defaults. Targets that the defaults declare are kept, otherwise
every server is a target. -/
def upstream (stamp : Stamp) (base : String) (targets : List Target)
    (defaults : Option Members) : Members :=
  let stamped := stamp.apply (defaults.getD []) base "upstream"
  let named := stamped.insert "name" (.str (upstreamName base))
  let entries := match named.get? "targets" with
    | some (.arr declared) => declared.map (declaredTarget stamp)
    | _ => targets.map (serverTarget stamp)
  named.insert "targets" (.arr entries)

/-- The port of a service whose first server has none. -/
def fallbackPort (scheme : Option String) : Nat := if scheme = some "http" then 80 else 443

/-- A service made from its defaults and servers, with an upstream when it needs one. -/
def service (stamp : Stamp) (base : String) (servers : List Json) (defaults : Defaults)
    (readUri : String → Except UriError Uri := Uri.parse) :
    Except Error (Members × Option Members) := do
  let stamped := stamp.apply (defaults.service.getD []) base "service"
  let entity := stamped.insert "name" (.str base)
    |>.insert "plugins" (.arr [])
    |>.insert "routes" (.arr [])
  let fallback := (entity.string? "protocol").getD "https"
  let targets := (← Target.parseAll servers readUri).map (·.withDefaults fallback)
  let first := targets.headD Target.root
  let port := first.port.getD (fallbackPort first.scheme)
  let entity := entity.insertNew "protocol" (.str (first.scheme.getD fallback))
    |>.insertNew "path" (.str first.path)
    |>.insertNew "port" (.int port)
  if entity.has "host" then return (entity, none)
  if targets.length = 1 ∧ defaults.upstream.isNone then
    return (entity.insert "host" (.str first.hostname), none)
  let up := upstream stamp base targets defaults.upstream
  return (entity.insert "host" (.str (upstreamName base)), some up)

end ApiGateway
