import ApiGateway.Directive

/-!
# OpenID Connect plugins

The authentication plugin of a scope, derived from its security requirements. One requirement
that names one OpenID Connect scheme gives a plugin with the settings of the scheme and the
scopes of both; no requirement keeps what is inherited. Any other shape is unsupported.

## Main definitions

* `SecurityDemand`: the supported shapes of requirements.
* `SecurityDemand.ofRequirements`: which shape a value has.
* `openIdPlugin`: the plugin of a scheme with its scopes.
* `openIdConnect`: the plugin in effect.
-/
namespace ApiGateway

/-- The name of the plugin. -/
def openIdName : String := "openid-connect"

/-- The type of the security schemes that give a plugin. -/
def openIdType : String := "openIdConnect"

/-- What a list of security requirements asks for. -/
inductive SecurityDemand where
  | inherit
  | scheme (name : String) (scopes : Json)
  | unsupported (fault : SecurityFault)

/-- The demand of a single requirement: nothing, or one scheme. -/
def SecurityDemand.ofRequirement : Json → SecurityDemand
  | .obj [] => .inherit
  | .obj [(name, scopes)] => .scheme name scopes
  | .obj schemes => .unsupported (.severalSchemes schemes.length)
  | _ => .unsupported .requirementNotObject

/-- The demand of a list of requirements: nothing, or a single one. -/
def SecurityDemand.ofRequirements : Option Json → SecurityDemand
  | none => .inherit
  | some (.arr []) => .inherit
  | some (.arr [requirement]) => .ofRequirement requirement
  | some (.arr requirements) => .unsupported (.severalRequirements requirements.length)
  | some _ => .unsupported .notList

/-- The strings of a list value. -/
def scopeList : Option Json → List String
  | some (.arr items) => items.filterMap Json.asString?
  | _ => []

/-- Puts a text into a list in strictly increasing order. -/
def insertSorted (text : String) : List String → List String
  | [] => [text]
  | t :: rest =>
    if text < t then text :: t :: rest
    else if text = t then t :: rest
    else t :: insertSorted text rest

/-- The different texts of a list in increasing order. -/
def sortedUnion (texts : List String) : List String :=
  texts.foldl (fun sorted text => insertSorted text sorted) []

/-- The settings of the plugin of a scheme. -/
def openIdConfig (plugin : Members) : Except Error Members :=
  match plugin.get? "config" with
  | none => .ok []
  | some (.obj config) => .ok config
  | some _ => .error (.extension Directive.securityKey .configNotObject)

/-- The plugin of a scheme for required scopes: the settings of the scheme, with the scopes of
both, and the issuer it names unless the settings have one. -/
def openIdPlugin (doc : Document) (scheme : Members) (required : Json) :
    Except Error Members := do
  let plugin := (← Directive.object? doc scheme Directive.securityKey).getD []
  let config ← openIdConfig plugin
  let scopes := sortedUnion (scopeList (config.get? "scopes_required") ++ scopeList (some required))
  let config := config.insert "scopes_required" (.ofStrings scopes)
  let config := match scheme.string? "openIdConnectUrl" with
    | some url => if config.has "issuer" then config else config.insert "issuer" (.str url)
    | none => config
  return (plugin.insert "name" (.str openIdName)).insert "config" (.obj config)

/-- The plugin in effect for security requirements. An unsupported shape is an error, or keeps
what is inherited when such errors are ignored. -/
def openIdConnect (doc : Document) (ignoreErrors : Bool) (requirements : Option Json)
    (inherited : Option Members) : Except Error (Option Members) :=
  let refuse (fault : SecurityFault) :=
    if ignoreErrors then .ok inherited else .error (.security fault)
  match SecurityDemand.ofRequirements requirements with
  | .inherit => .ok inherited
  | .unsupported fault => refuse fault
  | .scheme name required => do
    let scheme ← doc.securityScheme name
    let type := (scheme.string? "type").getD ""
    if type = openIdType then return some (← openIdPlugin doc scheme required)
    else refuse (.schemeType name type)

end ApiGateway
