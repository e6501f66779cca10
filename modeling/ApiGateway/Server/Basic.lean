import ApiGateway.Error
import ApiGateway.Json.Print

/-!
# Server targets

The `servers` entries of a scope as targets with scheme, host, port and path. Variables of an
address take their defaults, and what the address leaves out is filled in by convention.

## Main definitions

* `Target`: a resolved server address.
* `Target.substitute`: the variables of an address replaced by their defaults.
* `Target.parseAll`: the targets of a list of servers.
* `Target.withDefaults`: host, scheme and port filled in.
-/
namespace ApiGateway

/-- A server address. The path is never empty. -/
structure Target where
  scheme : Option String
  host : Option String
  port : Option Nat
  path : String
  deriving DecidableEq, Inhabited

namespace Target

/-- The target of a scope without servers. -/
def root : Target := ⟨none, none, none, "/"⟩

/-- The host name without port. -/
def hostname (t : Target) : String := t.host.getD "localhost"

/-- Host and port, or the host alone when there is no port. -/
def authority (t : Target) : String :=
  match t.port with
  | some port => t.hostname ++ ":" ++ toString port
  | none => t.hostname

/-- The defaults that the variables of a server declare, in the order of their names. -/
def variableDefaults (server : Json) : List (String × String) :=
  match server.get? "variables" with
  | some (.obj entries) =>
    entries.filterMap fun (name, declared) =>
      (declared.get? "default").map fun value => (name, value.plainText)
  | _ => []

/-- A variable as it stands in an address. -/
def placeholder (name : String) : List Char := '\x7b' :: name.toList ++ ['\x7d']

/-- Replaces the placeholders of an address, one variable after the other. -/
def substitute (defaults : List (String × String)) (address : String) : String :=
  defaults.foldl (fun url (name, value) =>
    String.ofList (Text.replaceAll (placeholder name) value.toList url.toList)) address

/-- The target of a server entry, whose address is read as a URI. -/
def parse (server : Json) (readUri : String → Except UriError Uri := Uri.parse) :
    Except Error Target :=
  match (server.get? "url").bind Json.asString? with
  | none => .error (.serverWithoutUrl server.compact)
  | some address =>
    let url := substitute (variableDefaults server) address
    match readUri url with
    | .error fault => .error (.serverUrl url fault)
    | .ok uri => .ok ⟨uri.scheme, uri.host, uri.port, if uri.path = "" then "/" else uri.path⟩

/-- The targets of a list of servers; an empty list has the root target. -/
def parseAll (servers : List Json) (readUri : String → Except UriError Uri := Uri.parse) :
    Except Error (List Target) :=
  match servers with
  | [] => .ok [root]
  | _ => servers.mapM (parse · readUri)

/-- The scheme of a well-known port. -/
def schemeOfPort? (port : Option Nat) : Option String :=
  if port = some 80 then some "http"
  else if port = some 443 then some "https"
  else none

/-- The port of a well-known scheme. -/
def portOfScheme? (scheme : String) : Option Nat :=
  if scheme = "http" then some 80
  else if scheme = "https" then some 443
  else none

/-- Fills in what is missing: the local host, the scheme of a well-known port or else the
fallback, and the port of a well-known scheme. -/
def withDefaults (fallback : String) (t : Target) : Target :=
  let scheme := t.scheme.getD ((schemeOfPort? t.port).getD fallback)
  { t with
    host := some t.hostname
    scheme := some scheme
    port := t.port <|> portOfScheme? scheme }

/-- Filling in leaves the path alone. -/
@[simp] theorem path_withDefaults (fallback : String) (t : Target) :
    (t.withDefaults fallback).path = t.path := rfl

end Target

end ApiGateway
