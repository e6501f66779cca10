import ApiGateway.Number.Numeral
import ApiGateway.Server.Uri

/-!
# Errors

Everything that can stop a compilation, as causes with the data they are about. Each cause has
a code and a wording; the groups follow what is at fault: the document, its references, an
extension, a server, a path or a security requirement.

## Main definitions

* `Error`: the causes.
* `Error.code`: the number of the group of a cause.
* `Error.message`: the full text, which starts with the code.
-/
namespace ApiGateway

/-- What is wrong with the structure of a document. -/
inductive StructureFault where
  | unsupportedVersion (version : String)
  | pathsNotObject
  | pathsMissing
  | pathItemNotObject (path : String)
  | operationNotObject (method path : String)
  | securitySchemeNotObject (name : String)
  deriving DecidableEq, Inhabited

/-- What is wrong with an extension. -/
inductive ExtensionFault where
  | notObject
  | missingPluginName
  | configNotObject
  deriving DecidableEq, Inhabited

/-- What is wrong with a reference inside an extension. -/
inductive ExtensionReferenceFault where
  | notString
  | outsideNamespace
  | notFound
  | notObject (pointer : String)
  deriving DecidableEq, Inhabited

/-- What is wrong with a security requirement. -/
inductive SecurityFault where
  | notList
  | severalRequirements (count : Nat)
  | requirementNotObject
  | severalSchemes (count : Nat)
  | schemeType (scheme type : String)
  deriving DecidableEq, Inhabited

/-- What is wrong with a path template. -/
inductive TemplateFault where
  | unclosed (template : String)
  | invalidParameter (template : String)
  deriving DecidableEq, Inhabited

/-- Why a compilation fails. -/
inductive Error where
  | notApiDocument
  | unreadable
  | rootNotObject
  | unresolved (reference : String)
  | structural (fault : StructureFault)
  | circular (reference : String)
  | chainTooLong (hops : Nat)
  | extension (key : String) (fault : ExtensionFault)
  | extensionReference (reference : String) (fault : ExtensionReferenceFault)
  | serverWithoutUrl (server : String)
  | serverUrl (url : String) (fault : UriError)
  | template (fault : TemplateFault)
  | captureTooLong (name path capture : String) (limit : Nat)
  | security (fault : SecurityFault)
  | nameNotString (key : String)
  | tagsNotStrings (key : String)
  deriving DecidableEq, Inhabited

/-- The wording of a structural fault. -/
def StructureFault.message : StructureFault → String
  | .unsupportedVersion version =>
    "unsupported OpenAPI version: " ++ version ++ " (only 3.x supported)"
  | .pathsNotObject => "'paths' must be an object"
  | .pathsMissing => "missing '.paths' object"
  | .pathItemNotObject path => "path item for '" ++ path ++ "' must be an object"
  | .operationNotObject method path => "operation " ++ method ++ " " ++ path ++ " must be an object"
  | .securitySchemeNotObject name => "security scheme '" ++ name ++ "' must be an object"

/-- The wording of a fault of an extension. -/
def ExtensionFault.message : ExtensionFault → String
  | .notObject => "expected a JSON object"
  | .missingPluginName => "missing plugin name"
  | .configNotObject => "expected 'config' to be a JSON object"

/-- The wording of a fault of a reference inside an extension. -/
def ExtensionReferenceFault.message : ExtensionReferenceFault → String
  | .notString => "expected '$ref' pointer to be a string"
  | .outsideNamespace => "all 'x-kong-...' references must be at '#/components/x-kong/...'"
  | .notFound => "reference not found"
  | .notObject pointer => "expected '" ++ pointer ++ "' to be a JSON object"

/-- The wording of a fault of a security requirement. -/
def SecurityFault.message : SecurityFault → String
  | .notList => "'security' must be an array"
  | .severalRequirements count =>
    "only a single security requirement is supported, found " ++ toString count
  | .requirementNotObject => "security requirement must be an object"
  | .severalSchemes count =>
    "a security requirement may name only one scheme, found " ++ toString count
  | .schemeType scheme type =>
    "security scheme '" ++ scheme ++ "' has type '" ++ type ++
      "', only 'openIdConnect' is supported"

/-- The wording of a fault of a path template. -/
def TemplateFault.message : TemplateFault → String
  | .unclosed template => "unclosed '\x7b' in '" ++ template ++ "'"
  | .invalidParameter template => "invalid parameter segment in '" ++ template ++ "'"

namespace Error

/-- The number of the group of a cause. -/
def code : Error → String
  | .notApiDocument => "E1001"
  | .unreadable | .rootNotObject => "E1002"
  | .unresolved _ => "E1003"
  | .structural _ => "E1004"
  | .circular _ | .chainTooLong _ => "E1005"
  | .extension _ _ => "E2001"
  | .extensionReference _ _ => "E2002"
  | .serverWithoutUrl _ | .serverUrl _ _ => "E2003"
  | .template _ => "E2004"
  | .captureTooLong _ _ _ _ => "E2005"
  | .security _ => "E2006"
  | .nameNotString _ | .tagsNotStrings _ => "E2007"

/-- What follows the code in the wording. -/
def detail : Error → String
  | .notApiDocument => "not an OpenAPI document (missing 'openapi' version field)"
  | .unreadable => "parse error: the text is not a YAML document"
  | .rootNotObject => "parse error: document root must be an object"
  | .unresolved reference => "unresolved $ref: " ++ reference
  | .structural fault => "schema validation error: " ++ fault.message
  | .circular reference => "circular $ref detected: " ++ reference
  | .chainTooLong hops =>
    "circular $ref detected: reference chain longer than " ++ toString hops ++ " hops"
  | .extension key fault => "invalid extension '" ++ key ++ "': " ++ fault.message
  | .extensionReference reference fault =>
    "invalid x-kong reference '" ++ reference ++ "': " ++ fault.message
  | .serverWithoutUrl server =>
    "failed to parse server url '" ++ server ++ "': server entry has no 'url' string"
  | .serverUrl url fault => "failed to parse server url '" ++ url ++ "': " ++ fault.message
  | .template fault => "invalid path template: " ++ fault.message
  | .captureTooLong name path capture limit =>
    "path parameter '" ++ name ++ "' in '" ++ path ++ "' yields capture name '" ++ capture ++
      "' longer than " ++ toString limit ++ " characters"
  | .security fault => "unsupported security configuration: " ++ fault.message
  | .nameNotString key => "invalid " ++ key ++ ": expected a string"
  | .tagsNotStrings key => "invalid " ++ key ++ ": expected an array of strings"

/-- The full wording of a cause. -/
def message (e : Error) : String := e.code ++ ": " ++ e.detail

end Error

end ApiGateway
