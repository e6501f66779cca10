import ApiGateway.Document.Operation
import ApiGateway.Entity.Plugin
import ApiGateway.Naming.Basic
import ApiGateway.Validation.Schema

/-!
# Request validators

An operation validates its requests when a scope around it declares a validator. The declared
plugin is a template: the schemas of parameters and body that it leaves out are made from the
operation.

## Main definitions

* `parameterEntry`: the entry of a parameter in a validator.
* `RequestBody.jsonSchema?`: the schema of the first JSON media type.
* `requestValidator`: the validator of an operation.
-/
namespace ApiGateway

/-- The schema draft that validators are marked with. -/
def schemaDraft : String := "draft4"

/-- Whether a media type, without its parameters and in any case, is one of JSON. -/
def isJsonMediaType (mediaType : String) : Bool :=
  let essence := (Text.trim (mediaType.toList.takeWhile (· ≠ ';'))).map Char.toLower
  essence = "application/json".toList || "+json".toList.isSuffixOf essence

/-- The schema of the first JSON media type of a body, if that one has a schema. -/
def RequestBody.jsonSchema? (body : RequestBody) : Option Json :=
  (body.content.find? fun (mediaType, _) => isJsonMediaType mediaType).bind (·.2)

/-- The name of a parameter in a validator: in a path it is the capture name. -/
def Parameter.validatedName (naming : Naming) (p : Parameter) : String :=
  if p.location = "path" then naming.capture p.name else p.name

/-- The style of a parameter that declares none. -/
def Parameter.defaultStyle (p : Parameter) : String :=
  if p.location = "path" ∨ p.location = "header" then "simple" else "form"

/-- The entry of a parameter in a validator. -/
def parameterEntry (doc : Document) (naming : Naming) (p : Parameter) : Except Error Json := do
  let schema ← doc.extractSchema p.schema
  return .obj (Members.ofList
    [("in", .str p.location), ("name", .str (p.validatedName naming)),
     ("required", .bool p.required), ("style", .str (p.style.getD p.defaultStyle)),
     ("explode", .bool (p.explode.getD false)), ("schema", .str schema)])

/-- Adds the schemas of the parameters unless the template has its own, or there are none. -/
def addParameterSchema (doc : Document) (naming : Naming) (parameters : List Parameter)
    (config : Members) : Except Error Members := do
  if config.has "parameter_schema" then return config
  let entries ← parameters.mapM (parameterEntry doc naming)
  return if entries = [] then config else config.insert "parameter_schema" (.arr entries)

/-- Adds the schema of the body unless the template has its own, or there is none. -/
def addBodySchema (doc : Document) (body : Option RequestBody) (config : Members) :
    Except Error Members := do
  if config.has "body_schema" then return config
  match body.bind RequestBody.jsonSchema? with
  | none => return config
  | some schema =>
    let text ← doc.extractSchema (some schema)
    return if text = "" then config else config.insert "body_schema" (.str text)

/-- Adds the media types of the body unless the template has its own, or there are none. -/
def addContentTypes (body : Option RequestBody) (config : Members) : Members :=
  if config.has "allowed_content_types" then config
  else
    match body with
    | some ⟨m :: rest⟩ =>
      config.insert "allowed_content_types" (.ofStrings ((m :: rest).map (·.1)))
    | _ => config

/-- Settings without any schema check the media types alone, for which they need an empty body
schema; without media types there is nothing to check. -/
def activate? (config : Members) : Option Members :=
  if config.has "parameter_schema" || config.has "body_schema" then some config
  else if config.has "allowed_content_types" then
    some (config.insert "body_schema" (.str "\x7b\x7d"))
  else none

/-- The validator of an operation under a base name, made from the template in effect. Without
a template, or with nothing to validate, there is none. -/
def requestValidator (doc : Document) (naming : Naming) (stamp : Stamp) (base : String)
    (parameters : List Parameter) (body : Option RequestBody) (template : Option Members) :
    Except Error (Option Members) := do
  match template with
  | none => return none
  | some template =>
    let plugin :=
      Plugin.restamp stamp base (template.insert "name" (.str Plugin.validatorName))
    let settings := (plugin.object? "config").getD []
    let settings ← addParameterSchema doc naming parameters settings
    let settings ← addBodySchema doc body settings
    return (activate? settings).map fun settings =>
      let marked := settings.insert "version" (.str schemaDraft)
      plugin.insert "config" (.obj (addContentTypes body marked))

end ApiGateway
