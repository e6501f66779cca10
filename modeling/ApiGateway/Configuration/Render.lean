import ApiGateway.Configuration.Basic
import ApiGateway.Json.Print
import ApiGateway.Yaml.Print

/-!
# Written configurations

## Main definitions

* `Format`: the two formats of output.
* `Configuration.render`: a configuration as a text.
-/
namespace ApiGateway

/-- The formats in which a configuration can be written. -/
inductive Format where
  | yaml
  | json
  deriving DecidableEq, Inhabited, Repr

/-- The format of a name. -/
def Format.ofName? (name : String) : Option Format :=
  if name = "yaml" then some .yaml else if name = "json" then some .json else none

/-- A configuration as a text that ends with a line break. -/
def Configuration.render (format : Format) (c : Configuration) : String :=
  match format with
  | .yaml => Yaml.print c.fields
  | .json => (Json.obj c.fields).pretty ++ "\n"

end ApiGateway
