import ApiGateway.Document.Basic
import ApiGateway.Yaml.Read

/-!
# Documents as text

## Main definitions

* `Document.read`: the document that a YAML or JSON text describes.
-/
namespace ApiGateway

namespace Document

/-- The document that a text describes. A JSON text is read like any other YAML text. -/
def read (text : String) : Except Error Document :=
  match Yaml.read? text with
  | some value => ofJson value
  | none => .error .unreadable

end Document

end ApiGateway
