import ApiGateway.Entity.Stamp
import ApiGateway.Naming.Basic
import ApiGateway.Server.Uri

/-!
# Options of a compilation

The settings of one run, with the conventions that a compilation follows but does not make: how
names are romanized, which identifier a name has in a namespace, and how addresses are read.

## Main definitions

* `Conventions`: the three of them, with the usual ones as defaults.
* `Options`: the settings with their defaults.
* `Options.naming`, `Options.stamp`: the parts that name and stamp entities.
-/
namespace ApiGateway

/-- What a compilation takes from elsewhere: the romanization of letters, the identifier of a name
in a namespace, and the reader of addresses. -/
structure Conventions where
  romanize : Char → List Char := Romanization.spell
  nameId : Uuid → String → Uuid := Uuid.named
  readUri : String → Except UriError Uri := Uri.parse

/-- The settings of a compilation. Without tags those of the document are used, without a
document name the document names itself. -/
structure Options extends Conventions where
  tags : Option (List String) := none
  documentName : Option String := none
  space : Uuid := Uuid.dns
  flatNames : Bool := false
  skipId : Bool := false
  openId : Bool := false
  ignoreSecurityErrors : Bool := false
  ignoreCircularReferences : Bool := false

namespace Options

/-- How scopes are named. -/
def naming (options : Options) : Naming := ⟨options.flatNames, options.romanize⟩

/-- What is stamped on entities when the run has the given tags. -/
def stamp (options : Options) (tags : List String) : Stamp :=
  ⟨tags, options.space, options.skipId, options.nameId⟩

end Options

end ApiGateway
