import ApiGateway.Naming.Romanization

/-!
# Names

Scopes are named by slugs: runs of lower-case ASCII letters and digits joined by hyphens. The
base name of a scope is the list of slugs from the document down to it, joined by a
separator. Path parameters get capture names for the regular expression of their route.

## Main definitions

* `Naming`: the two naming styles and the romanization in use.
* `Naming.SlugScan.push`: one character of a text taken into a slug.
* `Naming.slug`: the slug of a text.
* `Naming.slugify`, `Naming.extend`: base names from scratch and from a parent's.
* `Naming.capture`: the capture name of a path parameter.
-/
namespace ApiGateway

/-- How names are made. In the flat style one separator is used everywhere and parameter
names keep their case. -/
structure Naming where
  flat : Bool
  romanize : Char → List Char := Romanization.spell

namespace Naming

/-- The longest capture name a route may use. -/
def maxCaptureLength : Nat := 32

/-- The separator between the slugs of a base name. -/
def separator (naming : Naming) : Char := if naming.flat then '-' else '_'

/-- A slug that is being written: its characters in reverse, and whether anything has been left out
since the last of them. -/
structure SlugScan where
  reversed : List Char := []
  gap : Bool := false

/-- Takes a character into a slug. Letters and digits are written in lower case, behind a hyphen
where others between them have been left out. -/
def SlugScan.push (scan : SlugScan) (c : Char) : SlugScan :=
  if c.isAlphanum then
    let front := if scan.gap && !scan.reversed.isEmpty then '-' :: scan.reversed else scan.reversed
    ⟨c.toLower :: front, false⟩
  else { scan with gap := true }

/-- The slug of a text: the letters and digits of its romanized form in lower case, with a hyphen
for whatever stands between them. -/
def slugChars (naming : Naming) (cs : List Char) : List Char :=
  ((cs.flatMap naming.romanize).foldl SlugScan.push {}).reversed.reverse

/-- The slug of a text. It is empty when the text has no letter or digit. -/
def slug (naming : Naming) (part : String) : String :=
  String.ofList (naming.slugChars part.toList)

/-- The slugs of the parts that have one, joined by the separator. -/
def slugify (naming : Naming) (parts : List String) : String :=
  let slugs := (parts.map fun part => naming.slugChars part.toList).filter (· ≠ [])
  String.ofList (List.intercalate [naming.separator] slugs)

/-- The base name of a child scope. A child without a slug keeps its parent's name. -/
def extend (naming : Naming) (parent child : String) : String :=
  let own := naming.slug child
  if own = "" then parent
  else if parent = "" then own
  else parent ++ String.singleton naming.separator ++ own

/-- Whether a capture name may start with the character. -/
def startsCapture (c : Char) : Bool := c.isAlpha || c == '_'

/-- The capture name of a parameter. The flat style replaces every other character by an
underscore, the nested one joins the words of the slug by underscores; a name that would
start with anything but a letter gets an underscore in front. -/
def capture (naming : Naming) (name : String) : String :=
  let body :=
    if naming.flat then name.toList.map fun c => if c.isAlphanum then c else '_'
    else (naming.slugChars name.toList).map fun c => if c = '-' then '_' else c
  match body with
  | c :: rest => String.ofList (if startsCapture c then c :: rest else '_' :: c :: rest)
  | [] => "_"

/-- A base name extended by a scope without a slug stays as it is. -/
theorem extend_of_slug_eq_empty {naming : Naming} {child : String} (h : naming.slug child = "")
    (parent : String) : naming.extend parent child = parent := by
  simp [extend, h]

end Naming

end ApiGateway
