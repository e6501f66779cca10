import ApiGateway.Number.Numeral
import ApiGateway.Json.Basic
import ApiGateway.Text

/-!
# JSON pointers

References inside a document are pointers from its root: segments separated by slashes, with
`~1` for a slash and `~0` for a tilde inside a segment. A segment names a member of an object
or counts into a list.

## Main definitions

* `Pointer.escape`, `Pointer.unescape`: the written form of a segment and back.
* `Pointer.segments?`: the segments of a local reference.
* `Pointer.descend?`: the value at the end of a list of segments.
-/
namespace ApiGateway.Pointer

/-- Every `~` becomes `~0`. -/
def escapeTilde : List Char → List Char
  | [] => []
  | c :: rest => if c = '~' then '~' :: '0' :: escapeTilde rest else c :: escapeTilde rest

/-- Every `/` becomes `~1`. -/
def escapeSlash : List Char → List Char
  | [] => []
  | c :: rest => if c = '/' then '~' :: '1' :: escapeSlash rest else c :: escapeSlash rest

/-- Every `~1` becomes `/`. -/
def unescapeSlash : List Char → List Char
  | '~' :: '1' :: rest => '/' :: unescapeSlash rest
  | c :: rest => c :: unescapeSlash rest
  | [] => []

/-- Every `~0` becomes `~`. -/
def unescapeTilde : List Char → List Char
  | '~' :: '0' :: rest => '~' :: unescapeTilde rest
  | c :: rest => c :: unescapeTilde rest
  | [] => []

/-- The written form of a segment: tildes first, then slashes. -/
def escape (segment : String) : String :=
  String.ofList (escapeSlash (escapeTilde segment.toList))

/-- The segment that a written form stands for: slashes first, then tildes. -/
def unescape (written : List Char) : String :=
  String.ofList (unescapeTilde (unescapeSlash written))

/-- The segments of a pointer without its leading slash. -/
def segments (pointer : List Char) : List String := (pointer.splitOn '/').map unescape

/-- The segments of a local reference; any other reference has none. -/
def segments? (reference : String) : Option (List String) :=
  (Text.after? "#/".toList reference.toList).map segments

/-- The index a segment counts to: decimal digits, a plus sign allowed, within 64 bits. -/
def index? (segment : String) : Option Nat :=
  let digits := (Text.after? ['+'] segment.toList).getD segment.toList
  if digits ≠ [] ∧ digits.all Char.isDigit then
    let n := Numeral.ofDigits digits
    if n < Nat.pow 2 64 then some n else none
  else none

/-- One step down: into a list by index, into an object by key. -/
def step? (value : Json) (segment : String) : Option Json :=
  match value with
  | .arr items => (index? segment).bind fun i => items[i]?
  | other => other.get? segment

/-- The value at the end of the segments. -/
def descend? (value : Json) (segments : List String) : Option Json :=
  segments.foldlM step? value

/-- Slashes are put back where they were taken out, and nowhere else. -/
theorem unescapeSlash_escapeSlash_escapeTilde (s : List Char) :
    unescapeSlash (escapeSlash (escapeTilde s)) = escapeTilde s := by
  induction s with
  | nil => rfl
  | cons c rest ih =>
    by_cases ht : c = '~'
    · subst ht; simp [escapeTilde, escapeSlash, unescapeSlash, ih]
    · by_cases hs : c = '/'
      · subst hs; simp [escapeTilde, escapeSlash, unescapeSlash, ih]
      · simp only [escapeTilde, escapeSlash, ht, hs, if_false]
        rw [unescapeSlash, ih]
        intro r h _
        exact absurd h ht

/-- Tildes are put back where they were taken out. -/
theorem unescapeTilde_escapeTilde (s : List Char) : unescapeTilde (escapeTilde s) = s := by
  induction s with
  | nil => rfl
  | cons c rest ih =>
    by_cases ht : c = '~'
    · subst ht; simp [escapeTilde, unescapeTilde, ih]
    · simp only [escapeTilde, ht, if_false]
      rw [unescapeTilde, ih]
      intro r h _
      exact absurd h ht

/-- A segment is what its written form stands for. -/
@[simp] theorem unescape_escape (segment : String) :
    unescape (escape segment).toList = segment := by
  simp [unescape, escape, unescapeSlash_escapeSlash_escapeTilde, unescapeTilde_escapeTilde]

end ApiGateway.Pointer
