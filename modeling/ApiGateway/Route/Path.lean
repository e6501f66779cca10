import ApiGateway.Document.Operation
import ApiGateway.Naming.Basic

/-!
# Route paths

A path template becomes a regular expression: literal text with its special characters
escaped, and a named group for each parameter in braces. A group matches no slash, question
mark or number sign; it may be empty when the schema of its parameter allows that.

## Main definitions

* `Template.Piece`: literal text, a parameter, or the fault that ends a template.
* `Template.pieces`: the pieces of a template.
* `RoutePath`: a regular expression with the priority of its route.
* `routePath`: the route path of a template.
-/
namespace ApiGateway

namespace Template

/-- A piece of a path template. -/
inductive Piece where
  | literal (text : List Char)
  | parameter (name : List Char)
  | unclosed
  | invalid
  deriving DecidableEq

/-- The pieces of a template from left to right: literal text and parameters in turn, up to the
end or the first fault. -/
def pieces (text : List Char) : List Piece :=
  let literal := text.takeWhile (· ≠ '\x7b')
  match _h : text.dropWhile (· ≠ '\x7b') with
  | [] => [.literal literal]
  | _ :: inside =>
    let name := inside.takeWhile (· ≠ '\x7d')
    match _h' : inside.dropWhile (· ≠ '\x7d') with
    | [] => [.literal literal, .unclosed]
    | _ :: rest =>
      if name = [] ∨ '\x7b' ∈ name then [.literal literal, .invalid]
      else .literal literal :: .parameter name :: pieces rest
termination_by text.length
decreasing_by
  have h₁ := (List.dropWhile_suffix (· ≠ '\x7b') (l := text)).length_le
  have h₂ := (List.dropWhile_suffix (· ≠ '\x7d') (l := inside)).length_le
  simp_all
  omega

/-- The characters that have a meaning in regular expressions and are escaped. -/
def specials : List Char := ['(', ')', '+', '.', '?', '*', '[', '$']

/-- Literal text as a regular expression. -/
def escape (text : List Char) : List Char :=
  text.flatMap fun c => if c ∈ specials then ['\\', c] else [c]

/-- The group of a parameter with its capture name. -/
def group (capture : String) (mayBeEmpty : Bool) : List Char :=
  "(?<".toList ++ capture.toList ++ ">[^#?/]".toList ++ [if mayBeEmpty then '*' else '+', ')']

end Template

/-- A regular expression, anchored at its end, with the priority of its route. -/
structure RoutePath where
  regex : String
  priority : Int
  deriving DecidableEq, Inhabited

/-- The priority of routes without parameters. -/
def literalPriority : Int := 200

/-- The priority of routes with parameters. -/
def parameterPriority : Int := 100

/-- The priority of a route: one below the default with parameters, but not below the least
number of 64 bits. -/
def priorityOf (default : Option Int) (hasParameters : Bool) : Int :=
  match default with
  | some priority => if hasParameters then max (-Json.signedLimit) (priority - 1) else priority
  | none => if hasParameters then parameterPriority else literalPriority

/-- Whether a path parameter may be empty: its schema has a least length of zero. -/
def mayBeEmpty (doc : Document) (parameters : List Parameter) (name : String) :
    Except Error Bool :=
  match (parameters.find? fun p => p.location == "path" && p.name == name).bind (·.schema) with
  | none => .ok false
  | some schema => do
    let schema ← doc.resolve schema
    return (schema.get? "minLength").bind Json.asNat? == some 0

/-- The regular expression of a piece of a template. -/
def pieceRegex (doc : Document) (naming : Naming) (parameters : List Parameter)
    (template : String) : Template.Piece → Except Error (List Char)
  | .literal text => .ok (Template.escape text)
  | .unclosed => .error (.template (.unclosed template))
  | .invalid => .error (.template (.invalidParameter template))
  | .parameter name => do
    let name := String.ofList name
    let capture := naming.capture name
    if Naming.maxCaptureLength < capture.length then
      .error (.captureTooLong name template capture Naming.maxCaptureLength)
    return Template.group capture (← mayBeEmpty doc parameters name)

/-- The route path of a template. The first fault from the left decides the error. -/
def routePath (doc : Document) (naming : Naming) (parameters : List Parameter)
    (default : Option Int) (template : String) : Except Error RoutePath := do
  let pieces := Template.pieces template.toList
  let parts ← pieces.mapM (pieceRegex doc naming parameters template)
  let hasParameters := pieces.any fun piece => piece matches .parameter _
  return ⟨String.ofList ('~' :: parts.flatten ++ ['$']), priorityOf default hasParameters⟩

end ApiGateway
