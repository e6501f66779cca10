import ApiGateway.Document.Operation
import ApiGateway.Entity.Stamp
import ApiGateway.Json.Print
import ApiGateway.Naming.Basic

/-!
# Routes by header

A header parameter with listed values splits a route: one route for each combination of
values, numbered from one, the value of the last header changing fastest.

## Main definitions

* `headerChoices`: the headers with listed values, in the order of their names.
* `combinations`: all ways to take one value from each list.
* `expandHeaders`: the routes of all combinations.
-/
namespace ApiGateway

/-- The values that a header parameter lists, if its schema lists any. -/
def headerValues (doc : Document) (p : Parameter) : Except Error (Option (String × List String)) :=
  match p.schema with
  | none => .ok none
  | some schema => do
    match (← doc.resolve schema).get? "enum" with
    | some (.arr (v :: rest)) => return some (p.name, (v :: rest).map Json.plainText)
    | _ => return none

/-- The headers with listed values in the order of their names; headers of one name keep their
order. -/
def headerChoices (doc : Document) (parameters : List Parameter) :
    Except Error (List (String × List String)) := do
  let found ← (parameters.filter fun p => p.location == "header").mapM (headerValues doc)
  return (found.filterMap id).mergeSort fun p q => !decide (q.1 < p.1)

/-- All ways to take one value from each list, the last list changing fastest. -/
def combinations {α : Type} : List (List α) → List (List α)
  | [] => [[]]
  | values :: rest => values.flatMap fun v => (combinations rest).map (v :: ·)

/-- The headers of a route: each name with its single value, the last of one name. -/
def headerMembers (headers : List (String × String)) : Members :=
  Members.ofList (headers.map fun (name, value) => (name, .ofStrings [value]))

/-- The route of the combination with a number, under a name and identifier of its own. -/
def numberedRoute (naming : Naming) (stamp : Stamp) (base : String) (route : Members)
    (number : Nat) (headers : List (String × String)) : Members :=
  let name := base ++ String.singleton naming.separator ++ toString number
  ((stamp.apply route name "route").insert "name" (.str name)).insert "headers"
    (.obj (headerMembers headers))

/-- The routes of all combinations of header values; without any the route itself. -/
def expandHeaders (doc : Document) (naming : Naming) (stamp : Stamp) (base : String)
    (parameters : List Parameter) (route : Members) : Except Error (List Members) := do
  match ← headerChoices doc parameters with
  | [] => return [route]
  | choices =>
    let names := choices.map (·.1)
    return (combinations (choices.map (·.2))).mapIdx fun i values =>
      numberedRoute naming stamp base route (i + 1) (names.zip values)

end ApiGateway
