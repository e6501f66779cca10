import ApiGateway.Json.Basic
import ApiGateway.Number.Numeral
import ApiGateway.Yaml.Tag

/-!
# The values of scalars

A scalar becomes a value by its text and its tag. A plain scalar without a tag is null, a truth
value or a number if its text is written like one, and a string otherwise; a quoted one is a
string. A tag of the core schema asks for a type, and a text that does not fit is refused.

## Main definitions

* `integer?`: integers in four bases.
* `float?`: numbers with a point or a power of ten, infinities and the undefined number.
* `plainValue?`: the value of a plain scalar.
* `scalarValue?`: the value of a scalar of any style, with its tag.
-/
namespace ApiGateway.Yaml

/-- Whether a text is null. -/
def isNull (text : String) : Bool := text ∈ ["null", "Null", "NULL", "~"]

/-- The truth value of a text. -/
def bool? (text : String) : Option Bool :=
  if text ∈ ["true", "True", "TRUE"] then some true
  else if text ∈ ["false", "False", "FALSE"] then some false
  else none

/-- The natural number that digits of a base stand for. There has to be a digit. -/
def ofDigits? (base : Nat) (digits : List Char) : Option Nat :=
  if digits = [] then none
  else digits.foldlM (fun n c => do
    let digit ← Hexadecimal.digitValue? c
    if digit < base then some (base * n + digit) else none) 0

/-- Whether a text has superfluous zeros in front, which makes it no number. -/
def hasLeadingZero (text : List Char) : Bool :=
  match (Numeral.splitSign text).2 with
  | '0' :: c :: rest => (c :: rest).all Char.isDigit
  | _ => false

/-- The natural number of a text without a sign. -/
def magnitude? : List Char → Option Nat
  | '0' :: 'x' :: digits => ofDigits? 16 digits
  | '0' :: 'o' :: digits => ofDigits? 8 digits
  | '0' :: 'b' :: digits => ofDigits? 2 digits
  | digits => ofDigits? 10 digits

/-- The integer of a text, of at most 128 bits. -/
def integer? (text : List Char) : Option Int :=
  if hasLeadingZero text then none
  else
    match Numeral.splitSign text with
    | (some '-', rest) => do
      let n ← magnitude? rest
      if n ≤ Nat.pow 2 127 then some (-(n : Int)) else none
    | (_, rest) => do
      let n ← magnitude? rest
      if n < Nat.pow 2 128 then some (n : Int) else none

/-- The value of an integer, if it has one: no more than 64 bits. -/
def integerValue? (n : Int) : Option Json :=
  if -Json.signedLimit ≤ n ∧ n < 2 * Json.signedLimit then some (.int n) else none

/-- The value of a text that is a floating-point number. An infinity and the undefined number
are null. -/
def float? (text : List Char) : Option Json :=
  let unsigned := match Numeral.splitSign text with
    | (some _, rest) => rest
    | _ => text
  if String.ofList unsigned ∈ [".inf", ".Inf", ".INF"] then some .null
  else if String.ofList text ∈ [".nan", ".NaN", ".NAN"] then some .null
  else ((Numeral.read? text).bind Numeral.toBinary64?).map .float

/-- The value of a plain scalar. An integer of more than 64 and at most 128 bits is refused. -/
def plainValue? (text : String) : Option Json :=
  let chars := text.toList
  if text = "" ∨ isNull text then some .null
  else
    match bool? text, integer? chars with
    | some truth, _ => some (.bool truth)
    | none, some n => integerValue? n
    | none, none =>
      if hasLeadingZero chars then some (.str text) else some ((float? chars).getD (.str text))

/-- The value of a scalar: by its tag if that asks for a type, else by its style. -/
def scalarValue? (tag : Option Tag) (plain : Bool) (text : String) : Option Json :=
  let byStyle : Option Json := if plain then plainValue? text else some (.str text)
  match tag with
  | none => byStyle
  | some tag =>
    if tag = Tag.core "bool" then (bool? text).map .bool
    else if tag = Tag.core "int" then (integer? text.toList).bind integerValue?
    else if tag = Tag.core "float" then float? text.toList
    else if tag = Tag.core "null" then if isNull text then some .null else none
    else if tag.isPrivate then if tag.isText then none else byStyle
    else some (.str text)

end ApiGateway.Yaml
