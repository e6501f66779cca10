import ApiGateway.Json.Basic
import ApiGateway.Number.Hexadecimal
import ApiGateway.Number.Numeral

/-!
# Written JSON

Two written forms of a value: `Json.compact` without any blanks, which is also the text a
value has inside messages and string fields, and `Json.pretty` with one item a line. Strings
keep every character except quotes, backslashes and control characters.

## Main definitions

* `Json.quote`: a string in quotes.
* `Json.compact`: the form without blanks.
* `Json.pretty`: the form with two blanks of indentation a level.
-/
namespace ApiGateway

namespace Json

/-- How one character is written between quotes. -/
def escape (c : Char) : List Char :=
  if c = '\x22' then ['\\', '\x22']
  else if c = '\\' then ['\\', '\\']
  else if c = '\x08' then ['\\', 'b']
  else if c = '\x0c' then ['\\', 'f']
  else if c = '\n' then ['\\', 'n']
  else if c = '\r' then ['\\', 'r']
  else if c = '\t' then ['\\', 't']
  else if c.toNat < 0x20 then
    '\\' :: 'u' :: Hexadecimal.digits 4 c.toNat
  else [c]

/-- A string in quotes. -/
def quote (text : String) : String :=
  String.ofList ('\x22' :: (text.toList.flatMap escape ++ ['\x22']))

mutual

/-- The written form without blanks. -/
def compact : Json → String
  | .null => "null"
  | .bool true => "true"
  | .bool false => "false"
  | .int n => integerText n
  | .float x => x.text
  | .str text => quote text
  | .arr items => "[" ++ compactItems items ++ "]"
  | .obj members => "\x7b" ++ compactMembers members ++ "\x7d"

/-- The items of a list, separated by commas. -/
def compactItems : List Json → String
  | [] => ""
  | item :: rest => compact item ++ compactMoreItems rest

/-- Further items, each after a comma. -/
def compactMoreItems : List Json → String
  | [] => ""
  | item :: rest => "," ++ compact item ++ compactMoreItems rest

/-- The members of an object, separated by commas. -/
def compactMembers : List (String × Json) → String
  | [] => ""
  | (key, value) :: rest => quote key ++ ":" ++ compact value ++ compactMoreMembers rest

/-- Further members, each after a comma. -/
def compactMoreMembers : List (String × Json) → String
  | [] => ""
  | (key, value) :: rest => "," ++ quote key ++ ":" ++ compact value ++ compactMoreMembers rest

end

/-- A new line with the indentation of a nesting level. -/
def indentation (level : Nat) : String := "\n" ++ String.ofList (List.replicate (2 * level) ' ')

mutual

/-- The written form of a value at a nesting level, one item a line. -/
def prettyAt (level : Nat) : Json → String
  | .arr [] => "[]"
  | .arr (item :: rest) =>
    "[" ++ indentation (level + 1) ++ prettyAt (level + 1) item ++
      prettyMoreItems (level + 1) rest ++ indentation level ++ "]"
  | .obj [] => "\x7b\x7d"
  | .obj ((key, value) :: rest) =>
    "\x7b" ++ indentation (level + 1) ++ quote key ++ ": " ++ prettyAt (level + 1) value ++
      prettyMoreMembers (level + 1) rest ++ indentation level ++ "\x7d"
  | .null => "null"
  | .bool true => "true"
  | .bool false => "false"
  | .int n => integerText n
  | .float x => x.text
  | .str text => quote text

/-- Further items, each on a line of its own. -/
def prettyMoreItems (level : Nat) : List Json → String
  | [] => ""
  | item :: rest => "," ++ indentation level ++ prettyAt level item ++ prettyMoreItems level rest

/-- Further members, each on a line of its own. -/
def prettyMoreMembers (level : Nat) : List (String × Json) → String
  | [] => ""
  | (key, value) :: rest =>
    "," ++ indentation level ++ quote key ++ ": " ++ prettyAt level value ++
      prettyMoreMembers level rest

end

/-- The written form with one item a line. -/
def pretty (value : Json) : String := prettyAt 0 value

/-- The text of a value as a field of another: a string stands for itself, anything else for
its compact form. -/
def plainText : Json → String
  | .str text => text
  | other => compact other

end Json

end ApiGateway
